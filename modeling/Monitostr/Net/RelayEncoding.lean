import Monitostr.Net.BootstrapOutcome

/-! # The encoding of the relays of a bootstrap

The URLs that a bootstrap hands out come from JSON that has been parsed, or are those of seeds. All of them
are UTF-8 when the given seed is, so nothing that is dumped with one of them fails for it.
-/

namespace Monitostr.Net
open Foundations
set_option autoImplicit false

def AllUtf8 (relayUrls : List Str) : Prop := ∀ url ∈ relayUrls, IsUtf8 url

theorem AllUtf8.append {relayUrls more : List Str} (h : AllUtf8 relayUrls) (hmore : AllUtf8 more) :
    AllUtf8 (relayUrls ++ more) :=
  List.forall_mem_append.mpr ⟨h, hmore⟩

theorem AllUtf8.supported {relayUrls : List Str} (h : AllUtf8 relayUrls) :
    AllUtf8 (supportedRelayUrls relayUrls) := by
  intro url hurl
  exact h url (mem_supportedRelayUrls.mp hurl).1

/-! ## Relay lists -/

theorem isUtf8_relayTag {j : Json} {url : Str} (h : j.Encoded) (hurl : relayTag j = some url) :
    IsUtf8 url := by
  unfold relayTag at hurl
  split at hurl
  · next key value rest =>
    split at hurl
    · obtain rfl := Option.some.inj hurl
      have hvalue : (Json.string value).Encoded := h.element (by simp)
      exact hvalue.utf8_string
    · cases hurl
  · cases hurl

theorem isUtf8_relayString {j : Json} {url : Str} (h : j.Encoded) (hurl : relayString j = some url) :
    IsUtf8 url := by
  unfold relayString at hurl
  split at hurl
  · split at hurl
    · obtain rfl := Option.some.inj hurl
      exact h.utf8_string
    · cases hurl
  · cases hurl

theorem allUtf8_filterMap {f : Json → Option Str} {elements : List Json}
    (hf : ∀ j url, j.Encoded → f j = some url → IsUtf8 url)
    (h : (Json.array elements).Encoded) : AllUtf8 (elements.filterMap f) := by
  intro url hurl
  obtain ⟨j, hj, hfound⟩ := List.mem_filterMap.mp hurl
  exact hf j url (h.element hj) hfound

variable {pf : Platform} (hutf8 : ParsesUtf8 pf)
include hutf8

theorem allUtf8_extract {event : Json} (h : event.Encoded) :
    AllUtf8 (extractRelayUrlsFromEvent pf event) := by
  unfold extractRelayUrlsFromEvent
  apply AllUtf8.append
  · split
    · next tags htags =>
      exact allUtf8_filterMap (fun _ _ => isUtf8_relayTag) (h.member htags)
    · exact List.forall_mem_nil _
  · split
    · exact List.forall_mem_nil _
    · next content hcontent =>
      -- The content is JSON text of its own.
      split
      · next members hparse =>
        intro url hurl
        obtain ⟨p, hp, rfl⟩ := List.mem_map.mp (List.mem_filter.mp hurl).1
        cases hutf8 _ _ hparse with
        | object utf8 encoded => exact utf8 p hp
      · next items hparse =>
        exact allUtf8_filterMap (fun _ _ => isUtf8_relayString) (hutf8 _ _ hparse)
      · exact List.forall_mem_nil _

theorem allUtf8_queryLoop (subId : Str) (payloads : List Str) {relayUrls : List Str}
    (h : AllUtf8 relayUrls) : AllUtf8 (queryLoop pf subId relayUrls payloads) := by
  induction payloads generalizing relayUrls with
  | nil => exact h
  | cons payload payloads ih =>
    rw [queryLoop]
    split
    · next type rest hparse =>
      -- a message may add its relays (`EVENT`) and may end the query (`EOSE`)
      cases hevent : rest[1]? with
      | none =>
        dsimp only
        split
        · exact h
        · exact ih h
      | some event =>
        have hencoded : event.Encoded :=
          (hutf8 _ _ hparse).element (List.mem_cons_of_mem _ (List.mem_of_getElem? hevent))
        have hextended : AllUtf8 (relayUrls ++ extractRelayUrlsFromEvent pf event) :=
          h.append (allUtf8_extract hutf8 hencoded)
        dsimp only
        split
        · split
          · exact hextended
          · exact h
        · split
          · exact ih hextended
          · exact ih h
    · exact ih h

theorem allUtf8_queryKindWithWs (subId : Str) (payloads : List Str) :
    AllUtf8 (queryKindWithWs pf subId payloads) := by
  intro url hurl
  exact allUtf8_queryLoop hutf8 subId payloads (List.forall_mem_nil _) url (mem_deduplicate.mp hurl).1

theorem allUtf8_judgedList {candidate : Str × SeedBehaviour} {lists : List Str × List Str}
    (h : answer pf candidate = some lists) : AllUtf8 (judgedList lists) := by
  unfold answer at h
  split at h
  · split at h
    · cases h
    · obtain rfl := Option.some.inj h
      unfold judgedList
      split
      · exact allUtf8_queryKindWithWs hutf8 _ _
      · exact allUtf8_queryKindWithWs hutf8 _ _
  · cases h

/-! ## The result -/

omit hutf8 in
theorem allUtf8_fallback {seedRelayUrl : Str} (hseed : IsUtf8 seedRelayUrl) :
    AllUtf8 (fallbackRelayUrls seedRelayUrl) := by
  unfold AllUtf8 fallbackRelayUrls
  simp only [List.forall_mem_cons]
  exact ⟨hseed, isUtf8_of_all rfl, isUtf8_of_all rfl, by simp⟩

omit hutf8 in
theorem isUtf8_candidate {seedRelayUrl : Str} (hseed : IsUtf8 seedRelayUrl)
    {behaviour : ℕ → SeedBehaviour} {candidate : Str × SeedBehaviour}
    (h : candidate ∈ candidatesOf seedRelayUrl behaviour) : IsUtf8 candidate.1 := by
  have hseeds : AllUtf8 (candidateSeeds seedRelayUrl) := by
    unfold AllUtf8 candidateSeeds
    simp only [List.forall_mem_cons]
    exact ⟨hseed, isUtf8_of_all rfl, isUtf8_of_all rfl, isUtf8_of_all rfl, isUtf8_of_all rfl,
      isUtf8_of_all rfl, by simp⟩
  obtain ⟨i, hi, rfl⟩ := List.mem_mapIdx.mp h
  exact hseeds _ (List.getElem_mem hi)

/-- The relays of a bootstrap are UTF-8 when its seed is. -/
theorem allUtf8_resolve (hexPubkey : Str) {seedRelayUrl : Str} (hseed : IsUtf8 seedRelayUrl)
    (behaviour : ℕ → SeedBehaviour) :
    AllUtf8 (resolveRelaysForPubkey pf hexPubkey seedRelayUrl behaviour).1.relayUrls := by
  rcases resolve_cases pf hexPubkey seedRelayUrl behaviour with
    hnil | ⟨candidate, hc, lists, hanswer, hjudged⟩
  · rw [hnil]
    exact List.forall_mem_nil _
  · by_cases husable : supportedRelayUrls (judgedList lists) = []
    · rw [(hjudged.unusable husable).1]
      exact (allUtf8_fallback (isUtf8_candidate hseed hc)).supported
    · rw [(hjudged.usable husable).1]
      exact (allUtf8_judgedList hutf8 hanswer).supported

end Monitostr.Net
