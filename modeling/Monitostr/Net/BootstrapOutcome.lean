import Monitostr.Net.SeedOrder
import Monitostr.Utils.JsonText

/-! # What a bootstrap result says of itself

The completion gets one result, whatever the candidates did. It is well formed when success, the absence of
an error and the presence of relays are the same, and a success has secure URLs, each once. The error
of an answer without any list stays beside the fallback set, so a result is well formed exactly when the
first candidate that answers has found a list; when none answers, the last one must have said what is
wrong with it.
-/

namespace Monitostr.Net
open Foundations
set_option autoImplicit false

structure WellFormed (result : BootstrapResult) : Prop where
  ok_iff_error : result.ok = true ↔ result.error = []
  ok_iff_relayUrls : result.ok = true ↔ result.relayUrls ≠ []
  secure : result.ok = true → ∀ url ∈ result.relayUrls,
    ∃ parsed, parseRelayUrl url = some parsed ∧ parsed.secure = true
  nodup : result.ok = true → result.relayUrls.Nodup

/-! ## The relays of a result -/

theorem exists_secure_of_mem {relayUrls : List Str} {url : Str}
    (h : url ∈ supportedRelayUrls relayUrls) :
    ∃ parsed, parseRelayUrl url = some parsed ∧ parsed.secure = true := by
  have hsecure := (mem_supportedRelayUrls.mp h).2
  rw [isSecureRelay] at hsecure
  exact (Option.any_eq_true _ _).mp hsecure

theorem nodup_supportedRelayUrls (relayUrls : List Str) : (supportedRelayUrls relayUrls).Nodup := by
  unfold supportedRelayUrls
  rw [deduplicate_eq]
  exact nodup_eraseDups _

variable {pf : Platform}

theorem Judged.relayUrls_supported {seedRelayUrl : Str} {lists : List Str × List Str}
    {result : BootstrapResult} (h : Judged seedRelayUrl lists result) :
    ∃ relayUrls, result.relayUrls = supportedRelayUrls relayUrls := by
  by_cases husable : supportedRelayUrls (judgedList lists) = []
  · exact ⟨_, (h.unusable husable).1⟩
  · exact ⟨_, (h.usable husable).1⟩

/-- Of the result of an answer, only its error can be wrong. -/
theorem Judged.wellFormed_iff {seedRelayUrl : Str} {lists : List Str × List Str}
    {result : BootstrapResult} (h : Judged seedRelayUrl lists result) :
    WellFormed result ↔ result.error = [] := by
  constructor
  · intro hwell
    exact hwell.ok_iff_error.mp h.ok
  · intro herror
    obtain ⟨relayUrls, hrelays⟩ := h.relayUrls_supported
    refine ⟨iff_of_true h.ok herror, iff_of_true h.ok h.relayUrls_ne_nil, fun _ url hurl => ?_,
      fun _ => ?_⟩
    · rw [hrelays] at hurl
      exact exists_secure_of_mem hurl
    · rw [hrelays]
      exact nodup_supportedRelayUrls relayUrls

theorem wellFormed_failure_iff (what : Str) :
    WellFormed (resultOf (.error what)) ↔ what ≠ [] := by
  show WellFormed { error := what } ↔ what ≠ []
  constructor
  · rintro hwell hnil
    have hok := hwell.ok_iff_error.mpr hnil
    cases hok
  · intro hne
    exact ⟨by simp [hne], by simp, by simp, by simp⟩

/-! ## The errors -/

theorem queryBothKinds_error (kind10002 kind3 : List Str) :
    (queryBothKinds pf kind10002 kind3).error = [] ↔
      judgedList (queryKindWithWs pf (lit "bootstrap-10002") kind10002,
        queryKindWithWs pf (lit "bootstrap-3") kind3) ≠ [] := by
  have herror : lit "no relay list found in kinds 10002/3" ≠ [] := by decide
  rw [queryBothKinds, judgedList]
  cases queryKindWithWs pf (lit "bootstrap-10002") kind10002 with
  | cons url rest => simp
  | nil => cases queryKindWithWs pf (lit "bootstrap-3") kind3 <;> simp [herror]

/-- The fallback keeps the error of the queries. -/
theorem querySeedRelay_error {candidate : Str × SeedBehaviour} {hexPubkey : Str}
    {lists : List Str × List Str} {result : BootstrapResult} (hne : hexPubkey ≠ [])
    (h : answer pf candidate = some lists)
    (houtcome : outcome pf hexPubkey candidate = .ok result) :
    result.error = [] ↔ judgedList lists ≠ [] := by
  obtain ⟨seedRelayUrl, seed⟩ := candidate
  have hempty : ¬ hexPubkey.isEmpty = true := by simpa using hne
  rw [answer] at h
  rw [outcome, querySeedRelay, if_neg hempty] at houtcome
  dsimp only at h houtcome
  cases hparse : parseRelayUrl seedRelayUrl with
  | none => simp [hparse] at h
  | some parsed =>
    cases seed with
    | throws what => simp [hparse] at h
    | answers sniSet kind10002 kind3 =>
      simp only [hparse] at h houtcome
      split at h
      · cases h
      · next hsni =>
        obtain rfl := Option.some.inj h
        rw [if_neg hsni] at houtcome
        rw [← queryBothKinds_error]
        -- Both ways of ending the query leave the error as it is.
        split at houtcome
        · next heq =>
          split at heq
          all_goals
            obtain ⟨rfl, -⟩ := Prod.mk.inj (Except.ok.inj heq)
            split at houtcome
            · obtain rfl := Except.ok.inj houtcome
              rfl
            · cases houtcome
        · cases houtcome

/-- A candidate with a URL that parses fails without a text only by an exception without one. -/
theorem outcome_error {seedRelayUrl hexPubkey : Str} {seed : SeedBehaviour} (hne : hexPubkey ≠ [])
    (hparse : (parseRelayUrl seedRelayUrl).isSome = true)
    (h : answer pf (seedRelayUrl, seed) = none) :
    ∃ what, outcome pf hexPubkey (seedRelayUrl, seed) = .error what ∧
      (what ≠ [] ↔ seed ≠ .throws []) := by
  have hempty : ¬ hexPubkey.isEmpty = true := by simpa using hne
  obtain ⟨parsed, hparsed⟩ := Option.isSome_iff_exists.mp hparse
  rw [answer] at h
  rw [outcome, querySeedRelay, if_neg hempty]
  simp only [hparsed] at h ⊢
  cases seed with
  | throws what => exact ⟨what, rfl, by simp⟩
  | answers sniSet kind10002 kind3 =>
    dsimp only at h ⊢
    split at h
    · next hsni =>
      rw [if_pos hsni]
      have htext : lit "failed to set SNI" ≠ [] := by decide
      exact ⟨_, rfl, iff_of_true htext (by simp)⟩
    · cases h

/-! ## The result for the completion -/

variable {hexPubkey seedRelayUrl : Str} {behaviour : ℕ → SeedBehaviour}

theorem resolve_of_answer (hne : hexPubkey ≠ []) {lists : List Str × List Str}
    (h : (candidatesOf seedRelayUrl behaviour).findSome? (answer pf) = some lists) :
    WellFormed (resolveRelaysForPubkey pf hexPubkey seedRelayUrl behaviour).1 ↔
      judgedList lists ≠ [] := by
  obtain ⟨candidate, -, hanswer, houtcome, hjudged⟩ := tryCandidates_of_answer hne h
  rw [resolveRelaysForPubkey_fst, hjudged.wellFormed_iff, querySeedRelay_error hne hanswer houtcome]

theorem candidatesOf_eq (seedRelayUrl : Str) (behaviour : ℕ → SeedBehaviour) :
    candidatesOf seedRelayUrl behaviour = (candidatesOf seedRelayUrl behaviour).take 5 ++
      [(lit "wss://relay.primal.net", behaviour 5)] := rfl

theorem resolve_of_no_answer (hne : hexPubkey ≠ [])
    (h : (candidatesOf seedRelayUrl behaviour).findSome? (answer pf) = none) :
    WellFormed (resolveRelaysForPubkey pf hexPubkey seedRelayUrl behaviour).1 ↔
      behaviour 5 ≠ .throws [] := by
  have hsecure : (parseRelayUrl (lit "wss://relay.primal.net")).isSome = true := by decide
  rw [candidatesOf_eq, List.findSome?_append, Option.or_eq_none_iff] at h
  have hlast : answer pf (lit "wss://relay.primal.net", behaviour 5) = none := by
    simpa using h.2
  obtain ⟨what, houtcome, hwhat⟩ := outcome_error hne hsecure hlast
  rw [resolveRelaysForPubkey_fst, candidatesOf_eq, tryCandidates_fst,
    (outcome_foretold hne).attempts_last h.1, houtcome, wellFormed_failure_iff]
  exact hwhat

/-- A result has no relays, or is what is made of the answer of a candidate. -/
theorem resolve_cases (pf : Platform) (hexPubkey seedRelayUrl : Str)
    (behaviour : ℕ → SeedBehaviour) :
    (resolveRelaysForPubkey pf hexPubkey seedRelayUrl behaviour).1.relayUrls = [] ∨
      ∃ candidate ∈ candidatesOf seedRelayUrl behaviour, ∃ lists, answer pf candidate = some lists ∧
        Judged candidate.1 lists
          (resolveRelaysForPubkey pf hexPubkey seedRelayUrl behaviour).1 := by
  by_cases hne : hexPubkey = []
  · subst hne
    rw [resolve_nil_pubkey]
    exact Or.inl rfl
  · rw [resolveRelaysForPubkey_fst]
    cases hfind : (candidatesOf seedRelayUrl behaviour).findSome? (answer pf) with
    | none =>
      obtain ⟨what, hfailed⟩ := (outcome_foretold hne).attempts_of_none hfind []
      rw [tryCandidates_fst, hfailed]
      exact Or.inl rfl
    | some lists =>
      obtain ⟨candidate, hc, hanswer, -, hjudged⟩ := tryCandidates_of_answer hne hfind
      exact Or.inr ⟨candidate, hc, lists, hanswer, hjudged⟩

/-- The relays of any result have been through the filter. -/
theorem resolve_relayUrls_supported (pf : Platform) (hexPubkey seedRelayUrl : Str)
    (behaviour : ℕ → SeedBehaviour) :
    ∃ relayUrls, (resolveRelaysForPubkey pf hexPubkey seedRelayUrl behaviour).1.relayUrls =
      supportedRelayUrls relayUrls := by
  rcases resolve_cases pf hexPubkey seedRelayUrl behaviour with
    hnil | ⟨candidate, -, lists, -, hjudged⟩
  · exact ⟨[], hnil⟩
  · exact hjudged.relayUrls_supported

theorem judgedList_ne_nil_iff (lists : List Str × List Str) :
    judgedList lists ≠ [] ↔ lists.1 ≠ [] ∨ lists.2 ≠ [] := by
  unfold judgedList
  split
  · next hnil => simp [hnil]
  · next hne => simp [hne]

/-- **The result is well formed** exactly when there is no pubkey to ask for, or the first candidate that
answers finds a list of either kind, or none answers and the last one does not fail without a word. -/
theorem resolve_wellFormed_iff (pf : Platform) (hexPubkey seedRelayUrl : Str)
    (behaviour : ℕ → SeedBehaviour) :
    WellFormed (resolveRelaysForPubkey pf hexPubkey seedRelayUrl behaviour).1 ↔
      hexPubkey = [] ∨
        (∃ lists, (candidatesOf seedRelayUrl behaviour).findSome? (answer pf) = some lists ∧
          (lists.1 ≠ [] ∨ lists.2 ≠ [])) ∨
        (candidatesOf seedRelayUrl behaviour).findSome? (answer pf) = none ∧
          behaviour 5 ≠ .throws [] := by
  by_cases hne : hexPubkey = []
  · subst hne
    have htext : lit "empty hex pubkey" ≠ [] := by decide
    rw [resolve_nil_pubkey, wellFormed_failure_iff]
    exact iff_of_true htext (Or.inl rfl)
  · cases hfind : (candidatesOf seedRelayUrl behaviour).findSome? (answer pf) with
    | none =>
      rw [resolve_of_no_answer hne hfind]
      simp [hne]
    | some lists =>
      rw [resolve_of_answer hne hfind, judgedList_ne_nil_iff]
      simp [hne]

/-! ## A seed without a list -/

theorem queryKindWithWs_eose {subId payload : Str}
    (h : pf.parseJson payload = some (eoseMessage subId)) :
    queryKindWithWs pf subId [payload] = [] := by
  have hloop : queryLoop pf subId [] [payload] = [] := by
    rw [queryLoop, h]
    simp [eoseMessage, Json.getString?]
  rw [queryKindWithWs, hloop]
  rfl

/-- Every seed ends both queries without an event. -/
def seedsKnowNothing : ℕ → SeedBehaviour := fun _ =>
  .answers true [(eoseMessage (lit "bootstrap-10002")).text] [(eoseMessage (lit "bootstrap-3")).text]

theorem readText_eose (subId : Str) (h : IsUtf8 subId) :
    textPlatform.parseJson (eoseMessage subId).text = some (eoseMessage subId) := by
  refine readText_text (.array ?_)
  simp only [List.forall_mem_cons]
  exact ⟨.string (isUtf8_of_all rfl), .string h, by simp⟩

theorem findSome?_seedsKnowNothing :
    (candidatesOf kDefaultSeed seedsKnowNothing).findSome? (answer textPlatform) = some ([], []) := by
  have hanswer : answer textPlatform (kDefaultSeed, seedsKnowNothing 0) = some ([], []) := by
    rw [seedsKnowNothing, answer_defaultSeed,
      queryKindWithWs_eose (readText_eose (lit "bootstrap-10002") (isUtf8_of_all rfl)),
      queryKindWithWs_eose (readText_eose (lit "bootstrap-3") (isUtf8_of_all rfl))]
  exact findSome?_of_first_answers hanswer

/-- The fallback set is handed out as a success with an error. -/
theorem not_wellFormed_no_list :
    ¬ WellFormed (resolveRelaysForPubkey textPlatform samplePubkeyHex kDefaultSeed
      seedsKnowNothing).1 := by
  rw [resolve_of_answer (by decide) findSome?_seedsKnowNothing]
  exact not_not_intro rfl

end Monitostr.Net
