import Monitostr.Net.BootstrapOutcome
import Monitostr.Net.RelayUrl
import Monitostr.Net.SessionManager

/-! # Which endpoints the relays of a bootstrap are

A URL is a relay of its own throughout the program, and it is kept apart from others by its text.
Connections are made to its parse. A list of different URLs has different endpoints exactly when it
spells each endpoint in one way, and then no two sessions are started to one endpoint.
-/

namespace Monitostr.Net
open Nostr
set_option autoImplicit false

/-- No two of the URLs have the same parse. -/
def DistinctEndpoints (relayUrls : List Str) : Prop := (relayUrls.map parseRelayUrl).Nodup

/-- No endpoint is spelled in two ways among the secure URLs. -/
def OneSpelling (relayUrls : List Str) : Prop :=
  ∀ a ∈ relayUrls, ∀ b ∈ relayUrls, isSecureRelay a = true → isSecureRelay b = true →
    parseRelayUrl a = parseRelayUrl b → a = b

/-- The sessions of the manager go to different endpoints. -/
def SessionsApart (manager : SessionManager) : Prop :=
  (manager.sessions.map fun session => parseRelayUrl session.data.relayUrl).Nodup

theorem distinctEndpoints_iff {relayUrls : List Str} (hnodup : relayUrls.Nodup)
    (hsecure : ∀ url ∈ relayUrls, isSecureRelay url = true) :
    DistinctEndpoints relayUrls ↔ OneSpelling relayUrls := by
  unfold DistinctEndpoints OneSpelling
  rw [List.nodup_map_iff_inj_on hnodup]
  constructor
  · intro h a ha b hb _ _ hparse
    exact h a ha b hb hparse
  · intro h a ha b hb hparse
    exact h a ha b hb (hsecure a ha) (hsecure b hb) hparse

theorem oneSpelling_supported_iff (relayUrls : List Str) :
    OneSpelling (supportedRelayUrls relayUrls) ↔ OneSpelling relayUrls := by
  constructor
  · intro h a ha b hb hsa hsb
    exact h a (mem_supportedRelayUrls.mpr ⟨ha, hsa⟩) b (mem_supportedRelayUrls.mpr ⟨hb, hsb⟩) hsa hsb
  · intro h a ha b hb
    exact h a (mem_supportedRelayUrls.mp ha).1 b (mem_supportedRelayUrls.mp hb).1

theorem distinctEndpoints_supported_iff (relayUrls : List Str) :
    DistinctEndpoints (supportedRelayUrls relayUrls) ↔ OneSpelling relayUrls := by
  rw [distinctEndpoints_iff (nodup_supportedRelayUrls relayUrls), oneSpelling_supported_iff]
  intro url hurl
  exact (mem_supportedRelayUrls.mp hurl).2

/-- `Start` makes one session for each URL of its list. -/
theorem sessionsApart_start_iff (manager : SessionManager) (relayUrls : List Str) (hexPubkey : Str)
    (authKey : Option AuthKey) :
    SessionsApart (manager.start relayUrls hexPubkey authKey).1 ↔ DistinctEndpoints relayUrls := by
  unfold SessionsApart DistinctEndpoints SessionManager.start
  simp only [List.map_map]
  rfl

/-- **The endpoints of the relays.** The filter leaves each URL once, and two URLs of one endpoint when the
list spells it in two ways, which are an explicit default port and an empty path. Two sessions to one
endpoint are started from the filtered list, or from the result of a bootstrap, exactly in that case. -/
theorem endpoints_distinct_iff (relayUrls : List Str) :
    (supportedRelayUrls relayUrls).Nodup ∧
    (∀ a ∈ supportedRelayUrls relayUrls, ∀ b ∈ supportedRelayUrls relayUrls,
      parseRelayUrl a = parseRelayUrl b → ∃ r rest port port' path path',
        Spelled r rest port path a ∧ Spelled r rest port' path' b) ∧
    (DistinctEndpoints (supportedRelayUrls relayUrls) ↔ OneSpelling relayUrls) ∧
    (∀ (manager : SessionManager) (hexPubkey : Str) (authKey : Option AuthKey),
      SessionsApart (manager.start (supportedRelayUrls relayUrls) hexPubkey authKey).1 ↔
        OneSpelling relayUrls) ∧
    ∀ (pf : Platform) (hexPubkey seedRelayUrl : Str) (behaviour : ℕ → SeedBehaviour)
      (manager : SessionManager) (authKey : Option AuthKey),
        SessionsApart (manager.start
            (resolveRelaysForPubkey pf hexPubkey seedRelayUrl behaviour).1.relayUrls hexPubkey
            authKey).1 ↔
          OneSpelling (resolveRelaysForPubkey pf hexPubkey seedRelayUrl behaviour).1.relayUrls := by
  refine ⟨nodup_supportedRelayUrls relayUrls, ?_, distinctEndpoints_supported_iff relayUrls, ?_, ?_⟩
  · intro a ha b hb hparse
    obtain ⟨r, hr, -⟩ := exists_secure_of_mem ha
    obtain ⟨rest, port, port', path, path', -, hspelled⟩ := spelled_of_same_parse hr (hparse ▸ hr)
    exact ⟨r, rest, port, port', path, path', hspelled⟩
  · intro manager hexPubkey authKey
    rw [sessionsApart_start_iff, distinctEndpoints_supported_iff]
  · intro pf hexPubkey seedRelayUrl behaviour manager authKey
    obtain ⟨found, hfound⟩ := resolve_relayUrls_supported pf hexPubkey seedRelayUrl behaviour
    rw [sessionsApart_start_iff, hfound, distinctEndpoints_supported_iff, oneSpelling_supported_iff]

/-- A relay with and without its `/` gets two sessions. -/
theorem two_sessions_one_endpoint :
    ¬ DistinctEndpoints (supportedRelayUrls [sampleRelay, sampleRelay ++ lit "/"]) ∧
      ¬ SessionsApart (SessionManager.start {}
        (supportedRelayUrls [sampleRelay, sampleRelay ++ lit "/"]) samplePubkeyHex none).1 := by
  have hparse : parseRelayUrl sampleRelay = parseRelayUrl (sampleRelay ++ lit "/") := by decide
  have hspelling : ¬ OneSpelling [sampleRelay, sampleRelay ++ lit "/"] := by
    intro h
    have heq := h sampleRelay (by simp) (sampleRelay ++ lit "/") (by simp) (by decide) (by decide) hparse
    exact absurd heq (by decide)
  rw [sessionsApart_start_iff, distinctEndpoints_supported_iff]
  exact ⟨hspelling, hspelling⟩

end Monitostr.Net
