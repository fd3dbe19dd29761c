import Monitostr.Foundations.Resemblance
import Monitostr.Net.HandledMessages
import Monitostr.Net.SessionManager
import Monitostr.Net.SessionTargets

/-! # What a session does with its private key

A session uses its private key to sign the answers to AUTH challenges, and for nothing else. Two sessions whose
keys have the same public key do the same, but for the texts of these answers.
-/

namespace Monitostr.Net
open Foundations Foundations.Behaviour Model Nostr
set_option autoImplicit false

section Keys
variable (pf : Platform)

/-- libsecp256k1: whether signing succeeds does not depend on which of the private keys of a public key
signs. -/
def SignsAlike : Prop :=
  ∀ key key', pf.xonlyPubkey key = pf.xonlyPubkey key' → ∀ id aux,
    (pf.schnorrSign id key aux).isSome = (pf.schnorrSign id key' aux).isSome

/-- Two private keys of one public key. -/
def SamePubkey (key key' : AuthKey) : Prop :=
  key.hexPubkey = key'.hexPubkey ∧ pf.xonlyPubkey key.privkeyBytes = pf.xonlyPubkey key'.privkeyBytes

/-- No key, or two private keys of one public key. -/
def KeysAlike : Option AuthKey → Option AuthKey → Prop := Option.Rel (SamePubkey pf)

/-- What resembles what: private keys of one public key, the answers to AUTH challenges, and what is equal. -/
def keyBlind : Looks RelaySession SessionCall AsyncOp Effect where
  data s s' := IsUtf8 s.relayUrl ∧
    ∃ authKey, KeysAlike pf s.authKey authKey ∧ s' = { s with authKey := authKey }
  call c c' := c = c' ∨
    ∃ authKey authKey', KeysAlike pf authKey authKey' ∧ c = .setAuthKey authKey ∧ c' = .setAuthKey authKey'
  op op op' := op = op' ∨ ∃ message message', op = .writeAuth message ∧ op' = .writeAuth message'
  effect effect effect' := effect = effect' ∨
    ∃ message message', effect = .start (.writeAuth message) ∧ effect' = .start (.writeAuth message')

end Keys

variable {pf : Platform} {m : Moment} {s : RelaySession}

theorem samePubkey_refl (key : AuthKey) : SamePubkey pf key key := ⟨rfl, rfl⟩

theorem keysAlike_refl (authKey : Option AuthKey) : KeysAlike pf authKey authKey := by
  cases authKey with
  | none => exact .none
  | some key => exact .some (samePubkey_refl key)

theorem sameEffects (effects : List Effect) :
    List.Forall₂ (keyBlind pf).effect effects effects :=
  List.forall₂_same.mpr fun _ _ => Or.inl rfl

/-! ## The answers to challenges -/

section Challenge
variable (hjson : ParseInvertsDump pf)
  (hclock : -2 ^ 63 ≤ m.unixSeconds ∧ m.unixSeconds < 2 ^ 63) {relayUrl challenge : Str}
  (hurl : IsUtf8 relayUrl) (hchallenge : IsUtf8 challenge)
include hjson hclock hurl hchallenge

/-- An event that has been signed is a text. -/
theorem authEvent_dumped (pubkey id : Bytes 32) (sig : Bytes 64) :
    ∃ text, pf.dumpJson (authEvent m relayUrl challenge pubkey id sig) = some text ∧ text ≠ [] := by
  obtain ⟨text, htext, hparse⟩ := hjson _ (plain_authEvent hclock hurl hchallenge pubkey id sig)
  refine ⟨text, htext, ?_⟩
  rintro rfl
  rw [pf.parseJson_nil] at hparse
  cases hparse

/-- Two private keys of one public key sign alike. -/
theorem signing_fails_iff (hsigns : SignsAlike pf) {key key' : Bytes 32}
    (hsame : pf.xonlyPubkey key = pf.xonlyPubkey key') :
    buildAuthEvent pf m relayUrl challenge key = some [] ↔
      buildAuthEvent pf m relayUrl challenge key' = some [] := by
  rw [buildAuthEvent, buildAuthEvent, hsame]
  split
  · exact Iff.rfl
  · split
    · exact Iff.rfl
    · next pubkeyBytes _ =>
      dsimp only
      split
      · exact Iff.rfl
      · next serialised _ =>
        split
        · exact Iff.rfl
        · next auxRand _ =>
          have hsome := hsigns key key' hsame (pf.sha256 serialised) auxRand
          cases hsig : pf.schnorrSign (pf.sha256 serialised) key auxRand with
          | none =>
            rw [hsig, Option.isSome_none, eq_comm, Option.isSome_eq_false_iff,
              Option.isNone_iff_eq_none] at hsome
            rw [hsome]
          | some sig =>
            rw [hsig, Option.isSome_some, eq_comm] at hsome
            obtain ⟨sig', hsig'⟩ := Option.isSome_iff_exists.mp hsome
            obtain ⟨text, htext, hne⟩ :=
              authEvent_dumped hjson hclock hurl hchallenge pubkeyBytes (pf.sha256 serialised) sig
            obtain ⟨text', htext', hne'⟩ :=
              authEvent_dumped hjson hclock hurl hchallenge pubkeyBytes (pf.sha256 serialised) sig'
            rw [authEvent, authTags] at htext htext'
            rw [hsig']
            dsimp only
            rw [htext, htext', Option.some.injEq, Option.some.injEq]
            exact iff_of_false hne hne'

end Challenge

/-- What a session with a key does with a challenge. -/
theorem onAuthChallenge_cases (hjson : ParseInvertsDump pf)
    (hclock : -2 ^ 63 ≤ m.unixSeconds ∧ m.unixSeconds < 2 ^ 63) (hurl : IsUtf8 s.relayUrl)
    {challenge : Str} (hchallenge : IsUtf8 challenge) {key : AuthKey} (hkey : s.authKey = some key) :
    (buildAuthEvent pf m s.relayUrl challenge key.privkeyBytes = some [] ∧
      s.onAuthChallenge pf m challenge =
        [s.info (lit "NIP-42 AUTH challenge received — signing"), s.error (lit "NIP-42 AUTH signing failed")]) ∨
    (buildAuthEvent pf m s.relayUrl challenge key.privkeyBytes ≠ some [] ∧ ∃ message,
      s.onAuthChallenge pf m challenge =
        [s.info (lit "NIP-42 AUTH challenge received — signing"), .start (.writeAuth message)]) := by
  rw [RelaySession.onAuthChallenge, hkey]
  dsimp only
  by_cases hfailed : buildAuthEvent pf m s.relayUrl challenge key.privkeyBytes = some []
  · rw [hfailed]
    exact Or.inl ⟨rfl, rfl⟩
  · obtain ⟨text, event, htext, hparse, hplain, -⟩ :=
      buildAuthEvent_spec hclock hurl hchallenge hjson (signaturesVerify_trivial pf) hfailed
    have hmessage : (Json.array [.string (lit "AUTH"), event]).Plain := by
      refine .array ?_
      simp only [List.forall_mem_cons]
      exact ⟨.string (isUtf8_of_all rfl), hplain, List.forall_mem_nil _⟩
    obtain ⟨message, hdump, -⟩ := hjson _ hmessage
    have hne : text.isEmpty = false := by
      cases text with
      | nil => rw [pf.parseJson_nil] at hparse; cases hparse
      | cons => rfl
    refine Or.inr ⟨hfailed, message, ?_⟩
    rw [htext]
    dsimp only
    rw [hne, if_neg Bool.false_ne_true, hparse]
    dsimp only
    rw [hdump]

theorem onAuthChallenge_blind (hjson : ParseInvertsDump pf) (hsigns : SignsAlike pf)
    (hclock : -2 ^ 63 ≤ m.unixSeconds ∧ m.unixSeconds < 2 ^ 63) (hurl : IsUtf8 s.relayUrl)
    {challenge : Str} (hchallenge : IsUtf8 challenge) {authKey : Option AuthKey}
    (hkeys : KeysAlike pf s.authKey authKey) :
    List.Forall₂ (keyBlind pf).effect (s.onAuthChallenge pf m challenge)
      ({ s with authKey := authKey }.onAuthChallenge pf m challenge) := by
  cases hs : s.authKey with
  | none =>
    rw [hs] at hkeys
    cases hkeys
    rw [RelaySession.onAuthChallenge, hs]
    exact sameEffects _
  | some key =>
    rw [hs] at hkeys
    cases hkeys with
    | @some _ key' hsame =>
      have hfails := signing_fails_iff hjson hclock hurl hchallenge hsigns hsame.2
      have hsecond := @onAuthChallenge_cases pf m { s with authKey := some key' } hjson hclock hurl
        challenge hchallenge key' rfl
      rcases onAuthChallenge_cases hjson hclock hurl hchallenge hs with
        ⟨hfailed, heffects⟩ | ⟨hsigned, message, heffects⟩
      · rcases hsecond with ⟨-, heffects'⟩ | ⟨hsigned', -⟩
        · rw [heffects, heffects']
          exact sameEffects _
        · exact absurd (hfails.mp hfailed) hsigned'
      · rcases hsecond with ⟨hfailed', -⟩ | ⟨-, message', heffects'⟩
        · exact absurd (hfails.mpr hfailed') hsigned
        · rw [heffects, heffects']
          exact .cons (Or.inl rfl) (.cons (Or.inr ⟨message, message', rfl, rfl⟩) .nil)

/-! ## The other handlers -/

/-- The session after a handler and its effects, with another key in it. -/
def withKey (authKey : Option AuthKey) (result : RelaySession × List Effect) :
    RelaySession × List Effect :=
  ({ result.1 with authKey := authKey }, result.2)

theorem markError_withKey (where_ ec : Str) (authKey : Option AuthKey) :
    { s with authKey := authKey }.markError pf m where_ ec = withKey authKey (s.markError pf m where_ ec) := by
  rw [RelaySession.markError, RelaySession.markError]
  dsimp only
  split <;> rfl

theorem onStart_withKey (authKey : Option AuthKey) :
    { s with authKey := authKey }.onStart = withKey authKey s.onStart := by
  have hrestart : ∀ s : RelaySession,
      ({ s with stopped := false } : RelaySession).parseRelayUrl = s.restarted := fun _ => rfl
  rw [RelaySession.onStart, RelaySession.onStart, hrestart, hrestart]
  by_cases hhost : s.restarted.parsedRelay.host.isEmpty = true
  · have hhost' : { s with authKey := authKey }.restarted.parsedRelay.host.isEmpty = true := hhost
    rw [if_pos hhost, if_pos hhost']
    rfl
  · have hhost' : ¬ { s with authKey := authKey }.restarted.parsedRelay.host.isEmpty = true := hhost
    rw [if_neg hhost, if_neg hhost']
    by_cases hsecure : (!s.restarted.parsedRelay.secure) = true
    · have hsecure' : (!{ s with authKey := authKey }.restarted.parsedRelay.secure) = true := hsecure
      rw [if_pos hsecure, if_pos hsecure']
      rfl
    · have hsecure' : ¬ (!{ s with authKey := authKey }.restarted.parsedRelay.secure) = true := hsecure
      rw [if_neg hsecure, if_neg hsecure']
      rfl

/-- A handler that answers no challenge does not look at the key. -/
theorem handle_withKey {item : Item SessionCall AsyncOp Outcome} (authKey : Option AuthKey)
    (hread : ∀ o, item ≠ .completion .read o) (hset : ∀ key, item ≠ .call (.setAuthKey key)) :
    { s with authKey := authKey }.handle pf m item = withKey authKey (s.handle pf m item) := by
  cases item with
  | call c =>
    cases c with
    | start =>
      exact onStart_withKey authKey
    | stop =>
      rw [RelaySession.handle, RelaySession.handle, RelaySession.onStop, RelaySession.onStop]
      dsimp only
      split <;> rfl
    | setAuthKey key => exact absurd rfl (hset key)
  | completion op o =>
    cases op with
    | read => exact absurd rfl (hread o)
    | resolve host port =>
      rw [RelaySession.handle, RelaySession.handle, RelaySession.onResolve, RelaySession.onResolve]
      split
      · exact markError_withKey _ _ _
      · rfl
    | connect =>
      rw [RelaySession.handle, RelaySession.handle, RelaySession.onConnect, RelaySession.onConnect]
      split
      · exact markError_withKey _ _ _
      · split
        · rw [markError_withKey]
          rfl
        · rfl
    | tlsHandshake =>
      rw [RelaySession.handle, RelaySession.handle, RelaySession.onTlsHandshake,
        RelaySession.onTlsHandshake]
      split
      · exact markError_withKey _ _ _
      · rfl
    | wsHandshake host target =>
      rw [RelaySession.handle, RelaySession.handle, RelaySession.onWsHandshake,
        RelaySession.onWsHandshake]
      split
      · exact markError_withKey _ _ _
      · dsimp only
        split <;> rfl
    | writeReq message =>
      rw [RelaySession.handle, RelaySession.handle, RelaySession.onWriteReq, RelaySession.onWriteReq]
      split
      · exact markError_withKey _ _ _
      · rfl
    | reconnectWait delayMs =>
      rw [RelaySession.handle, RelaySession.handle, RelaySession.onReconnectTimer,
        RelaySession.onReconnectTimer]
      split <;> rfl
    | writeAuth message =>
      rw [RelaySession.handle, RelaySession.handle, RelaySession.onWriteAuth, RelaySession.onWriteAuth]
      split <;> rfl
    | close => rfl
    | fetchNips parsedRelay =>
      rw [RelaySession.handle, RelaySession.handle, RelaySession.onSupportedNips,
        RelaySession.onSupportedNips]
      split <;> rfl

/-- The challenge of a payload is text. -/
theorem isUtf8_of_challenge (hutf8 : ParsesUtf8 pf) {payload challenge : Str}
    (h : parseRelayMessageEffect pf payload = .authChallenge challenge) : IsUtf8 challenge := by
  have hclassified := parseRelayMessageEffect_classified pf payload
  rw [h] at hclassified
  cases hclassified with
  | authChallenge _ hauth => exact isUtf8_authChallenge hutf8 hauth

/-- A throwing handler is one in both sessions. -/
theorem throws_mem_blind {effects effects' : List Effect}
    (h : List.Forall₂ (keyBlind pf).effect effects effects') :
    Effect.throws ∈ effects ↔ Effect.throws ∈ effects' := by
  induction h with
  | nil => exact Iff.rfl
  | cons heffect _ ih =>
    rw [List.mem_cons, List.mem_cons, ih]
    rcases heffect with rfl | ⟨message, message', rfl, rfl⟩
    · exact Iff.rfl
    · simp

section Blind
variable (hjson : ParseInvertsDump pf) (hutf8 : ParsesUtf8 pf) (hsigns : SignsAlike pf)
include hjson hutf8 hsigns

theorem handleMessage_blind (hclock : -2 ^ 63 ≤ m.unixSeconds ∧ m.unixSeconds < 2 ^ 63)
    (hurl : IsUtf8 s.relayUrl) (payload : Str) {authKey : Option AuthKey}
    (hkeys : KeysAlike pf s.authKey authKey) :
    List.Forall₂ (keyBlind pf).effect (s.handleMessage pf m payload)
      ({ s with authKey := authKey }.handleMessage pf m payload) := by
  rw [RelaySession.handleMessage, RelaySession.handleMessage]
  cases heffect : parseRelayMessageEffect pf payload with
  | authChallenge challenge =>
    have hchallenge : IsUtf8 challenge := isUtf8_of_challenge hutf8 heffect
    exact onAuthChallenge_blind hjson hsigns hclock hurl hchallenge hkeys
  | eventCount | endOfStoredEvents | ignore => exact sameEffects _

theorem onRead_blind (hclock : -2 ^ 63 ≤ m.unixSeconds ∧ m.unixSeconds < 2 ^ 63)
    (hurl : IsUtf8 s.relayUrl) (o : Outcome) {authKey : Option AuthKey}
    (hkeys : KeysAlike pf s.authKey authKey) :
    (∃ authKey', KeysAlike pf (s.onRead pf m o).1.authKey authKey' ∧
      ({ s with authKey := authKey }.onRead pf m o).1 = { (s.onRead pf m o).1 with authKey := authKey' }) ∧
    List.Forall₂ (keyBlind pf).effect (s.onRead pf m o).2 ({ s with authKey := authKey }.onRead pf m o).2 := by
  rw [RelaySession.onRead, RelaySession.onRead]
  cases o.ec with
  | some ec =>
    dsimp only
    rw [markError_withKey (lit "read") ec authKey]
    obtain ⟨n, hn⟩ := @RelaySession.markError_fst pf m s (lit "read") ec
    refine ⟨⟨authKey, ?_, rfl⟩, sameEffects _⟩
    rw [hn]
    exact hkeys
  | none =>
    have hmessage := @handleMessage_blind pf m { s with readBuffer := [] } hjson hutf8 hsigns hclock hurl
      s.readBuffer authKey hkeys
    have hthrows := throws_mem_blind hmessage
    dsimp only
    by_cases hlast : s.stopped ∨ Effect.throws ∈
        ({ s with readBuffer := [] } : RelaySession).handleMessage pf m s.readBuffer
    · rw [if_pos hlast, if_pos (hlast.imp id hthrows.mp)]
      exact ⟨⟨authKey, hkeys, rfl⟩, hmessage⟩
    · rw [if_neg hlast, if_neg fun h => hlast (h.imp id hthrows.mpr)]
      exact ⟨⟨authKey, hkeys, rfl⟩, List.rel_append hmessage (sameEffects _)⟩

/-- **What is hidden decides nothing** in a session. -/
theorem keyBlind_respects :
    (keyBlind pf).Respects (fun m : Moment => -2 ^ 63 ≤ m.unixSeconds ∧ m.unixSeconds < 2 ^ 63)
      (sessionBehaviour pf) where
  handle := by
    rintro m s _ item item' hclock ⟨hurl, authKey, hkeys, rfl⟩ hitem
    have hutf8' : IsUtf8 ((sessionBehaviour pf).handle m s item).1.relayUrl :=
      (s.handle_members pf m item).relayUrl.symm ▸ hurl
    -- a handler that does not look at the key does the same in both
    have hother : (∀ o, item ≠ .completion .read o) → (∀ key, item ≠ .call (.setAuthKey key)) →
        (keyBlind pf).data ((sessionBehaviour pf).handle m s item).1
            ((sessionBehaviour pf).handle m { s with authKey := authKey } item).1 ∧
          List.Forall₂ (keyBlind pf).effect ((sessionBehaviour pf).handle m s item).2
            ((sessionBehaviour pf).handle m { s with authKey := authKey } item).2 := by
      intro hread hset
      have hwith : (sessionBehaviour pf).handle m { s with authKey := authKey } item =
          withKey authKey ((sessionBehaviour pf).handle m s item) :=
        handle_withKey authKey hread hset
      rw [hwith]
      refine ⟨⟨hutf8', authKey, ?_, rfl⟩, sameEffects _⟩
      have hkey := (s.handle_members pf m item).authKey
      cases item with
      | call c =>
        cases c with
        | setAuthKey key => exact absurd rfl (hset key)
        | _ => exact hkey.symm ▸ hkeys
      | completion op o => exact hkey.symm ▸ hkeys
    cases hitem with
    | call hcall =>
      rcases hcall with rfl | ⟨key, key', hpair, rfl, rfl⟩
      · rename_i c
        cases c with
        | setAuthKey key => exact ⟨⟨hurl, key, keysAlike_refl key, rfl⟩, .nil⟩
        | _ => exact hother nofun nofun
      · exact ⟨⟨hurl, key', hpair, rfl⟩, .nil⟩
    | completion o hop =>
      rcases hop with rfl | ⟨message, message', rfl, rfl⟩
      · rename_i op
        by_cases hread : op = .read
        · subst hread
          obtain ⟨⟨authKey', hkeys', hdata⟩, heffects⟩ :=
            onRead_blind hjson hutf8 hsigns hclock hurl o hkeys
          exact ⟨⟨hutf8', authKey', hkeys', hdata⟩, heffects⟩
        · exact hother (fun o' h => hread (Item.completion.inj h).1) nofun
      · exact hother nofun nofun
  starts := by
    rintro effect _ (rfl | ⟨message, message', rfl, rfl⟩)
    · cases (sessionBehaviour pf).starts effect with
      | none => exact .none
      | some op => exact .some (Or.inl rfl)
    · exact .some (Or.inr ⟨message, message', rfl, rfl⟩)
  cancels := by
    rintro effect _ op _ (rfl | ⟨message, message', rfl, rfl⟩) hop
    · rcases hop with rfl | ⟨message, message', rfl, rfl⟩
      · rfl
      · cases effect <;> rfl
    · rfl
  deliver := by
    rintro s _ op _ o ⟨hurl, authKey, hkeys, rfl⟩ (rfl | ⟨message, message', rfl, rfl⟩)
    · refine ⟨(s.deliver_target op o).1.symm ▸ hurl, authKey, ?_, ?_⟩
      · exact (s.deliver_target op o).2.2.1.symm ▸ hkeys
      · cases op <;> rfl
    · exact ⟨hurl, authKey, hkeys, rfl⟩
  direct := by
    rintro s _ op _ o ⟨hurl, authKey, hkeys, rfl⟩ (rfl | ⟨message, message', rfl, rfl⟩)
    · have hsame : { s with authKey := authKey }.direct pf op o = s.direct pf op o := by
        cases op <;> rfl
      change Option.Rel _ (s.direct pf op o) ({ s with authKey := authKey }.direct pf op o)
      rw [hsame]
      cases s.direct pf op o with
      | none => exact .none
      | some effects => exact .some (sameEffects effects)
    · exact .none

end Blind

end Monitostr.Net
