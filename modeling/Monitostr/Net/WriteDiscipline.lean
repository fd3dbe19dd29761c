import Monitostr.Net.SessionSteps
import Monitostr.Utils.SamplePlatform

/-! # Writes on the websocket

The REQ is written after the websocket handshake and an AUTH message after every challenge, and the
read loop goes on without waiting for either. A write is started while another one is outstanding
exactly when a challenge is answered, or a handshake completes, before that one's handler has run.
-/

namespace Monitostr.Net
open Foundations Foundations.Behaviour Model Nostr
set_option autoImplicit false

def AsyncOp.isWrite : AsyncOp → Bool
  | .writeReq _ | .writeAuth _ => true
  | _ => false

/-- The AUTH message that answers a challenge, if there is a key and signing succeeds. -/
def authReply (pf : Platform) (m : Moment) (s : RelaySession) (challenge : Str) : Option Str := do
  let authKey ← s.authKey
  let eventJson ← buildAuthEvent pf m s.relayUrl challenge authKey.privkeyBytes
  if eventJson.isEmpty then none
  else
    let parsedEvent ← pf.parseJson eventJson
    pf.dumpJson (.array [.string (lit "AUTH"), parsedEvent])

/-- The items whose handlers write: a completed websocket handshake, and a challenge that is
answered. -/
def startsWrite (pf : Platform) (m : Moment) (s : RelaySession) :
    Item SessionCall AsyncOp Outcome → Bool
  | .completion (.wsHandshake _ _) o => o.ec.isNone && (buildMonitorReqMessage pf s.hexPubkey).isSome
  | .completion .read o => o.ec.isNone &&
    match parseRelayMessageEffect pf s.readBuffer with
    | .authChallenge challenge => (authReply pf m s challenge).isSome
    | _ => false
  | _ => false

variable {pf : Platform} {m : Moment} {s : RelaySession}

def writeCount (effects : List Effect) : ℕ := (effects.filterMap Effect.starts).countP AsyncOp.isWrite

theorem writeCount_cons (effect : Effect) (effects : List Effect) :
    writeCount (effect :: effects) = writeCount [effect] + writeCount effects := by
  rw [writeCount, writeCount, writeCount, ← List.singleton_append, List.filterMap_append,
    List.countP_append]

theorem writeCount_append (xs ys : List Effect) :
    writeCount (xs ++ ys) = writeCount xs + writeCount ys := by
  rw [writeCount, List.filterMap_append, List.countP_append]
  rfl

theorem writeCount_eq_zero {effects : List Effect}
    (h : ∀ effect ∈ effects, ∀ op, effect.starts = some op → op.isWrite = false) :
    writeCount effects = 0 := by
  rw [writeCount, List.countP_eq_zero]
  intro op hop
  obtain ⟨effect, heff, hst⟩ := List.mem_filterMap.mp hop
  rw [h effect heff op hst]
  exact Bool.false_ne_true

theorem markError_writeCount (where_ ec : Str) : writeCount (s.markError pf m where_ ec).2 = 0 := by
  refine writeCount_eq_zero fun effect h op hop => ?_
  rcases RelaySession.mem_markError h with rfl | ⟨_, _, rfl⟩ | rfl | ⟨_, rfl⟩
  · cases hop
  · cases hop
  · cases hop
  · obtain rfl := Option.some.inj hop
    rfl

theorem onAuthChallenge_writeCount (challenge : Str) :
    writeCount (s.onAuthChallenge pf m challenge) = (authReply pf m s challenge).isSome.toNat := by
  rw [RelaySession.onAuthChallenge, authReply]
  cases hkey : s.authKey with
  | none => rfl
  | some authKey =>
    simp only [Option.bind_eq_bind, Option.bind_some]
    cases hevent : buildAuthEvent pf m s.relayUrl challenge authKey.privkeyBytes with
    | none => rfl
    | some eventJson =>
      simp only [Option.bind_some]
      by_cases hempty : eventJson.isEmpty = true
      · rw [if_pos hempty, if_pos hempty]
        rfl
      · rw [if_neg hempty, if_neg hempty]
        cases hparse : pf.parseJson eventJson with
        | none => rfl
        | some parsedEvent =>
          simp only [Option.bind_some]
          cases hdump : pf.dumpJson (.array [.string (lit "AUTH"), parsedEvent]) with
          | none => rfl
          | some message => rfl

theorem handleMessage_writeCount (payload : Str) :
    writeCount (s.handleMessage pf m payload) =
      (match parseRelayMessageEffect pf payload with
        | .authChallenge challenge => (authReply pf m s challenge).isSome
        | _ => false).toNat := by
  rw [RelaySession.handleMessage]
  cases heff : parseRelayMessageEffect pf payload with
  | authChallenge challenge => exact onAuthChallenge_writeCount challenge
  | eventCount => rfl
  | endOfStoredEvents => rfl
  | ignore => rfl

theorem handle_writeCount (item : Item SessionCall AsyncOp Outcome) :
    writeCount (s.handle pf m item).2 = (startsWrite pf m s item).toNat := by
  have h : RelaySession.Turn pf m s item (s.handle pf m item) := RelaySession.handle_turn item
  generalize s.handle pf m item = result at h ⊢
  cases h with
  | fail op o ec hop hec =>
    rw [markError_writeCount]
    cases op <;> simp [startsWrite, hec]
  | failSni => rw [writeCount_cons, markError_writeCount]; rfl
  | subscribed host target o text last hec hlast =>
    rw [startsWrite, hec, hlast]
    cases hreq : buildMonitorReqMessage pf s.hexPubkey with
    | none => rfl
    | some req => rfl
  | read o next hec hnext =>
    have hread : writeCount next = 0 := by
      rw [hnext]
      split <;> rfl
    rw [writeCount_append, hread, handleMessage_writeCount, startsWrite, hec, Option.isNone_none,
      Bool.true_and]
    rfl
  | _ => rfl

/-! ## At most one write -/

def writesOutstanding (o : SessionObject) : ℕ := outstanding AsyncOp.isWrite o

def WritesAlone (pf : Platform) (o : SessionObject) (e : SessionEvent) : Prop :=
  ∀ m item rest, e = .run m → o.queue = item :: rest → startsWrite pf m o.data item = true →
    writesOutstanding o = 0

theorem isCompletionOf_not_startsWrite {item : Item SessionCall AsyncOp Outcome}
    (h : startsWrite pf m s item = true) : isCompletionOf AsyncOp.isWrite item = false := by
  cases item with
  | call c => cases h
  | completion op o => cases op <;> first | rfl | cases h

theorem writesAlone_run {o : SessionObject} {item : Item SessionCall AsyncOp Outcome}
    {rest : List (Item SessionCall AsyncOp Outcome)} (hq : o.queue = item :: rest) :
    WritesAlone pf o (.run m) ↔ (startsWrite pf m o.data item = true → writesOutstanding o = 0) := by
  constructor
  · exact fun hg => hg m item rest rfl hq
  · rintro hg m' item' rest' he hq'
    obtain rfl := StrandEvent.run.inj he
    obtain ⟨rfl, -⟩ := List.cons.inj (hq.symm.trans hq')
    exact hg

theorem step_writesOutstanding {o o' : SessionObject} {e : SessionEvent}
    (hp : writesOutstanding o ≤ 1) (h : (sessionBehaviour pf).step o e = some o') :
    writesOutstanding o' ≤ 1 ↔ WritesAlone pf o e := by
  obtain ⟨effects, hreact⟩ := step_eq_some.mp h
  unfold writesOutstanding at hp ⊢
  cases e with
  | call handler =>
    refine iff_of_true ?_ fun m item rest he _ => ?_
    · rwa [outstanding_call _ hreact]
    · cases he
  | finish i outcome =>
    refine iff_of_true ?_ fun m item rest he _ => ?_
    · have hcount := outstanding_finish AsyncOp.isWrite hreact
      have hstarts : startCount AsyncOp.isWrite (sessionBehaviour pf) effects = 0 := by
        obtain ⟨p, -, ⟨-, rfl, -⟩ | ⟨hd, -⟩⟩ := react_finish hreact
        · rfl
        · refine writeCount_eq_zero fun effect heff op hop => ?_
          rw [(RelaySession.direct_writesTo hd effect heff).2] at hop
          cases hop
      omega
    · cases he
  | run m =>
    obtain ⟨item, rest, hq, -, -⟩ := react_run hreact
    have hcount := outstanding_run AsyncOp.isWrite hq hreact
    have hstarts : startCount AsyncOp.isWrite (sessionBehaviour pf)
        ((sessionBehaviour pf).handle m o.data item).2 = (startsWrite pf m o.data item).toNat :=
      handle_writeCount item
    rw [hstarts] at hcount
    rw [writesAlone_run hq]
    unfold writesOutstanding
    cases hw : startsWrite pf m o.data item with
    | true =>
      rw [hw, isCompletionOf_not_startsWrite hw, Bool.toNat_false, Bool.toNat_true] at hcount
      simp only [true_implies]
      omega
    | false =>
      rw [hw, Bool.toNat_false] at hcount
      simp only [Bool.false_eq_true, false_implies, iff_true]
      omega

/-- **One write at a time**: in a run of a session at most one write is outstanding at any time exactly
when no step of the run starts a write while one is outstanding. -/
theorem one_write_iff (pf : Platform) (s : RelaySession) (es : List SessionEvent) :
    Throughout (sessionBehaviour pf).step (fun o => writesOutstanding o ≤ 1) { data := s } es ↔
      Along (sessionBehaviour pf).step (WritesAlone pf) { data := s } es :=
  throughout_iff_along (I := fun _ => True) (fun _ _ _ _ _ => trivial)
    (fun _ _ _ _ hp h => step_writesOutstanding hp h) trivial (Nat.zero_le 1)

def sampleKey : Option AuthKey :=
  AuthKey.fromHexPrivkey samplePlatform (Nip19.bytesToHex (samplePrivkey 1).1)

/-- A session is subscribed, and its relay sends one challenge in two consecutive messages. -/
def twoChallenges : List SessionEvent :=
  [.call (.setAuthKey sampleKey), .call .start, .run {}, .run {}, .finish 0 {}, .run {},
    .finish 0 {}, .run {}, .finish 0 {}, .run {}, .finish 0 {}, .run {}, .finish 1 {}, .run {},
    .finish 1 { payload := sampleChallenge }, .run {}, .finish 2 { payload := sampleChallenge },
    .run {}]

/-- The second AUTH message is written while the first one is outstanding. -/
theorem two_challenges_overlap :
    ¬ Throughout (sessionBehaviour samplePlatform).step (fun o => writesOutstanding o ≤ 1)
      { data := RelaySession.create sampleRelay (lit "00") } twoChallenges := by
  intro h
  have htwo : (run (sessionBehaviour samplePlatform).step
      { data := RelaySession.create sampleRelay (lit "00") } twoChallenges).map writesOutstanding =
        some 2 := by
    decide +kernel
  obtain ⟨o, hrun, hcount⟩ := Option.map_eq_some_iff.mp htwo
  have hle := h.at_end hrun
  omega

end Monitostr.Net
