import Monitostr.Net.SessionManager
import Monitostr.Utils.SamplePlatform

/-! # TLS handshakes and the streams they are made on

`ws_` is made with the session and contains the TLS stream. The reset before a reconnect shuts the stream
down and closes the socket, but makes no new stream, so every reconnect that gets as far as the TLS
handshake makes it on the stream that has been used.
-/

namespace Monitostr.Net
open Foundations Foundations.Behaviour SessionManager
set_option autoImplicit false

variable {pf : Platform} {m : Moment} {s : RelaySession}

/-- The handler of this item has connected, with the host name set for TLS. -/
def connectSucceeds : Item SessionCall AsyncOp Outcome → Bool
  | .completion .connect o => o.ec.isNone && o.sniError.isNone
  | _ => false

structure HandshakeLog where
  /-- The streams on which a TLS handshake has been started. -/
  streams : List ℕ := []
  /-- How many connects have succeeded. -/
  connects : ℕ := 0

def HandshakeLog.note (log : HandshakeLog) (o : SessionObject) (e : SessionEvent)
    (result : SessionObject × List Effect) : HandshakeLog where
  streams := log.streams ++
    ((result.2.filterMap Effect.starts).filter (· = .tlsHandshake)).map fun _ => result.1.data.ws
  connects := log.connects + ((handledItem o e).any connectSucceeds).toNat

/-- A TLS handshake is started on a stream on which none has been started. -/
def HandshakesFresh (pf : Platform) (p : SessionObject × HandshakeLog) (e : SessionEvent) : Prop :=
  ∀ o' effects, (sessionBehaviour pf).react p.1 e = some (o', effects) →
    Effect.start .tlsHandshake ∈ effects → o'.data.ws ∉ p.2.streams

/-- A successful connect is the first one. -/
def ConnectsOnce (p : SessionObject × HandshakeLog) (e : SessionEvent) : Prop :=
  (handledItem p.1 e).any connectSucceeds = true → p.2.connects = 0

theorem RelaySession.handle_tlsHandshake (pf : Platform) (m : Moment) (s : RelaySession)
    (item : Item SessionCall AsyncOp Outcome) :
    Effect.start .tlsHandshake ∈ (s.handle pf m item).2 ↔ connectSucceeds item = true := by
  constructor
  · intro h
    cases handle_successor h with
    | tlsHandshake o hec hsni =>
      rw [connectSucceeds, hec, hsni]
      rfl
  · intro h
    cases item with
    | call c => cases h
    | completion op o =>
      cases op with
      | connect =>
        rw [connectSucceeds, Bool.and_eq_true, Option.isNone_iff_eq_none, Option.isNone_iff_eq_none] at h
        simp [handle, onConnect, h.1, h.2]
      | _ => cases h

theorem react_tlsHandshake {o o' : SessionObject} {e : SessionEvent} {effects : List Effect}
    (h : (sessionBehaviour pf).react o e = some (o', effects)) :
    Effect.start .tlsHandshake ∈ effects ↔ (handledItem o e).any connectSucceeds = true := by
  cases hitem : handledItem o e with
  | none =>
    refine iff_of_false (fun hmem => ?_) Bool.false_ne_true
    rw [mem_starts, (react_without_handler hitem h).1] at hmem
    cases hmem
  | some item =>
    obtain ⟨m, rest, -, -, rfl, -, -⟩ := react_handler hitem h
    exact o.data.handle_tlsHandshake pf m item

theorem react_ws {o o' : SessionObject} {e : SessionEvent} {effects : List Effect}
    (h : (sessionBehaviour pf).react o e = some (o', effects)) : o'.data.ws = o.data.ws :=
  react_keeps RelaySession.ws (fun m s item => (s.handle_members pf m item).ws)
    (fun s op o => by cases op <;> rfl) h

/-- The streams of the record are the stream the session has, and there is one once a connect has
succeeded. -/
structure OneStream (p : SessionObject × HandshakeLog) : Prop where
  same : ∀ stream ∈ p.2.streams, stream = p.1.data.ws
  used : p.2.streams = [] ↔ p.2.connects = 0

theorem OneStream.step {p q : SessionObject × HandshakeLog} {e : SessionEvent} (hp : OneStream p)
    (h : watched (sessionBehaviour pf).react HandshakeLog.note p e = some q) : OneStream q := by
  obtain ⟨effects, hreact, hnote⟩ := watched_eq_some.mp h
  have hmem := react_tlsHandshake hreact
  rw [mem_starts] at hmem
  constructor
  · intro stream hstream
    rw [hnote, HandshakeLog.note, List.mem_append] at hstream
    rcases hstream with hstream | hstream
    · rw [hp.same stream hstream, react_ws hreact]
    · obtain ⟨_, -, rfl⟩ := List.mem_map.mp hstream
      rfl
  · have hnone : (effects.filterMap Effect.starts).filter (· = .tlsHandshake) = [] ↔
        ((handledItem p.1 e).any connectSucceeds).toNat = 0 := by
      rw [Bool.toNat_eq_zero, ← Bool.not_eq_true, ← hmem, List.filter_eq_nil_iff]
      constructor
      · exact fun hall hin => hall _ hin (decide_eq_true rfl)
      · exact fun hnot op hop heq => hnot (of_decide_eq_true heq ▸ hop)
    rw [hnote, HandshakeLog.note]
    dsimp only
    rw [List.append_eq_nil_iff, List.map_eq_nil_iff, hp.used, hnone, Nat.add_eq_zero_iff]

theorem handshakesFresh_iff {p q : SessionObject × HandshakeLog} {e : SessionEvent} (hp : OneStream p)
    (h : watched (sessionBehaviour pf).react HandshakeLog.note p e = some q) :
    HandshakesFresh pf p e ↔ ConnectsOnce p e := by
  obtain ⟨effects, hreact, -⟩ := watched_eq_some.mp h
  have hfresh : p.1.data.ws ∉ p.2.streams ↔ p.2.connects = 0 := by
    rw [← hp.used]
    constructor
    · intro hnot
      refine List.eq_nil_iff_forall_not_mem.mpr fun stream hstream => hnot ?_
      rwa [hp.same stream hstream] at hstream
    · intro hnil
      rw [hnil]
      exact List.not_mem_nil
  constructor
  · intro hhandshakes hsucceeds
    have hnot := hhandshakes q.1 effects hreact ((react_tlsHandshake hreact).mpr hsucceeds)
    rw [react_ws hreact] at hnot
    exact hfresh.mp hnot
  · intro hconnects o' effects' hreact' hmem
    rw [react_ws hreact', hfresh]
    exact hconnects ((react_tlsHandshake hreact').mp hmem)

/-- **TLS handshakes on fresh streams**: in every run of a session, every TLS handshake is started on a
stream on which none has been started before exactly when no connect but the first succeeds. -/
theorem handshakes_fresh_iff (pf : Platform) (relayUrl hexPubkey : Str) (es : List SessionEvent) :
    Along (watched (sessionBehaviour pf).react HandshakeLog.note) (HandshakesFresh pf)
        ({ data := RelaySession.create relayUrl hexPubkey }, {}) es ↔
      Along (watched (sessionBehaviour pf).react HandshakeLog.note) ConnectsOnce
        ({ data := RelaySession.create relayUrl hexPubkey }, {}) es :=
  along_congr (I := OneStream) (K := fun _ _ => True) (fun _ _ _ hp _ h => hp.step h)
    (fun _ _ _ hp _ h => handshakesFresh_iff hp h)
    ⟨fun _ hstream => absurd hstream List.not_mem_nil, iff_of_true rfl rfl⟩
    (along_of_forall fun _ _ _ => trivial)

/-- A read fails in a subscribed session, and its reconnect connects. -/
def reconnectedAfterRead : List SessionEvent :=
  [.call .start, .run {}, .finish 0 {}, .run {}, .finish 0 {}, .run {}, .finish 0 {}, .run {},
    .finish 0 {}, .run {}, .finish 1 {}, .run {}, .finish 1 { ec := some (lit "End of file") },
    .run {}, .finish 1 {}, .run {}, .finish 1 {}, .run {}, .finish 1 {}]

/-- The TLS handshake of the reconnect is started on the stream of the first one. -/
theorem reconnect_reuses_stream :
    ¬ Along (watched (sessionBehaviour samplePlatform).react HandshakeLog.note)
      (HandshakesFresh samplePlatform)
      ({ data := RelaySession.create sampleRelay (lit "00") }, {})
      (reconnectedAfterRead ++ [.run {}]) := by
  intro h
  have hlast : (run (watched (sessionBehaviour samplePlatform).react HandshakeLog.note)
      ({ data := RelaySession.create sampleRelay (lit "00") }, {}) reconnectedAfterRead).bind
        (fun p => ((sessionBehaviour samplePlatform).react p.1 (.run {})).map fun result =>
          (p.2.streams, result.1.data.ws, decide (Effect.start .tlsHandshake ∈ result.2))) =
      some ([0], 0, true) := by
    decide +kernel
  obtain ⟨p, ⟨o', effects⟩, hreact, hguard, htriple⟩ := h.last_watched hlast
  obtain ⟨hlog, hpair⟩ := Prod.mk.inj htriple
  obtain ⟨hws, hmem⟩ := Prod.mk.inj hpair
  have hfresh := hguard o' effects hreact (of_decide_eq_true hmem)
  dsimp only at hws
  rw [hlog, hws] at hfresh
  exact hfresh List.mem_cons_self

end Monitostr.Net
