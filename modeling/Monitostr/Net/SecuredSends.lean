import Monitostr.Net.Lifecycle

/-! # Nothing is sent before TLS

The websocket handshake, the REQ, the AUTH reply and the reads are started on a connection whose TLS
handshake has completed: since the last TCP connect was started, a TLS handshake has been handled that
succeeded.
-/

namespace Monitostr.Net
open Foundations Foundations.Behaviour
set_option autoImplicit false

variable {pf : Platform} {m : Moment} {s : RelaySession}

/-- The operations that exchange data with the relay. -/
def AsyncOp.exchanges : AsyncOp → Bool
  | .wsHandshake _ _ | .writeReq _ | .read | .writeAuth _ => true
  | .resolve _ _ | .connect | .tlsHandshake | .reconnectWait _ | .close | .fetchNips _ => false

def completesTls : Item SessionCall AsyncOp Outcome → Bool
  | .completion .tlsHandshake o => o.ec.isNone
  | _ => false

/-- Whether a TLS handshake has succeeded since the last connect was started. -/
def noteSecured (secured : Bool) (o : SessionObject) (e : SessionEvent)
    (result : SessionObject × List Effect) : Bool :=
  if Effect.start .connect ∈ result.2 then false
  else secured || (handledItem o e).any completesTls

variable (pf) in
/-- What an event starts that exchanges data is started on a secured connection. -/
def SendsSecured (p : SessionObject × Bool) (e : SessionEvent) : Prop :=
  ∀ o' effects, (sessionBehaviour pf).react p.1 e = some (o', effects) →
    ∀ op, Effect.start op ∈ effects → op.exchanges = true → noteSecured p.2 p.1 e (o', effects) = true

/-- A session past its TLS handshake is on a secured connection. -/
structure PastTls (p : SessionObject × Bool) : Prop where
  once : StartedOnce p.1
  secured : ∀ op ∈ outstandingOps AsyncOp.inSequence p.1, op.exchanges = true → p.2 = true

theorem connect_of_successor {item : Item SessionCall AsyncOp Outcome}
    (h : RelaySession.Successor s item .connect) :
    ∃ host port o, item = .completion (.resolve host port) o := by
  cases h with
  | connect host port o hec => exact ⟨host, port, o, rfl⟩

/-- What exchanges data follows a TLS handshake that succeeded, or something that exchanges data. -/
theorem exchanges_of_successor {item : Item SessionCall AsyncOp Outcome} {op : AsyncOp}
    (h : RelaySession.Successor s item op) (hop : op.exchanges = true) :
    completesTls item = true ∨ ∃ before o, item = .completion before o ∧ before.exchanges = true ∧
      before.inSequence = true := by
  cases h with
  | wsHandshake o hec => exact Or.inl (by rw [completesTls, hec]; rfl)
  | writeReq host target message o => exact Or.inr ⟨_, o, rfl, rfl, rfl⟩
  | firstRead message o => exact Or.inr ⟨_, o, rfl, rfl, rfl⟩
  | nextRead o => exact Or.inr ⟨_, o, rfl, rfl, rfl⟩
  | writeAuth o message => exact Or.inr ⟨_, o, rfl, rfl, rfl⟩
  | _ => cases hop

/-- An event that handles no item starts nothing. -/
theorem started_handled {o o' : SessionObject} {e : SessionEvent} {effects : List Effect} {op : AsyncOp}
    (h : (sessionBehaviour pf).react o e = some (o', effects)) (hop : Effect.start op ∈ effects) :
    ∃ item, handledItem o e = some item ∧ RelaySession.Successor o.data item op := by
  cases hitem : handledItem o e with
  | none =>
    have hnone := (react_without_handler hitem h).1
    rw [mem_starts, hnone] at hop
    cases hop
  | some item =>
    obtain ⟨m, rest, -, -, rfl, -, -⟩ := react_handler hitem h
    exact ⟨item, rfl, RelaySession.handle_successor hop⟩

theorem mem_outstandingOps_of_handled {o : SessionObject} {e : SessionEvent} {op : AsyncOp} {outcome : Outcome}
    (h : handledItem o e = some (.completion op outcome)) (hop : op.inSequence = true) :
    op ∈ outstandingOps AsyncOp.inSequence o := by
  cases e with
  | run m =>
    have hmem : Item.completion op outcome ∈ o.queue := List.mem_of_mem_head? h
    refine List.mem_filter.mpr ⟨List.mem_append_left _ ?_, hop⟩
    exact List.mem_filterMap.mpr ⟨_, hmem, rfl⟩
  | _ => cases h

theorem PastTls.sendsSecured {p : SessionObject × Bool} (hp : PastTls p) (e : SessionEvent) :
    SendsSecured pf p e := by
  intro o' effects hreact op hop hexchanges
  obtain ⟨item, hitem, hsucc⟩ := started_handled hreact hop
  have hcases := exchanges_of_successor hsucc hexchanges
  have hconnect : Effect.start .connect ∉ effects := by
    intro hmem
    obtain ⟨item', hitem', hsucc'⟩ := started_handled hreact hmem
    obtain rfl := Option.some.inj (hitem.symm.trans hitem')
    obtain ⟨host, port, o, rfl⟩ := connect_of_successor hsucc'
    rcases hcases with htls | ⟨before, o, hbefore, hdata, -⟩
    · cases htls
    · obtain ⟨rfl, rfl⟩ := Item.completion.inj hbefore
      cases hdata
  rw [noteSecured, if_neg hconnect, Bool.or_eq_true, hitem]
  rcases hcases with htls | ⟨before, o, rfl, hdata, hseq⟩
  · exact Or.inr htls
  · exact Or.inl (hp.secured before (mem_outstandingOps_of_handled hitem hseq) hdata)

theorem PastTls.step {p q : SessionObject × Bool} {e : SessionEvent} (hp : PastTls p)
    (he : isCallEvent SessionCall.begins e = false)
    (h : watched (sessionBehaviour pf).react noteSecured p e = some q) : PastTls q := by
  obtain ⟨effects, hreact, hnote⟩ := watched_eq_some.mp h
  have honce : StartedOnce q.1 := hp.once.react he hreact
  refine ⟨honce, fun op hop hexchanges => ?_⟩
  rw [hnote]
  rcases (mem_outstandingOps_react hreact).1 hop with hbefore | hstarted
  · -- an operation that stays is the only one of the chain, so no connect is started beside it
    have hconnect : Effect.start .connect ∉ effects := by
      intro hmem
      have hother : AsyncOp.connect ∈ outstandingOps AsyncOp.inSequence q.1 :=
        (mem_outstandingOps_react hreact).2 (mem_starts.mp hmem) rfl
      obtain rfl : op = .connect := outstandingOps_unique honce.single hop hother
      cases hexchanges
    rw [noteSecured, if_neg hconnect, hp.secured op hbefore hexchanges]
    rfl
  · exact hp.sendsSecured e q.1 effects hreact op (mem_starts.mpr hstarted) hexchanges

/-- **Nothing is sent before TLS.** In every run of a session that is started once, in every order of
completions and calls, every websocket handshake, REQ, AUTH reply and read is started after a TLS handshake
that has succeeded since the last connect. -/
theorem sends_secured (pf : Platform) (relayUrl hexPubkey : Str) (authKey : Option Nostr.AuthKey)
    (es : List SessionEvent) (hes : ∀ e ∈ es, isCallEvent SessionCall.begins e = false) :
    Along (watched (sessionBehaviour pf).react noteSecured) (SendsSecured pf)
      (SessionManager.startedSession hexPubkey authKey relayUrl, false) es := by
  refine along_keeps (I := PastTls) (G := fun _ e => isCallEvent SessionCall.begins e = false) ?_ ?_
    (along_of_forall fun e he _ => hes e he)
  · exact fun p e q hp he h => ⟨hp.step he h, hp.sendsSecured e⟩
  · refine ⟨⟨.waiting [authKey] [] (by simp [NoStart]), Nat.le_refl 1⟩, fun op hop => ?_⟩
    cases hop

theorem sends_secured_subscribing :
    Along (watched (sessionBehaviour samplePlatform).react noteSecured) (SendsSecured samplePlatform)
      (SessionManager.startedSession (lit "00") none sampleRelay, false)
      [.run {}, .run {}, .finish 0 {}, .run {}, .finish 0 {}, .run {}, .finish 0 {}, .run {},
        .finish 0 {}, .run {}] :=
  sends_secured samplePlatform sampleRelay (lit "00") none _ (by decide)

end Monitostr.Net
