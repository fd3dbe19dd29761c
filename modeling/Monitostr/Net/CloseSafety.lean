import Monitostr.Net.ReconnectPolicy
import Monitostr.Utils.SamplePlatform

/-! # When `Stop` closes the websocket

`Stop` starts a close handshake when `ws_connected_` is set. The flag is set by a completed websocket
handshake and cleared by `Stop` and by the reset of the transport, which a reconnect makes when its wait
is over. `MarkError` leaves it set, so in the back-off after a failed read or REQ write it says that a
websocket is connected which has failed.
-/

namespace Monitostr.Net
open Foundations Foundations.Behaviour SessionManager
set_option autoImplicit false

variable {pf : Platform} {m : Moment} {s : RelaySession}

/-! ## The transport -/

/-- What has become of the current transport: its websocket handshake is not complete, or is, or an
error has been reported since. -/
inductive Transport
  | down
  | up
  | failed
  deriving DecidableEq

/-- What `MarkError` is called with by the handler of an item. -/
def markedError : Item SessionCall AsyncOp Outcome → Option (Str × Str)
  | .call _ => none
  | .completion op o =>
    match o.ec with
    | some ec => if op.advances then some (op.where_, ec) else none
    | none => if op = .connect then o.sniError.map (Prod.mk (lit "set_sni")) else none

def Transport.note (transport : Transport) (o : SessionObject) (e : SessionEvent)
    (result : SessionObject × List Effect) : Transport :=
  match handledItem o e with
  | none => transport
  | some item =>
    if completesHandshake item then .up
    else if (markedError item).isSome then (if transport = .down then .down else .failed)
    else if Effect.closeSocket ∈ result.2 then .down
    else transport

theorem RelaySession.handle_markedError (pf : Platform) (m : Moment) (s : RelaySession)
    {item : Item SessionCall AsyncOp Outcome} {where_ ec : Str}
    (hitem : markedError item = some (where_, ec)) :
    ∃ before, s.handle pf m item =
      ((s.markError pf m where_ ec).1, before ++ (s.markError pf m where_ ec).2) := by
  have h : RelaySession.Turn pf m s item (s.handle pf m item) := RelaySession.handle_turn item
  generalize s.handle pf m item = result at h ⊢
  cases h with
  | fail op o ec' hop hec =>
    rw [markedError, hec] at hitem
    dsimp only at hitem
    rw [if_pos hop] at hitem
    obtain ⟨rfl, rfl⟩ := Prod.mk.inj (Option.some.inj hitem)
    exact ⟨[], rfl⟩
  | failSni o ec' text hec hsni =>
    rw [markedError, hec, hsni] at hitem
    obtain ⟨rfl, rfl⟩ := Prod.mk.inj (Option.some.inj hitem)
    exact ⟨[.log .info text], rfl⟩
  | connected o text hec hsni =>
    rw [markedError, hec, hsni] at hitem
    cases hitem
  | resolved host port o text hec | secured o text hec | subscribed host target o text last hec
  | requested message o hec | read o next hec =>
    rw [markedError, hec] at hitem
    cases hitem
  | noReconnect delayMs o | reconnect delayMs o | authWritten message o level text | closed o
  | noNips parsedRelay o | nips parsedRelay o text =>
    rw [markedError] at hitem
    split at hitem <;> cases hitem
  | _ => cases hitem

theorem RelaySession.handle_close (pf : Platform) (m : Moment) (s : RelaySession)
    (item : Item SessionCall AsyncOp Outcome) :
    Effect.start .close ∈ (s.handle pf m item).2 ↔ item = .call .stop ∧ s.wsConnected = true := by
  constructor
  · intro h
    cases handle_successor h with
    | close hws => exact ⟨rfl, hws⟩
  · rintro ⟨rfl, hws⟩
    simp [handle, onStop, hws]

/-- The flag is set by a completed handshake, and stays only while the socket does. -/
theorem RelaySession.handle_wsConnected (pf : Platform) (m : Moment) (s : RelaySession)
    (item : Item SessionCall AsyncOp Outcome) (hws : (s.handle pf m item).1.wsConnected = true) :
    completesHandshake item = true ∨
      (s.wsConnected = true ∧ Effect.closeSocket ∉ (s.handle pf m item).2) := by
  have hmark : ∀ where_ ec : Str, (s.markError pf m where_ ec).1.wsConnected = true →
      s.wsConnected = true ∧ Effect.closeSocket ∉ (s.markError pf m where_ ec).2 := by
    intro where_ ec h
    obtain ⟨n, hdata⟩ : ∃ n, (s.markError pf m where_ ec).1 = { s with reconnectAttempt := n } :=
      markError_fst where_ ec
    refine ⟨by rwa [hdata] at h, fun hmem => ?_⟩
    rcases mem_markError hmem with h | ⟨_, _, h⟩ | h | ⟨_, h⟩ <;> cases h
  have h : RelaySession.Turn pf m s item (s.handle pf m item) := RelaySession.handle_turn item
  generalize s.handle pf m item = result at h hws ⊢
  cases h with
  | fail op o ec => exact Or.inr (hmark _ ec hws)
  | failSni o ec text =>
    obtain ⟨hbefore, hmem⟩ := hmark _ ec hws
    exact Or.inr ⟨hbefore, fun h => (List.mem_cons.mp h).elim (fun h => by cases h) hmem⟩
  | subscribed host target o text last hec =>
    refine Or.inl ?_
    rw [completesHandshake, hec]
    rfl
  | stopOpen | stopClosed hclosed | reconnect =>
    first
    | cases hws
    | exact absurd hws (by rw [hclosed]; exact Bool.false_ne_true)
  | read o next hec hnext =>
    refine Or.inr ⟨hws, fun h => ?_⟩
    rcases List.mem_append.mp h with h | h
    · rcases mem_handleMessage h with ⟨_, _, h⟩ | h | ⟨_, h⟩ | ⟨_, h, -⟩ <;> cases h
    · rw [hnext] at h
      split at h <;> simp at h
  | _ => exact Or.inr ⟨hws, by simp [setStatus, startResolve]⟩

/-! ## The flag and the transport -/

/-- While the flag is set, the websocket handshake of the current transport has been completed. -/
def Handshaken (p : SessionObject × Transport) : Prop := p.1.data.wsConnected = true → p.2 ≠ .down

theorem Handshaken.step {p q : SessionObject × Transport} {e : SessionEvent} (hp : Handshaken p)
    (h : watched (sessionBehaviour pf).react Transport.note p e = some q) : Handshaken q := by
  obtain ⟨effects, hreact, hnote⟩ := watched_eq_some.mp h
  intro hws
  cases hitem : handledItem p.1 e with
  | none =>
    obtain ⟨-, buffer, hdata⟩ := react_without_handler hitem hreact
    rw [hnote, Transport.note, hitem]
    rw [hdata] at hws
    exact hp hws
  | some item =>
    obtain ⟨m, rest, rfl, -, rfl, hdata, -⟩ := react_handler hitem hreact
    rw [hdata] at hws
    rw [hnote, Transport.note, hitem]
    dsimp only
    rcases p.1.data.handle_wsConnected pf m item hws with hdone | ⟨hbefore, hsocket⟩
    · rw [if_pos hdone]
      exact Transport.noConfusion
    · split
      · exact Transport.noConfusion
      · split
        · rw [if_neg (hp hbefore)]
          exact Transport.noConfusion
        · exact hp hbefore

/-- A close handshake is started only on a websocket whose handshake is complete and on which no error
has been reported. -/
def ClosesOnlyUp (pf : Platform) (p : SessionObject × Transport) (e : SessionEvent) : Prop :=
  ∀ o' effects, (sessionBehaviour pf).react p.1 e = some (o', effects) →
    Effect.start .close ∈ effects → p.2 = .up

/-- The `Stop` handler does not find the flag of a websocket that has failed. -/
def StopsBeforeFailure (p : SessionObject × Transport) (e : SessionEvent) : Prop :=
  handledItem p.1 e = some (.call .stop) → p.1.data.wsConnected = true → p.2 ≠ .failed

theorem closesOnlyUp_iff {p q : SessionObject × Transport} {e : SessionEvent}
    (h : watched (sessionBehaviour pf).react Transport.note p e = some q) :
    ClosesOnlyUp pf p e ↔
      (handledItem p.1 e = some (.call .stop) → p.1.data.wsConnected = true → p.2 = .up) := by
  obtain ⟨effects, hreact, -⟩ := watched_eq_some.mp h
  constructor
  · intro hup hstop hws
    obtain ⟨m, rest, -, -, heffects, -, -⟩ := react_handler hstop hreact
    refine hup q.1 effects hreact ?_
    rw [heffects]
    exact (p.1.data.handle_close pf m _).mpr ⟨rfl, hws⟩
  · intro hstop o' effects' hreact' hclose
    cases hitem : handledItem p.1 e with
    | none =>
      rw [mem_starts, (react_without_handler hitem hreact').1] at hclose
      cases hclose
    | some item =>
      obtain ⟨m, rest, -, -, rfl, -, -⟩ := react_handler hitem hreact'
      obtain ⟨rfl, hws⟩ := (p.1.data.handle_close pf m item).mp hclose
      exact hstop hitem hws

theorem closesOnlyUp_iff_stopsBeforeFailure {p q : SessionObject × Transport} {e : SessionEvent}
    (hp : Handshaken p) (h : watched (sessionBehaviour pf).react Transport.note p e = some q) :
    ClosesOnlyUp pf p e ↔ StopsBeforeFailure p e := by
  rw [closesOnlyUp_iff h]
  refine forall_congr' fun _ => forall_congr' fun hws => ?_
  have hdown := hp hws
  cases htransport : p.2 with
  | down => exact absurd htransport hdown
  | up => simp
  | failed => simp

/-! ## The back-off of a session that is started once -/

/-- The operations of the chain that come before the subscription. -/
def AsyncOp.connects : AsyncOp → Bool
  | .resolve _ _ | .connect | .tlsHandshake | .wsHandshake _ _ | .reconnectWait _ => true
  | .writeReq _ | .read | .writeAuth _ | .close | .fetchNips _ => false

def connectCount (effects : List Effect) : ℕ := (effects.filterMap Effect.starts).countP AsyncOp.connects

theorem outstanding_connects_le (o : SessionObject) :
    outstanding AsyncOp.connects o ≤ chains SessionCall.begins AsyncOp.inSequence o := by
  have hle : outstanding AsyncOp.connects o + outstanding AsyncOp.isRead o ≤
      outstanding AsyncOp.inSequence o :=
    outstanding_add_le (fun op => by cases op <;> exact Nat.le_of_ble_eq_true rfl) o
  have hchains : outstanding AsyncOp.inSequence o ≤
      chains SessionCall.begins AsyncOp.inSequence o := outstanding_le_chains o
  omega

theorem subscribed_connectCount {host target : Str} {o : Outcome} (hec : o.ec = none) :
    connectCount (s.handle pf m (.completion (.wsHandshake host target) o)).2 = 0 := by
  rw [RelaySession.handle, RelaySession.onWsHandshake, hec]
  dsimp only
  split <;> rfl

/-- Without an error and without a completed handshake, the count stays, and nothing that connects is
started unless it was under way. -/
theorem RelaySession.handle_unmarked (pf : Platform) (m : Moment) (s : RelaySession)
    {item : Item SessionCall AsyncOp Outcome} (hmark : markedError item = none)
    (hdone : completesHandshake item = false) :
    (s.handle pf m item).1.reconnectAttempt = s.reconnectAttempt ∧
      (isCallOf SessionCall.begins item = false → isCompletionOf AsyncOp.connects item = false →
        connectCount (s.handle pf m item).2 = 0) := by
  have h : RelaySession.Turn pf m s item (s.handle pf m item) := RelaySession.handle_turn item
  generalize s.handle pf m item = result at h ⊢
  cases h with
  | fail op o ec hop hec =>
    rw [markedError, hec] at hmark
    dsimp only at hmark
    rw [if_pos hop] at hmark
    cases hmark
  | failSni o ec text hec hsni =>
    rw [markedError, hec, hsni] at hmark
    cases hmark
  | subscribed host target o text last hec =>
    rw [completesHandshake, hec] at hdone
    cases hdone
  | read o next hec hnext =>
    refine ⟨rfl, fun _ _ => ?_⟩
    have hmessage : connectCount (s.handleMessage pf m s.readBuffer) = 0 := by
      refine List.countP_eq_zero.mpr fun op hop => ?_
      obtain ⟨message, rfl⟩ := handleMessage_starts _ op hop
      exact Bool.false_ne_true
    rw [connectCount] at hmessage ⊢
    rw [List.filterMap_append, List.countP_append, hmessage, hnext]
    split <;> rfl
  | refuse | start => exact ⟨rfl, fun hstart _ => by cases hstart⟩
  | resolved | connected | secured | noReconnect | reconnect =>
    exact ⟨rfl, fun _ hother => by cases hother⟩
  | _ => exact ⟨rfl, fun _ _ => rfl⟩

/-- In a session that is started once the count tells a websocket that works from one that has failed:
it is zero while the transport is up, and positive in the back-off after a failure. -/
structure BackOff (p : SessionObject × Transport) : Prop where
  once : StartedOnce p.1
  handshaken : Handshaken p
  reached : p.2 ≠ .down → NoStart p.1.queue
  up_count : p.2 = .up → p.1.data.reconnectAttempt = 0 ∧ outstanding AsyncOp.connects p.1 = 0
  failed_count : p.2 = .failed → p.1.data.wsConnected = true → p.1.data.stopped = false →
    0 < p.1.data.reconnectAttempt

theorem markedError_where {item : Item SessionCall AsyncOp Outcome} {where_ ec : Str}
    (hitem : markedError item = some (where_, ec))
    (hother : isCompletionOf AsyncOp.connects item = false) :
    where_ ∈ [lit "read", lit "resolve", lit "connect", lit "tls_handshake", lit "write_req"] := by
  cases item with
  | call c => cases hitem
  | completion op o =>
    rw [markedError] at hitem
    cases op with
    | writeReq message =>
      split at hitem
      · obtain ⟨rfl, -⟩ := Prod.mk.inj (Option.some.inj hitem)
        simp [AsyncOp.where_]
      · cases hitem
    | read =>
      split at hitem
      · obtain ⟨rfl, -⟩ := Prod.mk.inj (Option.some.inj hitem)
        simp [AsyncOp.where_]
      · cases hitem
    | writeAuth message | close | fetchNips parsedRelay =>
      split at hitem <;> cases hitem
    | _ => cases hother

theorem running_before (pf : Platform) (m : Moment) {item : Item SessionCall AsyncOp Outcome}
    (hstart : isCallOf SessionCall.begins item = false)
    (hrunning : (s.handle pf m item).1.stopped = false) : s.stopped = false := by
  rw [(s.handle_members pf m item).stopped] at hrunning
  split at hrunning
  · cases hstart
  · cases hrunning
  · exact hrunning

/-- The failure of an operation of a transport that is up leaves a positive count. -/
theorem failed_after_up {item : Item SessionCall AsyncOp Outcome} {where_ ec : Str}
    (hitem : markedError item = some (where_, ec))
    (hother : isCompletionOf AsyncOp.connects item = false) (hcount : s.reconnectAttempt = 0)
    (hrunning : s.stopped = false) : 0 < (s.handle pf m item).1.reconnectAttempt := by
  have hre : shouldReconnectAttempt s.stopped s.reconnectAttempt where_ = true := by
    rw [shouldReconnectAttempt_iff]
    exact ⟨hrunning, by rw [hcount]; decide, markedError_where hitem hother⟩
  obtain ⟨before, hhandle⟩ := s.handle_markedError pf m hitem
  rw [hhandle]
  dsimp only
  rw [(s.markError_of_reconnect pf m ec hre).1]
  exact Nat.succ_pos _

/-- A handler that completes no handshake does not lower the count. -/
theorem reconnectAttempt_le (pf : Platform) (m : Moment) {item : Item SessionCall AsyncOp Outcome}
    (hdone : completesHandshake item = false) :
    s.reconnectAttempt ≤ (s.handle pf m item).1.reconnectAttempt := by
  rcases s.handle_reconnects pf m item with ⟨-, hattempt⟩ | ⟨-, hattempt, -⟩
  · rw [hattempt, hdone]
    exact Nat.le_refl _
  · rw [hattempt]
    exact Nat.le_succ _

theorem Transport.note_item {transport : Transport} {o : SessionObject} {e : SessionEvent}
    {item : Item SessionCall AsyncOp Outcome} (result : SessionObject × List Effect)
    (hitem : handledItem o e = some item) :
    (completesHandshake item = true ∧ transport.note o e result = .up) ∨
      (completesHandshake item = false ∧ (markedError item).isSome = true ∧
        transport.note o e result = if transport = .down then .down else .failed) ∨
      (completesHandshake item = false ∧ markedError item = none ∧
        (transport.note o e result = .down ∨ transport.note o e result = transport)) := by
  rw [Transport.note, hitem]
  dsimp only
  split
  · next hdone => exact Or.inl ⟨hdone, rfl⟩
  · next hdone =>
    rw [Bool.not_eq_true] at hdone
    split
    · next hmark => exact Or.inr (Or.inl ⟨hdone, hmark, rfl⟩)
    · next hmark =>
      rw [Bool.not_eq_true, Option.isSome_eq_false_iff, Option.isNone_iff_eq_none] at hmark
      refine Or.inr (Or.inr ⟨hdone, hmark, ?_⟩)
      split
      · exact Or.inl rfl
      · exact Or.inr rfl

theorem BackOff.idle {p q : SessionObject × Transport} {e : SessionEvent} {effects : List Effect}
    (hp : BackOff p) (he : isCallEvent SessionCall.begins e = false)
    (hitem : handledItem p.1 e = none) (hhandshaken : Handshaken q)
    (hreact : (sessionBehaviour pf).react p.1 e = some (q.1, effects)) (hq : q.2 = p.2) :
    BackOff q := by
  obtain ⟨hstarts, buffer, hdata⟩ := react_without_handler hitem hreact
  obtain ⟨more, hmore, hqueue⟩ := react_queue he hitem hreact
  refine ⟨hp.once.react he hreact, hhandshaken, fun hdown => ?_, fun hup => ?_, fun hfailed => ?_⟩
  · rw [hqueue]
    exact List.forall_mem_append.mpr ⟨hp.reached (hq ▸ hdown), hmore⟩
  · obtain ⟨hcount, hnone⟩ := hp.up_count (hq ▸ hup)
    refine ⟨by rw [hdata]; exact hcount, ?_⟩
    cases e with
    | call c => rw [outstanding_call _ hreact, hnone]
    | finish i outcome =>
      have hle := outstanding_finish AsyncOp.connects hreact
      have hstart : startCount AsyncOp.connects (sessionBehaviour pf) effects = 0 :=
        congrArg (List.countP AsyncOp.connects) hstarts
      omega
    | run m =>
      obtain ⟨item, rest, hhead, -, -⟩ := react_run hreact
      rw [handledItem, hhead] at hitem
      cases hitem
  · rw [hdata]
    exact hp.failed_count (hq ▸ hfailed)

section Handler
variable {p : SessionObject × Transport} {item : Item SessionCall AsyncOp Outcome}
  {rest : List (Item SessionCall AsyncOp Outcome)}

/-- Once the transport has been reached, the handler is not that of `Start`. -/
theorem BackOff.no_start (hp : BackOff p) (hhead : p.1.queue = item :: rest) (hdown : p.2 ≠ .down) :
    NoStart rest ∧ isCallOf SessionCall.begins item = false := by
  have hnone := hp.reached hdown
  rw [hhead] at hnone
  exact ⟨fun x hx => hnone x (List.mem_cons_of_mem _ hx), hnone item List.mem_cons_self⟩

theorem BackOff.not_connects (hp : BackOff p) (hhead : p.1.queue = item :: rest) (hup : p.2 = .up) :
    isCompletionOf AsyncOp.connects item = false := by
  have hnone := (hp.up_count hup).2
  simp only [outstanding, hhead, countP_cons_toNat] at hnone
  exact Bool.eq_false_iff.mpr fun htrue => by rw [htrue, Bool.toNat_true] at hnone; omega

/-- The count stays positive after a failure. -/
theorem BackOff.failed_after (hp : BackOff p) (hhead : p.1.queue = item :: rest)
    (hfailed : p.2 = .failed) (hdone : completesHandshake item = false)
    (hws : (p.1.data.handle pf m item).1.wsConnected = true)
    (hrunning : (p.1.data.handle pf m item).1.stopped = false) :
    0 < (p.1.data.handle pf m item).1.reconnectAttempt := by
  have hstart := (hp.no_start hhead (by rw [hfailed]; exact Transport.noConfusion)).2
  rcases p.1.data.handle_wsConnected pf m item hws with htrue | ⟨hbefore, -⟩
  · rw [hdone] at htrue
    cases htrue
  · exact (hp.failed_count hfailed hbefore (running_before pf m hstart hrunning)).trans_le
      (reconnectAttempt_le pf m hdone)

/-- A failure of a transport that was reached leaves a positive count, too. -/
theorem BackOff.marked (hp : BackOff p) (hhead : p.1.queue = item :: rest) (hdown : p.2 ≠ .down)
    (hdone : completesHandshake item = false) (hmark : (markedError item).isSome = true)
    (hws : (p.1.data.handle pf m item).1.wsConnected = true)
    (hrunning : (p.1.data.handle pf m item).1.stopped = false) :
    0 < (p.1.data.handle pf m item).1.reconnectAttempt := by
  cases htransport : p.2 with
  | down => exact absurd htransport hdown
  | up =>
    obtain ⟨⟨where_, ec⟩, hsome⟩ := Option.isSome_iff_exists.mp hmark
    exact failed_after_up hsome (hp.not_connects hhead htransport) (hp.up_count htransport).1
      (running_before pf m (hp.no_start hhead hdown).2 hrunning)
  | failed => exact hp.failed_after hhead htransport hdone hws hrunning

/-- The completed websocket handshake was the only operation of the chain: none that connects is left. -/
theorem BackOff.handshake (pf : Platform) (m : Moment) (hp : BackOff p) (hhead : p.1.queue = item :: rest)
    (hdone : completesHandshake item = true) :
    NoStart rest ∧ (p.1.data.handle pf m item).1.reconnectAttempt = 0 ∧
      outstanding AsyncOp.connects p.1 + connectCount (p.1.data.handle pf m item).2 ≤
        (isCompletionOf AsyncOp.connects item).toNat := by
  obtain ⟨host, target, o, rfl, hec⟩ : ∃ host target o,
      item = .completion (.wsHandshake host target) o ∧ o.ec = none := by
    cases item with
    | call c => cases hdone
    | completion op o =>
      cases op with
      | wsHandshake host target => exact ⟨host, target, o, rfl, Option.isNone_iff_eq_none.mp hdone⟩
      | _ => cases hdone
  refine ⟨?_, ?_, ?_⟩
  · rcases (hhead ▸ hp.once.order).tail.2 with ⟨key, hkey⟩ | hnone
    · cases hkey
    · exact hnone
  · rcases p.1.data.handle_reconnects pf m _ with ⟨-, hattempt⟩ | ⟨-, -, -, -, -, hopen⟩
    · rw [hattempt, if_pos hdone]
    · rw [hopen] at hdone
      cases hdone
  · have hle := (outstanding_connects_le p.1).trans hp.once.single
    rw [subscribed_connectCount hec]
    exact hle

end Handler

theorem BackOff.step {p q : SessionObject × Transport} {e : SessionEvent} (hp : BackOff p)
    (he : isCallEvent SessionCall.begins e = false)
    (h : watched (sessionBehaviour pf).react Transport.note p e = some q) : BackOff q := by
  obtain ⟨effects, hreact, hnote⟩ := watched_eq_some.mp h
  have hhandshaken : Handshaken q := hp.handshaken.step h
  cases hitem : handledItem p.1 e with
  | none =>
    refine hp.idle he hitem hhandshaken hreact ?_
    rw [hnote, Transport.note, hitem]
  | some item =>
    obtain ⟨m, rest, rfl, hhead, rfl, hdata, hrest⟩ := react_handler hitem hreact
    have hcount : outstanding AsyncOp.connects q.1 + (isCompletionOf AsyncOp.connects item).toNat =
        outstanding AsyncOp.connects p.1 + connectCount (p.1.data.handle pf m item).2 :=
      outstanding_run AsyncOp.connects hhead hreact
    suffices hcases : (q.2 ≠ .down → NoStart rest) ∧
        (q.2 = .up → q.1.data.reconnectAttempt = 0 ∧ outstanding AsyncOp.connects q.1 = 0) ∧
        (q.2 = .failed → q.1.data.wsConnected = true → q.1.data.stopped = false →
          0 < q.1.data.reconnectAttempt) from
      ⟨hp.once.react he hreact, hhandshaken, hrest ▸ hcases.1, hcases.2.1, hcases.2.2⟩
    have htransport := p.2.note_item (q.1, (p.1.data.handle pf m item).2) hitem
    rw [← hnote] at htransport
    rw [hdata]
    rcases htransport with ⟨hdone, hq⟩ | ⟨hdone, hmark, hq⟩ | ⟨hdone, hmark, hq⟩
    · obtain ⟨hstart, hattempt, hconnects⟩ := hp.handshake pf m hhead hdone
      rw [hq]
      exact ⟨fun _ => hstart, fun _ => ⟨hattempt, by omega⟩, fun h => absurd h Transport.noConfusion⟩
    · by_cases hdown : p.2 = .down
      · rw [if_pos hdown] at hq
        rw [hq]
        exact ⟨fun h => absurd rfl h, fun h => absurd h Transport.noConfusion,
          fun h => absurd h Transport.noConfusion⟩
      · rw [if_neg hdown] at hq
        rw [hq]
        exact ⟨fun _ => (hp.no_start hhead hdown).1, fun h => absurd h Transport.noConfusion,
          fun _ => hp.marked hhead hdown hdone hmark⟩
    · rcases hq with hq | hq
      · rw [hq]
        exact ⟨fun h => absurd rfl h, fun h => absurd h Transport.noConfusion,
          fun h => absurd h Transport.noConfusion⟩
      · rw [hq]
        refine ⟨fun hdown => (hp.no_start hhead hdown).1, fun hup => ?_,
          fun hfailed => hp.failed_after hhead hfailed hdone⟩
        obtain ⟨hattempt, hconnect⟩ := p.1.data.handle_unmarked pf m hmark hdone
        have hstart := (hp.no_start hhead (by rw [hup]; exact Transport.noConfusion)).2
        rw [hconnect hstart (hp.not_connects hhead hup), (hp.up_count hup).2] at hcount
        refine ⟨?_, by omega⟩
        rw [hattempt]
        exact (hp.up_count hup).1

/-! ## When `Stop` may close -/

/-- The `Stop` handler that finds the flag runs outside the back-off after a failure: no reconnect is
counted, and, when it is not the first, nothing has failed since the session was stopped. -/
def StopsOutsideBackOff (p : SessionObject × Transport) (e : SessionEvent) : Prop :=
  handledItem p.1 e = some (.call .stop) → p.1.data.wsConnected = true →
    p.1.data.reconnectAttempt = 0 ∧ (p.1.data.stopped = true → p.2 ≠ .failed)

instance (p : SessionObject × Transport) : DecidablePred (StopsOutsideBackOff p) :=
  fun e => inferInstanceAs (Decidable (handledItem p.1 e = some (.call .stop) → _))

theorem stopsOutsideBackOff_iff {p : SessionObject × Transport} (hp : BackOff p) (e : SessionEvent) :
    StopsOutsideBackOff p e ↔ StopsBeforeFailure p e := by
  refine forall_congr' fun _ => forall_congr' fun hws => ?_
  cases hp2 : p.2 with
  | down => exact absurd hp2 (hp.handshaken hws)
  | up => exact iff_of_true ⟨(hp.up_count hp2).1, fun _ => Transport.noConfusion⟩ Transport.noConfusion
  | failed =>
    refine iff_of_false ?_ fun h => h rfl
    rintro ⟨hcount, hstopped⟩
    by_cases hrunning : p.1.data.stopped = true
    · exact hstopped hrunning rfl
    · have hpos := hp.failed_count hp2 hws (by rwa [Bool.not_eq_true] at hrunning)
      omega

/-- **Closing a websocket that works.** In every run of a session, `Stop` starts close handshakes only
on websockets that work exactly when no `Stop` handler finds the flag of one that has failed. In a session
that is started once, this is exactly when no `Stop` handler that finds the flag runs in the back-off. -/
theorem closes_only_up_iff (pf : Platform) (relayUrl hexPubkey : Str) :
    (∀ es, Along (watched (sessionBehaviour pf).react Transport.note) (ClosesOnlyUp pf)
        ({ data := RelaySession.create relayUrl hexPubkey }, .down) es ↔
      Along (watched (sessionBehaviour pf).react Transport.note) StopsBeforeFailure
        ({ data := RelaySession.create relayUrl hexPubkey }, .down) es) ∧
    (∀ authKey es, (∀ e ∈ es, isCallEvent SessionCall.begins e = false) →
      (Along (watched (sessionBehaviour pf).react Transport.note) (ClosesOnlyUp pf)
          (startedSession hexPubkey authKey relayUrl, .down) es ↔
        Along (watched (sessionBehaviour pf).react Transport.note) StopsOutsideBackOff
          (startedSession hexPubkey authKey relayUrl, .down) es)) := by
  constructor
  · intro es
    exact along_congr (I := Handshaken) (K := fun _ _ => True) (fun _ _ _ hp _ h => hp.step h)
      (fun _ _ _ hp _ h => closesOnlyUp_iff_stopsBeforeFailure hp h)
      (fun h => absurd h Bool.false_ne_true) (along_of_forall fun _ _ _ => trivial)
  · intro authKey es hes
    have hstarted : BackOff (startedSession hexPubkey authKey relayUrl, .down) :=
      ⟨⟨.waiting [authKey] [] (by simp [NoStart]), Nat.le_refl 1⟩,
        fun h => absurd h Bool.false_ne_true, fun h => absurd rfl h,
        fun h => absurd h Transport.noConfusion, fun h => absurd h Transport.noConfusion⟩
    exact along_congr (I := BackOff) (K := fun _ e => isCallEvent SessionCall.begins e = false)
      (fun _ _ _ hp he h => hp.step he h)
      (fun _ e _ hp _ h => (closesOnlyUp_iff_stopsBeforeFailure hp.handshaken h).trans
        (stopsOutsideBackOff_iff hp e).symm)
      hstarted (along_of_forall fun e he _ => hes e he)

/-- A session is connected and subscribes. -/
def subscribing : List SessionEvent :=
  [.run {}, .run {}, .finish 0 {}, .run {}, .finish 0 {}, .run {}, .finish 0 {}, .run {},
    .finish 0 {}, .run {}, .finish 1 {}, .run {}]

/-- The close handshake that the `Stop` of a subscribed session starts is on a websocket that works. -/
theorem closes_only_up_iff_subscribed :
    Along (watched (sessionBehaviour samplePlatform).react Transport.note)
        (ClosesOnlyUp samplePlatform) (startedSession (lit "00") none sampleRelay, .down)
        (subscribing ++ [.call .stop, .run {}]) ∧
      (run (watched (sessionBehaviour samplePlatform).react Transport.note)
        (startedSession (lit "00") none sampleRelay, .down) (subscribing ++ [.call .stop])).bind
          (fun p => ((sessionBehaviour samplePlatform).react p.1 (.run {})).map fun result =>
            (p.2, decide (Effect.start .close ∈ result.2))) = some (.up, true) :=
  ⟨((closes_only_up_iff samplePlatform sampleRelay (lit "00")).2 none _ (by decide)).mpr
    (by decide +kernel), by decide +kernel⟩

/-- A session is subscribed, its read fails, and it is stopped in the back-off. -/
def stoppedInBackOff : List SessionEvent :=
  subscribing ++ [.finish 1 { ec := some (lit "End of file") }, .run {}, .call .stop]

/-- The close handshake is started on the websocket that has failed. -/
theorem failed_websocket_is_closed :
    ¬ Along (watched (sessionBehaviour samplePlatform).react Transport.note)
      (ClosesOnlyUp samplePlatform) (startedSession (lit "00") none sampleRelay, .down)
      (stoppedInBackOff ++ [.run {}]) := by
  intro h
  have hlast : (run (watched (sessionBehaviour samplePlatform).react Transport.note)
      (startedSession (lit "00") none sampleRelay, .down) stoppedInBackOff).bind
        (fun p => ((sessionBehaviour samplePlatform).react p.1 (.run {})).map fun result =>
          (p.2, decide (Effect.start .close ∈ result.2))) = some (.failed, true) := by
    decide +kernel
  obtain ⟨p, ⟨o', effects⟩, hreact, hguard, hpair⟩ := h.last_watched hlast
  obtain ⟨hfailed, hclose⟩ := Prod.mk.inj hpair
  have hup : p.2 = .up := hguard o' effects hreact (of_decide_eq_true hclose)
  rw [hfailed] at hup
  cases hup

end Monitostr.Net
