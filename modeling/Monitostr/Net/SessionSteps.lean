import Monitostr.Net.RelaySession

/-! # What the handlers of a session can do

The outcomes of a handler are listed once. From the list follow which members it changes, which relay
it writes to in the store, and when it stops or restarts the session.
-/

namespace Monitostr.Net
open Foundations Foundations.Behaviour Model Nostr
set_option autoImplicit false

/-- The operations that advance a connection: resolve, connect, the handshakes, the REQ write and
the read. -/
def AsyncOp.advances : AsyncOp → Bool
  | .resolve _ _ | .connect | .tlsHandshake | .wsHandshake _ _ | .writeReq _ | .read => true
  | .reconnectWait _ | .writeAuth _ | .close | .fetchNips _ => false

def AsyncOp.isRead : AsyncOp → Bool
  | .read => true
  | _ => false

/-- The name under which `MarkError` reports the failure of an operation. -/
def AsyncOp.where_ : AsyncOp → Str
  | .resolve _ _ => lit "resolve"
  | .connect => lit "connect"
  | .tlsHandshake => lit "tls_handshake"
  | .wsHandshake _ _ => lit "ws_handshake"
  | .writeReq _ => lit "write_req"
  | .read => lit "read"
  | .reconnectWait _ | .writeAuth _ | .close | .fetchNips _ => []

/-- A successful read, whose handler takes its message from the read buffer. -/
def takesMessage : Item SessionCall AsyncOp Outcome → Bool
  | .completion .read o => o.ec.isNone
  | _ => false

theorem mem_starts {op : AsyncOp} {effects : List Effect} :
    Effect.start op ∈ effects ↔ op ∈ effects.filterMap Effect.starts := by
  rw [List.mem_filterMap]
  constructor
  · exact fun h => ⟨_, h, rfl⟩
  · rintro ⟨effect, heffect, hstarts⟩
    cases effect with
    | start op' => exact Option.some.inj hstarts ▸ heffect
    | _ => cases hstarts

namespace RelaySession
variable {pf : Platform} {m : Moment} {s : RelaySession}

/-! ## `MarkError` -/

theorem markError_fst (where_ ec : Str) :
    ∃ n, (s.markError pf m where_ ec).1 = { s with reconnectAttempt := n } := by
  rw [markError]
  dsimp only
  split
  · exact ⟨s.reconnectAttempt + 1, rfl⟩
  · exact ⟨s.reconnectAttempt, rfl⟩

theorem mem_markError {where_ ec : Str} {effect : Effect}
    (h : effect ∈ (s.markError pf m where_ ec).2) :
    effect = s.setStatus .error (where_ ++ lit ": " ++ ec) ∨
      (∃ level message, effect = .log level message) ∨
      effect = .cancelTimer ∨ ∃ delayMs, effect = .start (.reconnectWait delayMs) := by
  rw [markError] at h
  dsimp only at h
  split at h
  · simp only [scheduleReconnect, List.cons_append, List.nil_append, List.mem_cons,
      List.not_mem_nil, or_false] at h
    rcases h with rfl | rfl | rfl | rfl | rfl
    · exact Or.inl rfl
    · exact Or.inr (Or.inl ⟨_, _, rfl⟩)
    · exact Or.inr (Or.inl ⟨_, _, rfl⟩)
    · exact Or.inr (Or.inr (Or.inl rfl))
    · exact Or.inr (Or.inr (Or.inr ⟨_, rfl⟩))
  · simp only [List.mem_cons, List.not_mem_nil, or_false] at h
    rcases h with rfl | rfl
    · exact Or.inl rfl
    · exact Or.inr (Or.inl ⟨_, _, rfl⟩)

/-- The wait of the reconnect that would be scheduled now. -/
def reconnectDelay (pf : Platform) (m : Moment) (s : RelaySession) : UInt32 :=
  computeReconnectDelayMs pf s.relayUrl (s.reconnectAttempt + 1) (UInt64.ofNat m.steady)

theorem markError_of_reconnect (pf : Platform) (m : Moment) (s : RelaySession) {where_ : Str} (ec : Str)
    (h : shouldReconnectAttempt s.stopped s.reconnectAttempt where_ = true) :
    (s.markError pf m where_ ec).1 = { s with reconnectAttempt := s.reconnectAttempt + 1 } ∧
      (s.markError pf m where_ ec).2.filterMap Effect.starts =
        [.reconnectWait (s.reconnectDelay pf m)] := by
  rw [markError, if_pos h]
  exact ⟨rfl, rfl⟩

theorem markError_of_not_reconnect (pf : Platform) (m : Moment) (s : RelaySession) {where_ : Str}
    (ec : Str)
    (h : shouldReconnectAttempt s.stopped s.reconnectAttempt where_ = false) :
    (s.markError pf m where_ ec).1 = s ∧
      (s.markError pf m where_ ec).2.filterMap Effect.starts = [] := by
  rw [markError, if_neg (by rw [h]; exact Bool.false_ne_true)]
  exact ⟨rfl, rfl⟩

theorem setStatus_mem_markError (where_ ec : Str) :
    s.setStatus .error (where_ ++ lit ": " ++ ec) ∈ (s.markError pf m where_ ec).2 := by
  rw [markError]
  dsimp only
  split <;> simp

/-! ## The outcomes of a handler -/

/-- The session that `Start` goes on with. -/
def restarted (s : RelaySession) : RelaySession :=
  { s with stopped := false, parsedRelay := (Net.parseRelayUrl s.relayUrl).getD {} }

/-- The outcomes of the handlers, up to the texts of the log. -/
inductive Turn (pf : Platform) (m : Moment) (s : RelaySession) :
    Item SessionCall AsyncOp Outcome → RelaySession × List Effect → Prop
  | refuse (error : Str) (level : LogLevel) (text : Str) :
    Turn pf m s (.call .start) (s.restarted, [.cancelTimer, .stats (.ensureRelay s.relayUrl),
      s.setStatus .error error, .log level text])
  | start (text : Str) :
    s.restarted.parsedRelay.host.isEmpty = false → s.restarted.parsedRelay.secure = true →
    Turn pf m s (.call .start) (s.restarted, [.cancelTimer, .log .info text,
      .stats (.ensureRelay s.relayUrl), s.setStatus .resolving] ++ s.restarted.startResolve)
  | stopOpen : s.wsConnected = true →
    Turn pf m s (.call .stop) ({ s with stopped := true, readBuffer := [], wsConnected := false },
      [.cancelTimer, .cancelResolver, .start .close])
  | stopClosed : s.wsConnected = false →
    Turn pf m s (.call .stop) ({ s with stopped := true, readBuffer := [] },
      [.cancelTimer, .cancelResolver, .closeSocket, s.setStatus .disconnected])
  | setAuthKey (authKey : Option AuthKey) :
    Turn pf m s (.call (.setAuthKey authKey)) ({ s with authKey := authKey }, [])
  | fail (op : AsyncOp) (o : Outcome) (ec : Str) : op.advances = true → o.ec = some ec →
    Turn pf m s (.completion op o) (s.markError pf m op.where_ ec)
  | failSni (o : Outcome) (ec text : Str) : o.ec = none → o.sniError = some ec →
    Turn pf m s (.completion .connect o) ((s.markError pf m (lit "set_sni") ec).1,
      .log .info text :: (s.markError pf m (lit "set_sni") ec).2)
  | resolved (host port : Str) (o : Outcome) (text : Str) : o.ec = none →
    Turn pf m s (.completion (.resolve host port) o)
      (s, [.log .info text, s.setStatus .connecting, .start .connect])
  | connected (o : Outcome) (text : Str) : o.ec = none → o.sniError = none →
    Turn pf m s (.completion .connect o)
      (s, [.log .info text, s.setStatus .tlsHandshake, .start .tlsHandshake])
  | secured (o : Outcome) (text : Str) : o.ec = none →
    Turn pf m s (.completion .tlsHandshake o) (s, [.log .info text, s.setStatus .wsHandshake,
      .start (.wsHandshake s.parsedRelay.host s.parsedRelay.target)])
  | subscribed (host target : Str) (o : Outcome) (text : Str) (last : Effect) : o.ec = none →
    last = (match buildMonitorReqMessage pf s.hexPubkey with
      | some req => .start (.writeReq req)
      | none => .throws) →
    Turn pf m s (.completion (.wsHandshake host target) o)
      ({ s with reconnectAttempt := 0, wsConnected := true, reqSentAt := m.steady },
        [.log .info text, s.setStatus .subscribed, .start (.fetchNips s.parsedRelay), last])
  | requested (message : Str) (o : Outcome) : o.ec = none →
    Turn pf m s (.completion (.writeReq message) o) (s, [.start .read])
  | read (o : Outcome) (next : List Effect) : o.ec = none →
    next = (if s.stopped ∨ Effect.throws ∈ s.handleMessage pf m s.readBuffer then []
      else [.start .read]) →
    Turn pf m s (.completion .read o)
      ({ s with readBuffer := [] }, s.handleMessage pf m s.readBuffer ++ next)
  | noReconnect (delayMs : UInt32) (o : Outcome) : o.ec.isSome = true ∨ s.stopped = true →
    Turn pf m s (.completion (.reconnectWait delayMs) o) (s, [])
  | reconnect (delayMs : UInt32) (o : Outcome) : o.ec = none → s.stopped = false →
    Turn pf m s (.completion (.reconnectWait delayMs) o)
      ({ s with readBuffer := [], wsConnected := false },
        [.cancelResolver, .closeSocket, s.setStatus .resolving] ++ s.startResolve)
  | authWritten (message : Str) (o : Outcome) (level : LogLevel) (text : Str) :
    Turn pf m s (.completion (.writeAuth message) o) (s, [.log level text])
  | closed (o : Outcome) : Turn pf m s (.completion .close o) (s, [s.setStatus .disconnected])
  | noNips (parsedRelay : ParsedRelayUrl) (o : Outcome) : s.stopped = true →
    Turn pf m s (.completion (.fetchNips parsedRelay) o) (s, [])
  | nips (parsedRelay : ParsedRelayUrl) (o : Outcome) (text : Str) : s.stopped = false →
    Turn pf m s (.completion (.fetchNips parsedRelay) o)
      (s, [.stats (.setSupportedNips s.relayUrl (parseSupportedNipsFromNip11Body pf o.payload)),
        .log .info text])

theorem onStart_turn : Turn pf m s (.call .start) s.onStart := by
  have hrestart : ({ s with stopped := false } : RelaySession).parseRelayUrl = s.restarted := rfl
  rw [onStart, hrestart]
  split
  · exact .refuse _ _ _
  · next hhost =>
    split
    · exact .refuse _ _ _
    · next hsecure =>
      exact .start _ (by rwa [Bool.not_eq_true] at hhost)
        (by rwa [Bool.not_eq_true', Bool.not_eq_false] at hsecure)

theorem onStop_turn : Turn pf m s (.call .stop) s.onStop := by
  rw [onStop]
  dsimp only
  split
  · next hws => exact .stopOpen hws
  · next hws => exact .stopClosed (by simpa using hws)

theorem onConnect_turn (o : Outcome) : Turn pf m s (.completion .connect o) (s.onConnect pf m o) := by
  rw [onConnect]
  cases hec : o.ec with
  | some ec => exact .fail _ _ _ rfl hec
  | none =>
    cases hsni : o.sniError with
    | some sniEc => exact .failSni _ _ _ hec hsni
    | none => exact .connected _ _ hec hsni

theorem onWsHandshake_turn (host target : Str) (o : Outcome) :
    Turn pf m s (.completion (.wsHandshake host target) o) (s.onWsHandshake pf m o) := by
  rw [onWsHandshake]
  cases hec : o.ec with
  | some ec => exact .fail _ _ _ rfl hec
  | none =>
    dsimp only
    split
    · next hreq => exact .subscribed _ _ _ _ _ hec (by rw [hreq])
    · next hreq => exact .subscribed _ _ _ _ _ hec (by rw [hreq])

theorem onRead_turn (o : Outcome) : Turn pf m s (.completion .read o) (s.onRead pf m o) := by
  rw [onRead]
  cases hec : o.ec with
  | some ec => exact .fail _ _ _ rfl hec
  | none =>
    have hmessage : { s with readBuffer := [] : RelaySession }.handleMessage pf m s.readBuffer =
        s.handleMessage pf m s.readBuffer := rfl
    dsimp only
    rw [hmessage]
    split
    · next hlast =>
      have hturn : Turn pf m s (.completion .read o)
          ({ s with readBuffer := [] }, s.handleMessage pf m s.readBuffer ++ []) :=
        .read o [] hec (if_pos hlast).symm
      rwa [List.append_nil] at hturn
    · next hnext => exact .read o _ hec (if_neg hnext).symm

theorem onReconnectTimer_turn (delayMs : UInt32) (o : Outcome) :
    Turn pf m s (.completion (.reconnectWait delayMs) o) (s.onReconnectTimer o) := by
  rw [onReconnectTimer]
  split
  · next hnot => exact .noReconnect _ _ hnot
  · next hgo =>
    rw [not_or, Bool.not_eq_true, Bool.not_eq_true, Option.isSome_eq_false_iff,
      Option.isNone_iff_eq_none] at hgo
    exact .reconnect _ _ hgo.1 hgo.2

theorem handle_turn (item : Item SessionCall AsyncOp Outcome) :
    Turn pf m s item (s.handle pf m item) := by
  cases item with
  | call c =>
    cases c with
    | start => exact onStart_turn
    | stop => exact onStop_turn
    | setAuthKey authKey => exact .setAuthKey authKey
  | completion op o =>
    cases op with
    | resolve host port =>
      rw [handle, onResolve]
      split
      · next hec => exact .fail _ _ _ rfl hec
      · next hec => exact .resolved _ _ _ _ hec
    | connect => exact onConnect_turn o
    | tlsHandshake =>
      rw [handle, onTlsHandshake]
      split
      · next hec => exact .fail _ _ _ rfl hec
      · next hec => exact .secured _ _ hec
    | wsHandshake host target => exact onWsHandshake_turn host target o
    | writeReq message =>
      rw [handle, onWriteReq]
      split
      · next hec => exact .fail _ _ _ rfl hec
      · next hec => exact .requested _ _ hec
    | read => exact onRead_turn o
    | reconnectWait delayMs => exact onReconnectTimer_turn delayMs o
    | writeAuth message =>
      rw [handle, onWriteAuth]
      split <;> exact .authWritten _ _ _ _
    | close => exact .closed o
    | fetchNips parsedRelay =>
      rw [handle, onSupportedNips]
      split
      · next hs => exact .noNips _ _ hs
      · next hs => exact .nips _ _ _ (by simpa using hs)

/-! ## The members a handler changes -/

/-- What a handler does to the members that every run depends on. -/
structure Members (item : Item SessionCall AsyncOp Outcome) (s s' : RelaySession) : Prop where
  relayUrl : s'.relayUrl = s.relayUrl
  hexPubkey : s'.hexPubkey = s.hexPubkey
  ws : s'.ws = s.ws
  authKey : s'.authKey =
    match item with
    | .call (.setAuthKey authKey) => authKey
    | _ => s.authKey
  stopped : s'.stopped =
    match item with
    | .call .start => false
    | .call .stop => true
    | _ => s.stopped
  readBuffer : s'.readBuffer = s.readBuffer ∨ s'.readBuffer = []

/-- Only `Start` makes a stopped session run again. -/
theorem Members.stays_stopped {item : Item SessionCall AsyncOp Outcome} {s s' : RelaySession}
    (h : Members item s s') (hstart : item ≠ .call .start) (hs : s.stopped = true) : s'.stopped = true := by
  rw [h.stopped]
  split
  · exact absurd rfl hstart
  · rfl
  · exact hs

theorem markError_members (op : AsyncOp) (o : Outcome) (where_ ec : Str) :
    Members (.completion op o) s (s.markError pf m where_ ec).1 := by
  obtain ⟨n, h⟩ : ∃ n, (s.markError pf m where_ ec).1 = { s with reconnectAttempt := n } :=
    markError_fst where_ ec
  rw [h]
  exact ⟨rfl, rfl, rfl, rfl, rfl, Or.inl rfl⟩

theorem handle_members (pf : Platform) (m : Moment) (s : RelaySession)
    (item : Item SessionCall AsyncOp Outcome) : Members item s (s.handle pf m item).1 := by
  have h : Turn pf m s item (s.handle pf m item) := handle_turn item
  generalize s.handle pf m item = result at h ⊢
  cases h with
  | fail op o ec => exact markError_members op o _ ec
  | failSni o ec => exact markError_members .connect o _ ec
  | stopOpen | stopClosed | read | reconnect => exact ⟨rfl, rfl, rfl, rfl, rfl, Or.inr rfl⟩
  | _ => exact ⟨rfl, rfl, rfl, rfl, rfl, Or.inl rfl⟩

theorem deliver_target (s : RelaySession) (op : AsyncOp) (o : Outcome) :
    (s.deliver op o).relayUrl = s.relayUrl ∧ (s.deliver op o).hexPubkey = s.hexPubkey ∧
      (s.deliver op o).authKey = s.authKey ∧ (s.deliver op o).stopped = s.stopped := by
  cases op <;> exact ⟨rfl, rfl, rfl, rfl⟩

/-! ## The relay it writes to -/

/-- An effect that calls the store does so for one relay. -/
def WritesTo (relayUrl : Str) : Effect → Prop
  | .stats op => op.relayUrl? = some relayUrl
  | _ => True

theorem markError_writesTo (where_ ec : Str) :
    ∀ effect ∈ (s.markError pf m where_ ec).2, WritesTo s.relayUrl effect := by
  intro effect h
  rcases mem_markError h with rfl | ⟨_, _, rfl⟩ | rfl | ⟨_, rfl⟩
  · rfl
  · trivial
  · trivial
  · trivial

theorem mem_onAuthChallenge {challenge : Str} {effect : Effect}
    (h : effect ∈ s.onAuthChallenge pf m challenge) :
    (∃ level message, effect = .log level message) ∨ effect = .throws ∨
      ∃ message, effect = .start (.writeAuth message) := by
  have hlog : ∀ level message, (∃ l t, Effect.log level message = .log l t) := fun l t => ⟨l, t, rfl⟩
  rw [onAuthChallenge] at h
  split at h
  · exact Or.inl ⟨_, _, List.mem_singleton.mp h⟩
  · dsimp only at h
    split at h
    · simp only [List.mem_cons, List.not_mem_nil, or_false] at h
      rcases h with rfl | rfl
      · exact Or.inl (hlog _ _)
      · exact Or.inr (Or.inl rfl)
    · split at h
      · simp only [List.mem_cons, List.not_mem_nil, or_false] at h
        rcases h with rfl | rfl <;> exact Or.inl (hlog _ _)
      · split at h
        · simp only [List.mem_cons, List.not_mem_nil, or_false] at h
          rcases h with rfl | rfl <;> exact Or.inl (hlog _ _)
        · split at h <;> simp only [List.mem_cons, List.not_mem_nil, or_false] at h <;>
            rcases h with rfl | rfl
          · exact Or.inl (hlog _ _)
          · exact Or.inr (Or.inl rfl)
          · exact Or.inl (hlog _ _)
          · exact Or.inr (Or.inr ⟨_, rfl⟩)

theorem mem_handleMessage {payload : Str} {effect : Effect}
    (h : effect ∈ s.handleMessage pf m payload) :
    (∃ level message, effect = .log level message) ∨ effect = .throws ∨
      (∃ message, effect = .start (.writeAuth message)) ∨
      ∃ op, effect = .stats op ∧ op.relayUrl? = some s.relayUrl := by
  rw [handleMessage] at h
  split at h
  · exact (mem_onAuthChallenge h).imp id (Or.imp id Or.inl)
  · exact Or.inr (Or.inr (Or.inr ⟨_, List.mem_singleton.mp h, rfl⟩))
  · simp only [List.mem_cons, List.not_mem_nil, or_false] at h
    rcases h with rfl | rfl
    · exact Or.inr (Or.inr (Or.inr ⟨_, rfl, rfl⟩))
    · exact Or.inl ⟨_, _, rfl⟩
  · cases h

theorem handleMessage_starts (payload : Str) :
    ∀ op ∈ (s.handleMessage pf m payload).filterMap Effect.starts, ∃ message, op = .writeAuth message := by
  intro op hop
  obtain ⟨effect, heffect, hstarts⟩ := List.mem_filterMap.mp hop
  rcases mem_handleMessage heffect with ⟨_, _, rfl⟩ | rfl | ⟨message, rfl⟩ | ⟨_, rfl, -⟩
  · cases hstarts
  · cases hstarts
  · exact ⟨message, (Option.some.inj hstarts).symm⟩
  · cases hstarts

theorem handleMessage_writesTo (payload : Str) :
    ∀ effect ∈ s.handleMessage pf m payload, WritesTo s.relayUrl effect := by
  intro effect h
  rcases mem_handleMessage h with ⟨_, _, rfl⟩ | rfl | ⟨_, rfl⟩ | ⟨_, rfl, hop⟩
  · trivial
  · trivial
  · trivial
  · exact hop

theorem handle_writesTo (item : Item SessionCall AsyncOp Outcome) :
    ∀ effect ∈ (s.handle pf m item).2, WritesTo s.relayUrl effect := by
  have h : Turn pf m s item (s.handle pf m item) := handle_turn item
  generalize s.handle pf m item = result at h ⊢
  cases h with
  | fail => exact markError_writesTo _ _
  | failSni => exact List.forall_mem_cons.mpr ⟨trivial, markError_writesTo _ _⟩
  | read o next hec hnext =>
    refine List.forall_mem_append.mpr ⟨handleMessage_writesTo _, ?_⟩
    rw [hnext]
    split <;> simp [WritesTo]
  | subscribed host target o text last hec hlast =>
    rw [hlast]
    split <;> simp [WritesTo, StatsOp.relayUrl?, setStatus]
  | _ => simp [WritesTo, StatsOp.relayUrl?, setStatus, startResolve]

/-- A completion past the strand is that of the close, or of a failed NIP-11 request. -/
theorem direct_cases {op : AsyncOp} {o : Outcome} {effects : List Effect}
    (h : s.direct pf op o = some effects) :
    (op = .close ∧ effects = [s.setStatus .disconnected]) ∨ ∃ message, effects = [s.warn message] := by
  cases op with
  | close => exact Or.inl ⟨rfl, (Option.some.inj h).symm⟩
  | fetchNips parsedRelay =>
    rw [direct, fetchRelaySupportedNips] at h
    cases hsni : o.sniError with
    | some sniEc =>
      rw [hsni] at h
      exact Or.inr ⟨_, (Option.some.inj h).symm⟩
    | none =>
      cases hec : o.ec with
      | some what =>
        rw [hsni, hec] at h
        exact Or.inr ⟨_, (Option.some.inj h).symm⟩
      | none =>
        rw [hsni, hec] at h
        cases h
  | _ => cases h

theorem direct_writesTo {op : AsyncOp} {o : Outcome} {effects : List Effect}
    (h : s.direct pf op o = some effects) :
    ∀ effect ∈ effects, WritesTo s.relayUrl effect ∧ effect.starts = none := by
  rcases direct_cases h with ⟨-, rfl⟩ | ⟨message, rfl⟩
  · simp [WritesTo, StatsOp.relayUrl?, setStatus, Effect.starts]
  · simp [WritesTo, warn, Effect.starts]

/-! ## The operations it starts -/

/-- Which operations the handler of an item may start. -/
inductive Successor (s : RelaySession) : Item SessionCall AsyncOp Outcome → AsyncOp → Prop
  | resolve :
    Successor s (.call .start) (.resolve s.restarted.parsedRelay.host s.restarted.parsedRelay.port)
  | close : s.wsConnected = true → Successor s (.call .stop) .close
  | reconnectWait (op : AsyncOp) (o : Outcome) (delayMs : UInt32) : op.advances = true →
    Successor s (.completion op o) (.reconnectWait delayMs)
  | connect (host port : Str) (o : Outcome) : o.ec = none →
    Successor s (.completion (.resolve host port) o) .connect
  | tlsHandshake (o : Outcome) : o.ec = none → o.sniError = none →
    Successor s (.completion .connect o) .tlsHandshake
  | wsHandshake (o : Outcome) : o.ec = none → Successor s (.completion .tlsHandshake o)
    (.wsHandshake s.parsedRelay.host s.parsedRelay.target)
  | fetchNips (host target : Str) (o : Outcome) : o.ec = none →
    Successor s (.completion (.wsHandshake host target) o) (.fetchNips s.parsedRelay)
  | writeReq (host target message : Str) (o : Outcome) : o.ec = none →
    Successor s (.completion (.wsHandshake host target) o) (.writeReq message)
  | firstRead (message : Str) (o : Outcome) : o.ec = none →
    Successor s (.completion (.writeReq message) o) .read
  | nextRead (o : Outcome) : o.ec = none → s.stopped = false → Successor s (.completion .read o) .read
  | writeAuth (o : Outcome) (message : Str) : o.ec = none →
    Successor s (.completion .read o) (.writeAuth message)
  | resolveAgain (delayMs : UInt32) (o : Outcome) : o.ec = none → s.stopped = false →
    Successor s (.completion (.reconnectWait delayMs) o)
      (.resolve s.parsedRelay.host s.parsedRelay.port)

theorem markError_starts {where_ ec : Str} {op : AsyncOp}
    (h : Effect.start op ∈ (s.markError pf m where_ ec).2) : ∃ delayMs, op = .reconnectWait delayMs := by
  rcases mem_markError h with h | ⟨_, _, h⟩ | h | ⟨delayMs, h⟩
  · cases h
  · cases h
  · cases h
  · exact ⟨delayMs, Effect.start.inj h⟩

theorem handle_successor {item : Item SessionCall AsyncOp Outcome} {op : AsyncOp}
    (hop : Effect.start op ∈ (s.handle pf m item).2) : Successor s item op := by
  have h : Turn pf m s item (s.handle pf m item) := handle_turn item
  generalize s.handle pf m item = result at h hop
  cases h with
  | refuse | stopClosed | setAuthKey | noReconnect | authWritten | closed | noNips | nips =>
    simp [setStatus] at hop
  | start text =>
    obtain rfl : op = _ := by simpa [setStatus, startResolve] using hop
    exact .resolve
  | stopOpen hws =>
    obtain rfl : op = .close := by simpa using hop
    exact .close hws
  | fail op' o ec hadvances =>
    obtain ⟨delayMs, rfl⟩ := markError_starts hop
    exact .reconnectWait op' o delayMs hadvances
  | failSni o ec text =>
    rcases List.mem_cons.mp hop with hop | hop
    · cases hop
    · obtain ⟨delayMs, rfl⟩ := markError_starts hop
      exact .reconnectWait .connect o delayMs rfl
  | resolved host port o text hec =>
    obtain rfl : op = .connect := by simpa [setStatus] using hop
    exact .connect host port o hec
  | connected o text hec hsni =>
    obtain rfl : op = .tlsHandshake := by simpa [setStatus] using hop
    exact .tlsHandshake o hec hsni
  | secured o text hec =>
    obtain rfl : op = _ := by simpa [setStatus] using hop
    exact .wsHandshake o hec
  | subscribed host target o text last hec hlast =>
    have hcases : op = .fetchNips s.parsedRelay ∨ Effect.start op = last := by
      simpa [setStatus] using hop
    rcases hcases with rfl | hcase
    · exact .fetchNips host target o hec
    · rw [hlast] at hcase
      split at hcase
      · obtain rfl := Effect.start.inj hcase
        exact .writeReq host target _ o hec
      · cases hcase
  | requested message o hec =>
    obtain rfl : op = .read := by simpa using hop
    exact .firstRead message o hec
  | read o next hec hnext =>
    rcases List.mem_append.mp hop with hop | hop
    · obtain ⟨message, rfl⟩ := handleMessage_starts _ op (mem_starts.mp hop)
      exact .writeAuth o message hec
    · rw [hnext] at hop
      split at hop
      · cases hop
      · next hgo =>
        rw [not_or, Bool.not_eq_true] at hgo
        obtain rfl := Effect.start.inj (List.mem_singleton.mp hop)
        exact .nextRead o hec hgo.1
  | reconnect delayMs o hec hrunning =>
    obtain rfl : op = _ := by simpa [setStatus, startResolve] using hop
    exact .resolveAgain delayMs o hec hrunning

end RelaySession

theorem react_handler {pf : Platform} {o o' : SessionObject} {e : SessionEvent}
    {item : Item SessionCall AsyncOp Outcome} {effects : List Effect}
    (hitem : handledItem o e = some item)
    (h : (sessionBehaviour pf).react o e = some (o', effects)) : ∃ m rest, e = .run m ∧
      o.queue = item :: rest ∧ effects = (o.data.handle pf m item).2 ∧
      o'.data = (o.data.handle pf m item).1 ∧ o'.queue = rest :=
  react_handled hitem h

/-- An event that runs no handler starts nothing, and changes the read buffer at most. -/
theorem react_without_handler {pf : Platform} {o o' : SessionObject} {e : SessionEvent}
    {effects : List Effect} (hitem : handledItem o e = none)
    (h : (sessionBehaviour pf).react o e = some (o', effects)) :
    effects.filterMap Effect.starts = [] ∧
      ∃ buffer, o'.data = { o.data with readBuffer := buffer } := by
  obtain ⟨heffects, hdata⟩ := react_idle hitem h
  constructor
  · rcases heffects with rfl | ⟨op, outcome, hd⟩
    · rfl
    · refine List.filterMap_eq_nil_iff.mpr fun effect heffect => ?_
      exact (RelaySession.direct_writesTo hd effect heffect).2
  · rcases hdata with heq | ⟨op, outcome, heq⟩
    · exact ⟨o.data.readBuffer, heq⟩
    · rw [heq]
      cases op with
      | read => exact ⟨_, rfl⟩
      | _ => exact ⟨o.data.readBuffer, rfl⟩

end Monitostr.Net
