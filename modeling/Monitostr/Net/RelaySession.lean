import Monitostr.Foundations.Strand
import Monitostr.Model.LogBuffer
import Monitostr.Net.RelaySessionSupport
import Monitostr.Net.RelayTarget
import Monitostr.Nostr.Signer

/-! # `net/relay_session.cpp`

The handlers of a `RelaySession`, as a behaviour on a strand. A handler returns the session after it
and what it did, in order: calls of the shared store and log, operations started and cancelled. The
outcome of an operation carries what the network gave it.
-/

namespace Monitostr.Net
open Foundations Model Nostr
set_option autoImplicit false

/-- The asynchronous operations of a session, with what they are given. -/
inductive AsyncOp
  | resolve (host port : Str)
  | connect
  | tlsHandshake
  | wsHandshake (host target : Str)
  | writeReq (message : Str)
  | read
  | reconnectWait (delayMs : UInt32)
  | writeAuth (message : Str)
  | close
  | fetchNips (parsedRelay : ParsedRelayUrl)
  deriving DecidableEq

/-- What the completion of an operation brings. -/
structure Outcome where
  /-- The message of the error code or exception, if there is one. -/
  ec : Option Str := none
  /-- What a read has put into `read_buffer_`; the body of the NIP-11 response. -/
  payload : Str := []
  /-- The message of the error when `SSL_set_tlsext_host_name` fails after the connect. -/
  sniError : Option Str := none
  deriving DecidableEq

def kOperationAborted : Str := lit "Operation canceled"

/-- What a handler does besides changing the session. -/
inductive Effect
  | stats (op : StatsOp)
  | log (level : LogLevel) (message : Str)
  | start (op : AsyncOp)
  | cancelTimer
  | cancelResolver
  | closeSocket
  /-- An exception leaves the handler. -/
  | throws
  deriving DecidableEq

inductive SessionCall
  | start
  | stop
  | setAuthKey (authKey : Option AuthKey)
  deriving DecidableEq

structure RelaySession where
  relayUrl : Str
  hexPubkey : Str
  /-- Which stream object `ws_` is, the TLS stream in it included. -/
  ws : ℕ := 0
  parsedRelay : ParsedRelayUrl := {}
  readBuffer : Str := []
  stopped : Bool := false
  wsConnected : Bool := false
  authKey : Option AuthKey := none
  reconnectAttempt : ℕ := 0
  reqSentAt : ℕ := 0
  deriving DecidableEq

namespace RelaySession

/-- `RelaySession::RelaySession`. -/
def create (relayUrl hexPubkey : Str) : RelaySession :=
  { relayUrl := relayUrl, hexPubkey := hexPubkey
    parsedRelay := (Net.parseRelayUrl relayUrl).getD {} }

def parseRelayUrl (s : RelaySession) : RelaySession :=
  { s with parsedRelay := (Net.parseRelayUrl s.relayUrl).getD {} }

def tagged (s : RelaySession) (message : Str) : Str :=
  lit "[" ++ s.relayUrl ++ lit "] " ++ message

/-- A call of `SetStatus` for this session's relay. -/
def setStatus (s : RelaySession) (status : RelayStatus) (error : Str := []) : Effect :=
  .stats (.setStatus s.relayUrl status error)

def info (s : RelaySession) (message : Str) : Effect := .log .info (s.tagged message)
def warn (s : RelaySession) (message : Str) : Effect := .log .warn (s.tagged message)
def error (s : RelaySession) (message : Str) : Effect := .log .error (s.tagged message)

variable (pf : Platform)

/-! ## Errors and reconnecting -/

def resetTransportForReconnect (s : RelaySession) : RelaySession × List Effect :=
  ({ s with readBuffer := [], wsConnected := false }, [.cancelResolver, .closeSocket])

/-- `ScheduleReconnect`; `expires_after` cancels a wait that is still pending. -/
def scheduleReconnect (m : Moment) (s : RelaySession) (reason : Str) : RelaySession × List Effect :=
  let s := { s with reconnectAttempt := s.reconnectAttempt + 1 }
  let delayMs :=
    computeReconnectDelayMs pf s.relayUrl s.reconnectAttempt (UInt64.ofNat m.steady)
  (s, [s.warn (lit "reconnect " ++ stdToString s.reconnectAttempt ++ lit "/" ++
      stdToString kMaxReconnectAttempts ++ lit " in " ++ stdToString delayMs.toNat ++
      lit " ms after " ++ reason),
    .cancelTimer, .start (.reconnectWait delayMs)])

def markError (m : Moment) (s : RelaySession) (where_ ec : Str) : RelaySession × List Effect :=
  let text := where_ ++ lit ": " ++ ec
  let effects := [s.setStatus .error text, s.error text]
  if shouldReconnectAttempt s.stopped s.reconnectAttempt where_ then
    let (s, reconnect) := s.scheduleReconnect pf m text
    (s, effects ++ reconnect)
  else (s, effects)

/-! ## Connecting -/

def startResolve (s : RelaySession) : List Effect :=
  [.start (.resolve s.parsedRelay.host s.parsedRelay.port)]

/-- The handler that `Start` dispatches. -/
def onStart (s : RelaySession) : RelaySession × List Effect :=
  let s := { s with stopped := false }
  let s := s.parseRelayUrl
  if s.parsedRelay.host.isEmpty then
    (s, [.cancelTimer, .stats (.ensureRelay s.relayUrl), s.setStatus .error (lit "invalid relay URL"),
      s.error (lit "invalid relay URL")])
  else if !s.parsedRelay.secure then
    (s, [.cancelTimer, .stats (.ensureRelay s.relayUrl),
      s.setStatus .error (lit "unsupported ws:// relay URL"),
      s.warn (lit "ws:// relay URLs are not supported yet; skipping session")])
  else
    (s, [.cancelTimer, s.info (lit "resolving host " ++ s.parsedRelay.host),
      .stats (.ensureRelay s.relayUrl), s.setStatus .resolving] ++ s.startResolve)

/-- The handler that `Stop` dispatches. -/
def onStop (s : RelaySession) : RelaySession × List Effect :=
  let s := { s with stopped := true, readBuffer := [] }
  if s.wsConnected then
    ({ s with wsConnected := false }, [.cancelTimer, .cancelResolver, .start .close])
  else (s, [.cancelTimer, .cancelResolver, .closeSocket, s.setStatus .disconnected])

def onResolve (m : Moment) (s : RelaySession) (o : Outcome) : RelaySession × List Effect :=
  match o.ec with
  | some ec => s.markError pf m (lit "resolve") ec
  | none => (s, [s.info (lit "resolved, connecting..."), s.setStatus .connecting, .start .connect])

def onConnect (m : Moment) (s : RelaySession) (o : Outcome) : RelaySession × List Effect :=
  match o.ec with
  | some ec => s.markError pf m (lit "connect") ec
  | none =>
    let connected := s.info (lit "TCP connected, starting TLS handshake")
    match o.sniError with
    | some sniEc =>
      let (s, effects) := s.markError pf m (lit "set_sni") sniEc
      (s, connected :: effects)
    | none => (s, [connected, s.setStatus .tlsHandshake, .start .tlsHandshake])

def onTlsHandshake (m : Moment) (s : RelaySession) (o : Outcome) : RelaySession × List Effect :=
  match o.ec with
  | some ec => s.markError pf m (lit "tls_handshake") ec
  | none =>
    (s, [s.info (lit "TLS handshake OK, starting WebSocket handshake"), s.setStatus .wsHandshake,
      .start (.wsHandshake s.parsedRelay.host s.parsedRelay.target)])

/-- `OnWsHandshake`: the NIP-11 request goes to the background pool, the REQ to the relay. -/
def onWsHandshake (m : Moment) (s : RelaySession) (o : Outcome) : RelaySession × List Effect :=
  match o.ec with
  | some ec => s.markError pf m (lit "ws_handshake") ec
  | none =>
    let s := { s with reconnectAttempt := 0, wsConnected := true, reqSentAt := m.steady }
    let effects := [s.info (lit "subscribed"), s.setStatus .subscribed, .start (.fetchNips s.parsedRelay)]
    match buildMonitorReqMessage pf s.hexPubkey with
    | some req => (s, effects ++ [.start (.writeReq req)])
    | none => (s, effects ++ [.throws])

/-- `FetchRelaySupportedNips` on the background pool: the NIPs, or what it logs. -/
def fetchRelaySupportedNips (s : RelaySession) (o : Outcome) : Except (List Effect) (List Int32) :=
  match o.sniError, o.ec with
  | some _, _ => .error [s.warn (lit "NIP-11 SNI setup failed")]
  | none, some what => .error [s.warn (lit "NIP-11 fetch failed: " ++ what)]
  | none, none => .ok (parseSupportedNipsFromNip11Body pf o.payload)

/-- The handler posted to the strand with the NIPs. -/
def onSupportedNips (s : RelaySession) (o : Outcome) : RelaySession × List Effect :=
  if s.stopped then (s, [])
  else
    (s, [.stats (.setSupportedNips s.relayUrl (parseSupportedNipsFromNip11Body pf o.payload)),
      s.info (lit "NIP-11 capabilities loaded")])

def onWriteReq (m : Moment) (s : RelaySession) (o : Outcome) : RelaySession × List Effect :=
  match o.ec with
  | some ec => s.markError pf m (lit "write_req") ec
  | none => (s, [.start .read])

/-! ## Messages -/

def onAuthChallenge (m : Moment) (s : RelaySession) (challenge : Str) : List Effect :=
  match s.authKey with
  | none => [s.warn (lit "NIP-42 AUTH challenge received — no private key set; skipping")]
  | some authKey =>
    let received := s.info (lit "NIP-42 AUTH challenge received — signing")
    match buildAuthEvent pf m s.relayUrl challenge authKey.privkeyBytes with
    | none => [received, .throws]
    | some eventJson =>
      if eventJson.isEmpty then [received, s.error (lit "NIP-42 AUTH signing failed")]
      else
        match pf.parseJson eventJson with
        | none => [received, s.error (lit "NIP-42 AUTH event JSON is malformed")]
        | some parsedEvent =>
          match pf.dumpJson (.array [.string (lit "AUTH"), parsedEvent]) with
          | none => [received, .throws]
          | some message => [received, .start (.writeAuth message)]

def handleMessage (m : Moment) (s : RelaySession) (payload : Str) : List Effect :=
  match parseRelayMessageEffect pf payload with
  | .authChallenge challenge => s.onAuthChallenge pf m challenge
  | .eventCount => [.stats (.incrementEvent s.relayUrl)]
  | .endOfStoredEvents =>
    let elapsedMs := ((m.steady : ℤ) - s.reqSentAt).tdiv 1000000
    [.stats (.recordLatency s.relayUrl elapsedMs),
      s.info (lit "EOSE received in " ++ stdToStringInt elapsedMs ++ lit " ms")]
  | .ignore => []

/-- `OnRead`. An exception in `HandleMessage` skips the next read. -/
def onRead (m : Moment) (s : RelaySession) (o : Outcome) : RelaySession × List Effect :=
  match o.ec with
  | some ec => s.markError pf m (lit "read") ec
  | none =>
    let payload := s.readBuffer
    let s := { s with readBuffer := [] }
    let effects := s.handleMessage pf m payload
    if s.stopped ∨ Effect.throws ∈ effects then (s, effects) else (s, effects ++ [.start .read])

/-- The handler of the AUTH write. -/
def onWriteAuth (s : RelaySession) (o : Outcome) : RelaySession × List Effect :=
  match o.ec with
  | some ec => (s, [s.error (lit "NIP-42 AUTH write failed: " ++ ec)])
  | none => (s, [s.info (lit "NIP-42 AUTH sent")])

/-- The handler of the reconnect timer. -/
def onReconnectTimer (s : RelaySession) (o : Outcome) : RelaySession × List Effect :=
  if o.ec.isSome ∨ s.stopped then (s, [])
  else
    let (s, effects) := s.resetTransportForReconnect
    (s, effects ++ [s.setStatus .resolving] ++ s.startResolve)

/-! ## The behaviour -/

def handle (m : Moment) (s : RelaySession) :
    Item SessionCall AsyncOp Outcome → RelaySession × List Effect
  | .call .start => s.onStart
  | .call .stop => s.onStop
  | .call (.setAuthKey authKey) => ({ s with authKey := authKey }, [])
  | .completion (.resolve _ _) o => s.onResolve pf m o
  | .completion .connect o => s.onConnect pf m o
  | .completion .tlsHandshake o => s.onTlsHandshake pf m o
  | .completion (.wsHandshake _ _) o => s.onWsHandshake pf m o
  | .completion (.writeReq _) o => s.onWriteReq pf m o
  | .completion .read o => s.onRead pf m o
  | .completion (.reconnectWait _) o => s.onReconnectTimer o
  | .completion (.writeAuth _) o => s.onWriteAuth o
  | .completion .close _ => (s, [s.setStatus .disconnected])
  | .completion (.fetchNips _) o => s.onSupportedNips pf o

/-- A read fills `read_buffer_`. -/
def deliver (s : RelaySession) (op : AsyncOp) (o : Outcome) : RelaySession :=
  match op with
  | .read => { s with readBuffer := s.readBuffer ++ o.payload }
  | _ => s

/-- The handler of `async_close` is not bound to the strand, and a failed NIP-11 request posts
nothing to it. -/
def direct (s : RelaySession) (op : AsyncOp) (o : Outcome) : Option (List Effect) :=
  match op with
  | .close => some [s.setStatus .disconnected]
  | .fetchNips _ =>
    match s.fetchRelaySupportedNips pf o with
    | .error effects => some effects
    | .ok _ => none
  | _ => none

end RelaySession

def AsyncOp.onSocket : AsyncOp → Bool
  | .connect | .tlsHandshake | .wsHandshake _ _ | .writeReq _ | .read | .writeAuth _ | .close => true
  | .resolve _ _ | .reconnectWait _ | .fetchNips _ => false

def Effect.starts : Effect → Option AsyncOp
  | .start op => some op
  | _ => none

def Effect.cancels : Effect → AsyncOp → Bool
  | .cancelTimer, .reconnectWait _ => true
  | .cancelResolver, .resolve _ _ => true
  | .closeSocket, op => op.onSocket
  | _, _ => false

def sessionBehaviour (pf : Platform) :
    Behaviour RelaySession SessionCall AsyncOp Outcome Moment Effect where
  handle := RelaySession.handle pf
  starts := Effect.starts
  cancels := Effect.cancels
  aborted o := o.ec = some kOperationAborted
  deliver := RelaySession.deliver
  direct := RelaySession.direct pf

abbrev SessionObject := Object RelaySession SessionCall AsyncOp Outcome

abbrev SessionEvent := StrandEvent Moment SessionCall Outcome

end Monitostr.Net
