import Monitostr.Net.BootstrapClient
import Monitostr.Net.SessionSteps

/-! # `net/session_manager.cpp`

`StopAll` forgets the sessions after it has dispatched their `Stop`; the operations and handlers that
are still to come keep them alive. The manager therefore has the sessions of `sessions_`, and those
that it started once and has forgotten.
-/

namespace Monitostr.Net
open Foundations Foundations.Behaviour Model Nostr
set_option autoImplicit false

/-- A public method of a session dispatches its handler onto the strand. -/
def dispatch (method : SessionCall) (session : SessionObject) : SessionObject :=
  { session with queue := session.queue ++ [.call method] }

structure SessionManager where
  sessions : List SessionObject := []
  retired : List SessionObject := []

/-- The sessions of `sessions_`, and the forgotten ones. -/
inductive SessionGroup
  | running
  | retired
  deriving DecidableEq

/-- What happens to a session from inside: the completion of an operation, the next handler. -/
inductive SessionIo
  | finish (op : ℕ) (outcome : Outcome)
  | run

def SessionIo.event (m : Moment) : SessionIo → SessionEvent
  | .finish op outcome => .finish op outcome
  | .run => .run m

namespace SessionManager

def stopAll (manager : SessionManager) : SessionManager × List LogLine :=
  ({ sessions := [], retired := manager.retired ++ manager.sessions.map (dispatch .stop) },
    if !manager.sessions.isEmpty then
      [(.info, lit "Stopping " ++ stdToString manager.sessions.length ++ lit " relay sessions")]
    else [])

/-- A session that has been made, given its key and started. -/
def startedSession (hexPubkey : Str) (authKey : Option AuthKey) (relayUrl : Str) : SessionObject :=
  dispatch .start
    (dispatch (.setAuthKey authKey) { data := RelaySession.create relayUrl hexPubkey })

def start (manager : SessionManager) (relayUrls : List Str) (hexPubkey : Str)
    (authKey : Option AuthKey) : SessionManager × List LogLine :=
  let (manager, stopping) := manager.stopAll
  ({ manager with sessions := relayUrls.map (startedSession hexPubkey authKey) },
    stopping ++ [(.info, lit "Starting relay sessions for " ++ stdToString relayUrls.length ++
      lit " relays")])

def updateAuthKey (manager : SessionManager) (authKey : Option AuthKey) :
    SessionManager × List LogLine :=
  ({ manager with sessions := manager.sessions.map (dispatch (.setAuthKey authKey)) },
    [(.info, lit "NIP-42 auth key updated on " ++ stdToString manager.sessions.length ++
      lit " running sessions")])

def hasActiveSessions (manager : SessionManager) : Bool := !manager.sessions.isEmpty

def react (pf : Platform) (manager : SessionManager) (group : SessionGroup) (i : ℕ)
    (e : SessionEvent) : Option (SessionManager × List Effect) :=
  match group with
  | .running =>
    ((sessionBehaviour pf).reactAt manager.sessions i e).map fun (sessions, effects) =>
      ({ manager with sessions := sessions }, effects)
  | .retired =>
    ((sessionBehaviour pf).reactAt manager.retired i e).map fun (retired, effects) =>
      ({ manager with retired := retired }, effects)

/-- The sessions of a list. -/
def sessionsIn (manager : SessionManager) : SessionGroup → List SessionObject
  | .running => manager.sessions
  | .retired => manager.retired

end SessionManager

/-! ## What a session is for, and the key it is given -/

def SessionCall.assignsKey : SessionCall → Option (Option AuthKey)
  | .setAuthKey authKey => some authKey
  | _ => none

/-- The key a session has once the handlers that are dispatched to it have run. -/
def keyWhenRun (session : SessionObject) : Option AuthKey :=
  settled RelaySession.authKey SessionCall.assignsKey session

/-- Every `SetAuthKey` that was dispatched to the session has run. -/
def KeysRun (session : SessionObject) : Prop :=
  ∀ authKey, Item.call (SessionCall.setAuthKey authKey) ∉ session.queue

variable {pf : Platform}

theorem authKey_isRegister :
    IsRegister RelaySession.authKey SessionCall.assignsKey (sessionBehaviour pf) := by
  constructor
  · intro m s item
    refine (s.handle_members pf m item).authKey.trans ?_
    cases item with
    | call c => cases c <;> rfl
    | completion op o => rfl
  · exact fun s op o => (s.deliver_target op o).2.2.1

theorem keyWhenRun_eq {session : SessionObject} (h : KeysRun session) :
    keyWhenRun session = session.data.authKey := by
  refine settled_eq _ _ fun c hc => ?_
  cases c with
  | setAuthKey authKey => exact absurd hc (h authKey)
  | _ => rfl

theorem keyWhenRun_dispatch (c : SessionCall) (session : SessionObject) :
    keyWhenRun (dispatch c session) = (c.assignsKey).getD (keyWhenRun session) :=
  settled_append _ _ session (.call c)

/-- A session keeps its relay, its pubkey, and the key it has been given. -/
theorem react_target {session session' : SessionObject} {m : Moment} {io : SessionIo}
    {effects : List Effect}
    (h : (sessionBehaviour pf).react session (io.event m) = some (session', effects)) :
    session'.data.relayUrl = session.data.relayUrl ∧
      session'.data.hexPubkey = session.data.hexPubkey ∧
      keyWhenRun session' = keyWhenRun session := by
  have hcall : ∀ c, io.event m ≠ .call c := by
    intro c
    cases io <;> exact nofun
  exact ⟨react_keeps RelaySession.relayUrl (fun m s item => (s.handle_members pf m item).relayUrl)
      (fun s op o => (s.deliver_target op o).1) h,
    react_keeps RelaySession.hexPubkey (fun m s item => (s.handle_members pf m item).hexPubkey)
      (fun s op o => (s.deliver_target op o).2.1) h,
    settled_react authKey_isRegister hcall h⟩

theorem react_writesTo {session session' : SessionObject} {m : Moment} {io : SessionIo}
    {effects : List Effect}
    (h : (sessionBehaviour pf).react session (io.event m) = some (session', effects)) :
    ∀ effect ∈ effects, RelaySession.WritesTo session.data.relayUrl effect := by
  cases io with
  | finish op outcome =>
    obtain ⟨p, -, ⟨-, rfl, -⟩ | ⟨hd, -⟩⟩ := react_finish h
    · simp
    · exact fun effect heffect => (RelaySession.direct_writesTo hd effect heffect).1
  | run =>
    obtain ⟨item, rest, -, rfl, -⟩ := react_run h
    exact RelaySession.handle_writesTo item

end Monitostr.Net
