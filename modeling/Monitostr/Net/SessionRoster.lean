import Monitostr.Net.SessionManager

/-! # Which sessions run

The sessions that the manager has made, in the order in which it made them, are the forgotten ones and
those of `sessions_`. A record of the calls that come into their queues shows that the sessions that have
been started and not stopped are those of the last list, and that no session is forgotten without `Stop`.
-/

namespace Monitostr.Net
open Foundations Foundations.Behaviour Nostr
set_option autoImplicit false

/-- The calls of the manager's methods. -/
inductive ManagerCall
  | start (relayUrls : List Str) (hexPubkey : Str) (authKey : Option AuthKey)
  | updateAuthKey (authKey : Option AuthKey)
  | stopAll

inductive ManagerEvent
  | call (c : ManagerCall)
  | io (group : SessionGroup) (i : ℕ) (m : Moment) (io : SessionIo)

namespace SessionManager

def call (manager : SessionManager) : ManagerCall → SessionManager
  | .start relayUrls hexPubkey authKey => (manager.start relayUrls hexPubkey authKey).1
  | .updateAuthKey authKey => (manager.updateAuthKey authKey).1
  | .stopAll => manager.stopAll.1

def serve (pf : Platform) (manager : SessionManager) :
    ManagerEvent → Option (SessionManager × List Effect)
  | .call c => some (manager.call c, [])
  | .io group i m io => manager.react pf group i (io.event m)

/-- All sessions, in the order in which they were made. -/
def made (manager : SessionManager) : List SessionObject := manager.retired ++ manager.sessions

end SessionManager

/-! ## The calls on the sessions -/

def callsIn (items : List (Item SessionCall AsyncOp Outcome)) : List SessionCall :=
  items.filterMap fun item =>
    match item with
    | .call c => some c
    | .completion _ _ => none

/-- The calls on the sessions after a call of the manager: what has come into their queues is added.
New sessions come last. -/
def addCalls (calls : List (List SessionCall)) (before after : List SessionObject) :
    List (List SessionCall) :=
  List.zipWith (fun calls (pair : SessionObject × SessionObject) =>
      calls ++ callsIn (pair.2.queue.drop pair.1.queue.length)) calls (before.zip after) ++
    (after.drop before.length).map fun session => callsIn session.queue

/-- The list of a call of `Start` with a key for each of its relays, after later calls. -/
def listAfter (list : List (Str × Option AuthKey)) : ManagerCall → List (Str × Option AuthKey)
  | .start relayUrls _ authKey => relayUrls.map fun relayUrl => (relayUrl, authKey)
  | .updateAuthKey authKey => list.map fun entry => (entry.1, authKey)
  | .stopAll => []

structure Roster where
  /-- The calls on each session that was made. -/
  calls : List (List SessionCall) := []
  /-- The last list, with the key of the last `Start` or of a later `UpdateAuthKey`. -/
  list : List (Str × Option AuthKey) := []

def Roster.note (roster : Roster) (manager : SessionManager) (e : ManagerEvent)
    (result : SessionManager × List Effect) : Roster :=
  match e with
  | .call c => { calls := addCalls roster.calls manager.made result.1.made
                 list := listAfter roster.list c }
  | .io _ _ _ _ => roster

theorem addCalls_append {calls₁ calls₂ : List (List SessionCall)}
    {before₁ before₂ after₁ after₂ new : List SessionObject} (hcalls : calls₁.length = before₁.length)
    (hfirst : after₁.length = before₁.length) (hsecond : after₂.length = before₂.length) :
    addCalls (calls₁ ++ calls₂) (before₁ ++ before₂) (after₁ ++ after₂ ++ new) =
      addCalls calls₁ before₁ after₁ ++ addCalls calls₂ before₂ after₂ ++
        new.map fun session => callsIn session.queue := by
  have hlength : (before₁ ++ before₂).length = (after₁ ++ after₂).length := by
    rw [List.length_append, List.length_append, hfirst, hsecond]
  have hzip : (before₁ ++ before₂).zip (after₁ ++ after₂ ++ new) =
      before₁.zip after₁ ++ before₂.zip after₂ := by
    rw [← List.append_nil (before₁ ++ before₂), List.zip_append hlength, List.zip_nil_left,
      List.append_nil, List.zip_append hfirst.symm]
  have hpair : calls₁.length = (before₁.zip after₁).length := by
    rw [List.length_zip, hfirst, Nat.min_self, hcalls]
  rw [addCalls, addCalls, addCalls, hzip, List.zipWith_append hpair, hlength, List.drop_left',
    List.drop_of_length_le hfirst.le, List.drop_of_length_le hsecond.le]
  · simp
  · rfl

theorem addCalls_map {f : SessionObject → SessionObject} {added : List SessionCall}
    (hf : ∀ session, callsIn ((f session).queue.drop session.queue.length) = added)
    {calls : List (List SessionCall)} {sessions : List SessionObject}
    (h : calls.length = sessions.length) :
    addCalls calls sessions (sessions.map f) = calls.map (· ++ added) := by
  rw [addCalls, List.drop_of_length_le (List.length_map f).le, List.map_nil, List.append_nil]
  induction calls generalizing sessions with
  | nil => rfl
  | cons c calls ih =>
    cases sessions with
    | nil => cases h
    | cons session sessions =>
      rw [List.map_cons, List.zip_cons_cons, List.zipWith_cons_cons, hf, List.map_cons,
        ih (Nat.succ.inj h)]

theorem callsIn_dispatch (c : SessionCall) (session : SessionObject) :
    callsIn ((dispatch c session).queue.drop session.queue.length) = [c] := by
  rw [dispatch, List.drop_left]
  rfl

theorem addCalls_same {calls : List (List SessionCall)} {sessions : List SessionObject}
    (h : calls.length = sessions.length) : addCalls calls sessions sessions = calls := by
  have hid : ∀ session : SessionObject,
      callsIn ((id session).queue.drop session.queue.length) = [] := fun session => by
    rw [id, List.drop_length]
    rfl
  have hmap := addCalls_map hid h
  rwa [List.map_id, List.map_congr_left (fun c _ => List.append_nil c), List.map_id'] at hmap

/-! ## Sessions that run, and sessions that are stopped -/

/-- The calls on a session of `sessions_`: its key, `Start`, and later keys. -/
def CallsRunning (calls : List SessionCall) : Prop :=
  ∃ (key : Option AuthKey) (keys : List (Option AuthKey)),
    calls = .setAuthKey key :: .start :: keys.map .setAuthKey

/-- The calls on a forgotten session: after those, `Stop`. -/
def CallsStopped (calls : List SessionCall) : Prop :=
  ∃ running, CallsRunning running ∧ calls = running ++ [.stop]

def SessionCall.assignsStopped : SessionCall → Option Bool
  | .start => some false
  | .stop => some true
  | .setAuthKey _ => none

/-- What `stopped_` is once the handlers that are dispatched to the session have run. -/
def stoppedWhenRun (session : SessionObject) : Bool :=
  settled RelaySession.stopped SessionCall.assignsStopped session

theorem stopped_isRegister (pf : Platform) :
    IsRegister RelaySession.stopped SessionCall.assignsStopped (sessionBehaviour pf) := by
  constructor
  · intro m s item
    refine (s.handle_members pf m item).stopped.trans ?_
    cases item with
    | call c => cases c <;> rfl
    | completion op o => rfl
  · exact fun s op o => (s.deliver_target op o).2.2.2

theorem stoppedWhenRun_dispatch (c : SessionCall) (session : SessionObject) :
    stoppedWhenRun (dispatch c session) = (c.assignsStopped).getD (stoppedWhenRun session) :=
  settled_append _ _ session (.call c)

theorem react_stoppedWhenRun {pf : Platform} {session session' : SessionObject} {m : Moment}
    {io : SessionIo} {effects : List Effect}
    (h : (sessionBehaviour pf).react session (io.event m) = some (session', effects)) :
    stoppedWhenRun session' = stoppedWhenRun session := by
  refine settled_react (stopped_isRegister pf) (fun c => ?_) h
  cases io <;> exact nofun

/-- What a session is for, its key and `stopped_` once its handlers have run. -/
def role (session : SessionObject) : (Str × Option AuthKey) × Bool :=
  ((session.data.relayUrl, keyWhenRun session), stoppedWhenRun session)

theorem role_dispatch (c : SessionCall) (session : SessionObject) :
    role (dispatch c session) =
      ((session.data.relayUrl, (c.assignsKey).getD (keyWhenRun session)),
        (c.assignsStopped).getD (stoppedWhenRun session)) := by
  rw [role, keyWhenRun_dispatch, stoppedWhenRun_dispatch]
  rfl

theorem role_startedSession (hexPubkey : Str) (authKey : Option AuthKey) (relayUrl : Str) :
    role (SessionManager.startedSession hexPubkey authKey relayUrl) =
      ((relayUrl, authKey), false) := by
  rw [SessionManager.startedSession, role_dispatch, keyWhenRun_dispatch]
  rfl

/-- The input and output of a session does not change its role. -/
theorem role_react {pf : Platform} {session session' : SessionObject} {m : Moment} {io : SessionIo}
    {effects : List Effect}
    (h : (sessionBehaviour pf).react session (io.event m) = some (session', effects)) :
    role session' = role session := by
  obtain ⟨hurl, -, hkey⟩ := react_target h
  rw [role, role, hurl, hkey, react_stoppedWhenRun h]

/-- The record splits as the sessions do, and the running sessions are those of the list. -/
structure Accounted (p : SessionManager × Roster) (stopped running : List (List SessionCall)) :
    Prop where
  calls : p.2.calls = stopped ++ running
  retired : stopped.length = p.1.retired.length
  sessions : running.length = p.1.sessions.length
  stopped : ∀ calls ∈ stopped, CallsStopped calls
  running : ∀ calls ∈ running, CallsRunning calls
  ended : ∀ session ∈ p.1.retired, (role session).2 = true
  list : p.1.sessions.map role = p.2.list.map fun entry => (entry, false)

theorem CallsRunning.setAuthKey {calls : List SessionCall} (h : CallsRunning calls)
    (authKey : Option AuthKey) : CallsRunning (calls ++ [.setAuthKey authKey]) := by
  obtain ⟨key, keys, rfl⟩ := h
  exact ⟨key, keys ++ [authKey], by simp⟩

/-- What `StopAll` leaves, before new sessions are made. -/
theorem Accounted.stopAll {p : SessionManager × Roster} {stopped running : List (List SessionCall)}
    (hp : Accounted p stopped running) (new : List SessionObject) :
    addCalls p.2.calls p.1.made
        (p.1.retired ++ p.1.sessions.map (dispatch .stop) ++ new) =
      stopped ++ running.map (· ++ [.stop]) ++ new.map (fun session => callsIn session.queue) ∧
    ∀ calls ∈ stopped ++ running.map (· ++ [.stop]), CallsStopped calls := by
  constructor
  · rw [hp.calls, SessionManager.made, addCalls_append hp.retired rfl (List.length_map _),
      addCalls_same hp.retired, addCalls_map (callsIn_dispatch .stop) hp.sessions]
  · intro calls hcalls
    rcases List.mem_append.mp hcalls with hcalls | hcalls
    · exact hp.stopped calls hcalls
    · obtain ⟨before, hbefore, rfl⟩ := List.mem_map.mp hcalls
      exact ⟨before, hp.running before hbefore, rfl⟩

theorem Accounted.ended_stopAll {p : SessionManager × Roster}
    {stopped running : List (List SessionCall)} (hp : Accounted p stopped running) :
    ∀ session ∈ p.1.retired ++ p.1.sessions.map (dispatch .stop), (role session).2 = true := by
  intro session hsession
  rcases List.mem_append.mp hsession with hsession | hsession
  · exact hp.ended session hsession
  · obtain ⟨before, -, rfl⟩ := List.mem_map.mp hsession
    rw [role_dispatch]
    rfl

/-- A new key takes the place of the old one in each role. -/
theorem roles_setAuthKey {sessions : List SessionObject} {list : List (Str × Option AuthKey)}
    (h : sessions.map role = list.map fun entry => (entry, false)) (authKey : Option AuthKey) :
    (sessions.map (dispatch (.setAuthKey authKey))).map role =
      (list.map fun entry => (entry.1, authKey)).map fun entry => (entry, false) := by
  let withKey (r : (Str × Option AuthKey) × Bool) := ((r.1.1, authKey), r.2)
  have hrole : ∀ session,
      role (dispatch (.setAuthKey authKey) session) = withKey (role session) := fun session => by
    rw [role_dispatch]
    rfl
  calc (sessions.map (dispatch (.setAuthKey authKey))).map role
      = (sessions.map role).map withKey := by
        rw [List.map_map, List.map_map]
        exact List.map_congr_left fun session _ => hrole session
    _ = _ := by
        rw [h, List.map_map, List.map_map]
        rfl

theorem roles_started (hexPubkey : Str) (authKey : Option AuthKey) (relayUrls : List Str) :
    (relayUrls.map (SessionManager.startedSession hexPubkey authKey)).map role =
      (relayUrls.map fun relayUrl => (relayUrl, authKey)).map fun entry => (entry, false) := by
  rw [List.map_map, List.map_map]
  exact List.map_congr_left fun relayUrl _ => role_startedSession hexPubkey authKey relayUrl

theorem Accounted.call {p : SessionManager × Roster} {stopped running : List (List SessionCall)}
    (hp : Accounted p stopped running) (c : ManagerCall) :
    ∃ stopped' running', Accounted (p.1.call c, p.2.note p.1 (.call c) (p.1.call c, []))
      stopped' running' := by
  have hretired : (stopped ++ running.map (· ++ [SessionCall.stop])).length =
      (p.1.retired ++ p.1.sessions.map (dispatch .stop)).length := by
    rw [List.length_append, List.length_append, List.length_map, List.length_map, hp.retired,
      hp.sessions]
  cases c with
  | start relayUrls hexPubkey authKey =>
    obtain ⟨hcalls, hstopped⟩ := hp.stopAll
      (relayUrls.map (SessionManager.startedSession hexPubkey authKey))
    refine ⟨_, relayUrls.map fun _ => [.setAuthKey authKey, .start], ?_, hretired, ?_, hstopped, ?_,
      hp.ended_stopAll, roles_started hexPubkey authKey relayUrls⟩
    · refine hcalls.trans (congrArg _ ?_)
      rw [List.map_map]
      rfl
    · rw [List.length_map]
      exact (List.length_map _).symm
    · intro calls hmem
      obtain ⟨_, -, rfl⟩ := List.mem_map.mp hmem
      exact ⟨authKey, [], rfl⟩
  | updateAuthKey authKey =>
    refine ⟨stopped, running.map (· ++ [.setAuthKey authKey]), ?_, hp.retired, ?_, hp.stopped, ?_,
      hp.ended, roles_setAuthKey hp.list authKey⟩
    · change addCalls p.2.calls (p.1.retired ++ p.1.sessions)
        (p.1.retired ++ p.1.sessions.map (dispatch (.setAuthKey authKey))) = _
      rw [← List.append_nil (p.1.retired ++ p.1.sessions.map (dispatch (.setAuthKey authKey))),
        hp.calls, addCalls_append hp.retired rfl (List.length_map _), addCalls_same hp.retired,
        addCalls_map (callsIn_dispatch (.setAuthKey authKey)) hp.sessions, List.map_nil,
        List.append_nil]
    · exact (List.length_map _).trans (hp.sessions.trans (List.length_map _).symm)
    · intro calls hmem
      obtain ⟨before, hbefore, rfl⟩ := List.mem_map.mp hmem
      exact (hp.running before hbefore).setAuthKey authKey
  | stopAll =>
    obtain ⟨hcalls, hstopped⟩ := hp.stopAll []
    rw [List.append_nil] at hcalls
    refine ⟨_, [], ?_, hretired, rfl, hstopped, fun _ hmem => absurd hmem List.not_mem_nil,
      hp.ended_stopAll, rfl⟩
    change addCalls p.2.calls p.1.made
      ((p.1.retired ++ p.1.sessions.map (dispatch .stop)) ++ []) = _
    rw [List.append_nil]
    exact hcalls

theorem length_reactAt {pf : Platform} {sessions sessions' : List SessionObject} {i : ℕ}
    {e : SessionEvent} {effects : List Effect}
    (h : (sessionBehaviour pf).reactAt sessions i e = some (sessions', effects)) :
    sessions'.length = sessions.length := by
  obtain ⟨o, o', -, -, rfl⟩ := reactAt_eq_some.mp h
  exact List.length_set

theorem map_role_reactAt {pf : Platform} {sessions sessions' : List SessionObject} {i : ℕ}
    {m : Moment} {io : SessionIo} {effects : List Effect}
    (h : (sessionBehaviour pf).reactAt sessions i (io.event m) = some (sessions', effects)) :
    sessions'.map role = sessions.map role :=
  map_reactAt role h fun _ _ hstep => role_react hstep

theorem Accounted.io {pf : Platform} {p : SessionManager × Roster}
    {stopped running : List (List SessionCall)} (hp : Accounted p stopped running)
    {group : SessionGroup} {i : ℕ} {m : Moment} {io : SessionIo} {manager : SessionManager}
    {effects : List Effect} (h : p.1.react pf group i (io.event m) = some (manager, effects)) :
    Accounted (manager, p.2) stopped running := by
  cases group with
  | running =>
    obtain ⟨⟨sessions, effects'⟩, hreact, heq⟩ := Option.map_eq_some_iff.mp h
    obtain ⟨rfl, -⟩ := Prod.mk.inj heq
    exact ⟨hp.calls, hp.retired, hp.sessions.trans (length_reactAt hreact).symm, hp.stopped,
      hp.running, hp.ended, (map_role_reactAt hreact).trans hp.list⟩
  | retired =>
    obtain ⟨⟨retired, effects'⟩, hreact, heq⟩ := Option.map_eq_some_iff.mp h
    obtain ⟨rfl, -⟩ := Prod.mk.inj heq
    refine ⟨hp.calls, hp.retired.trans (length_reactAt hreact).symm, hp.sessions, hp.stopped,
      hp.running, fun session hsession => ?_, hp.list⟩
    have hmem := List.mem_map_of_mem hsession (f := role)
    rw [map_role_reactAt hreact] at hmem
    obtain ⟨before, hbefore, hrole⟩ := List.mem_map.mp hmem
    exact hrole ▸ hp.ended before hbefore

theorem Accounted.serve {pf : Platform} {p q : SessionManager × Roster} {e : ManagerEvent}
    {stopped running : List (List SessionCall)} (hp : Accounted p stopped running)
    (h : watched (SessionManager.serve pf) Roster.note p e = some q) :
    ∃ stopped' running', Accounted q stopped' running' := by
  obtain ⟨manager, roster⟩ := q
  obtain ⟨effects, hserve, hnote⟩ := watched_eq_some.mp h
  obtain rfl : roster = p.2.note p.1 e (manager, effects) := hnote
  cases e with
  | call c =>
    obtain ⟨rfl, rfl⟩ := Prod.mk.inj (Option.some.inj hserve)
    exact hp.call c
  | io group i m io => exact ⟨stopped, running, hp.io hserve⟩

/-! ## The sessions and the list -/

/-- One `Start`, and one `Stop`, which comes after it. -/
def StoppedOnce (calls : List SessionCall) : Prop :=
  ∃ before after, calls = before ++ .start :: after ∧ SessionCall.start ∉ before ++ after ∧
    SessionCall.stop ∉ before ∧ after.count .stop = 1

/-- A session that runs for an entry of the list, with the key of the entry once it has been given it. -/
structure RunsFor (session : SessionObject) (entry : Str × Option AuthKey) : Prop where
  relayUrl : session.data.relayUrl = entry.1
  keyWhenRun : keyWhenRun session = entry.2
  authKey : KeysRun session → session.data.authKey = entry.2
  alive : stoppedWhenRun session = false

structure InOrder (p : SessionManager × Roster) : Prop where
  recorded : p.2.calls.length = p.1.made.length
  /-- Those that were started and not stopped, of all that were made. -/
  running : ((p.1.made.zip p.2.calls).filter fun made =>
      SessionCall.start ∈ made.2 ∧ SessionCall.stop ∉ made.2).map Prod.fst = p.1.sessions
  list : List.Forall₂ RunsFor p.1.sessions p.2.list
  startedOnce : ∀ calls ∈ p.2.calls, calls.count .start = 1
  forgotten : ∀ calls ∈ p.2.calls.take p.1.retired.length, StoppedOnce calls
  ended : ∀ session ∈ p.1.retired, stoppedWhenRun session = true

theorem start_notMem_keys (keys : List (Option AuthKey)) :
    SessionCall.start ∉ keys.map SessionCall.setAuthKey := by
  simp

theorem stop_notMem_keys (keys : List (Option AuthKey)) :
    SessionCall.stop ∉ keys.map SessionCall.setAuthKey := by
  simp

theorem CallsRunning.alive {calls : List SessionCall} (h : CallsRunning calls) :
    SessionCall.start ∈ calls ∧ SessionCall.stop ∉ calls := by
  obtain ⟨key, keys, rfl⟩ := h
  simp

theorem CallsRunning.count_start {calls : List SessionCall} (h : CallsRunning calls) :
    calls.count .start = 1 := by
  obtain ⟨key, keys, rfl⟩ := h
  rw [List.count_cons_of_ne SessionCall.noConfusion, List.count_cons_self,
    List.count_eq_zero_of_not_mem (start_notMem_keys keys)]

theorem CallsStopped.stop_mem {calls : List SessionCall} (h : CallsStopped calls) :
    SessionCall.stop ∈ calls := by
  obtain ⟨running, -, rfl⟩ := h
  exact List.mem_append_right _ (List.mem_singleton_self _)

theorem CallsStopped.count_start {calls : List SessionCall} (h : CallsStopped calls) :
    calls.count .start = 1 := by
  obtain ⟨running, hrunning, rfl⟩ := h
  rw [List.count_append, hrunning.count_start]
  rfl

theorem CallsStopped.stoppedOnce {calls : List SessionCall} (h : CallsStopped calls) :
    StoppedOnce calls := by
  obtain ⟨running, ⟨key, keys, rfl⟩, rfl⟩ := h
  refine ⟨[.setAuthKey key], keys.map .setAuthKey ++ [.stop], rfl, by simp, by simp, ?_⟩
  rw [List.count_append, List.count_eq_zero_of_not_mem (stop_notMem_keys keys)]
  rfl

theorem forall₂_runsFor {sessions : List SessionObject} {list : List (Str × Option AuthKey)}
    (h : sessions.map role = list.map fun entry => (entry, false)) :
    List.Forall₂ RunsFor sessions list := by
  induction sessions generalizing list with
  | nil =>
    cases list with
    | nil => exact .nil
    | cons entry list => cases h
  | cons session sessions ih =>
    cases list with
    | nil => cases h
    | cons entry list =>
      obtain ⟨hrole, hrest⟩ := List.cons.inj h
      obtain ⟨rfl, hstopped⟩ := Prod.mk.inj hrole
      exact .cons ⟨rfl, rfl, fun hrun => (keyWhenRun_eq hrun).symm, hstopped⟩ (ih hrest)

theorem Accounted.inOrder {p : SessionManager × Roster} {stopped running : List (List SessionCall)}
    (hp : Accounted p stopped running) : InOrder p where
  recorded := by
    rw [hp.calls, SessionManager.made, List.length_append, List.length_append, hp.retired,
      hp.sessions]
  running := by
    have hover : ∀ made ∈ p.1.retired.zip stopped,
        ¬ decide (SessionCall.start ∈ made.2 ∧ SessionCall.stop ∉ made.2) = true := by
      intro made hmade hlive
      have hcalls := hp.stopped made.2 (List.of_mem_zip hmade).2
      exact (of_decide_eq_true hlive).2 hcalls.stop_mem
    have halive : ∀ made ∈ p.1.sessions.zip running,
        decide (SessionCall.start ∈ made.2 ∧ SessionCall.stop ∉ made.2) = true := by
      intro made hmade
      exact decide_eq_true (hp.running made.2 (List.of_mem_zip hmade).2).alive
    rw [hp.calls, SessionManager.made, List.zip_append hp.retired.symm, List.filter_append,
      List.filter_eq_nil_iff.mpr hover, List.filter_eq_self.mpr halive, List.nil_append,
      List.map_fst_zip hp.sessions.ge]
  list := forall₂_runsFor hp.list
  startedOnce := by
    rw [hp.calls]
    intro calls hcalls
    rcases List.mem_append.mp hcalls with hcalls | hcalls
    · exact (hp.stopped calls hcalls).count_start
    · exact (hp.running calls hcalls).count_start
  forgotten := by
    rw [hp.calls, ← hp.retired, List.take_left]
    exact fun calls hcalls => (hp.stopped calls hcalls).stoppedOnce
  ended := hp.ended

/-- **Which sessions run.** After every sequence of the manager's calls, with the sessions' handlers between them in
any order: the sessions that have been started and not stopped are those of the last list, in its order and each
with the latest key, and every other session that was made has been stopped once, after its `Start`. -/
theorem sessions_in_order (pf : Platform) (es : List ManagerEvent) :
    Throughout (watched (SessionManager.serve pf) Roster.note) InOrder ({}, {}) es := by
  refine throughout_keeps (I := fun p => ∃ stopped running, Accounted p stopped running)
    (G := fun _ _ => True) ?_ ?_ ?_ (along_of_forall fun _ _ _ => trivial)
  · rintro p e q ⟨stopped, running, hp⟩ - h
    exact hp.serve h
  · rintro p ⟨stopped, running, hp⟩
    exact hp.inOrder
  · exact ⟨[], [], rfl, rfl, rfl, fun _ h => absurd h List.not_mem_nil,
      fun _ h => absurd h List.not_mem_nil, fun _ h => absurd h List.not_mem_nil, rfl⟩

end Monitostr.Net
