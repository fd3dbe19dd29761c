import Monitostr.Foundations.ChainPlace
import Monitostr.Net.SessionChain
import Monitostr.Net.SessionManager

/-! # What the table shows of a session

A session reports its statuses as it goes along its chain of operations. They come in a fixed order, whatever
the network does, and the last of them says which operation is outstanding. `Disconnected`, which `Stop` and the
close handshake report, can come between them at any time, but only once the session has been stopped.
-/

namespace Monitostr.Net
open Foundations Foundations.Behaviour Model
set_option autoImplicit false

/-! ## Reports -/

abbrev History := List (RelayStatus × Str)

/-- A status that is reported, with the text of the error. -/
def Effect.status? : Effect → Option (RelayStatus × Str)
  | .stats (.setStatus _ status error) => some (status, error)
  | _ => none

def statuses (effects : List Effect) : History := effects.filterMap Effect.status?

/-- The statuses of a history but for `Disconnected`: the stages of the connection. -/
def stages (history : History) : History := history.filter fun report => report.1 ≠ .disconnected

/-- A status that is reported, other than `Disconnected`. -/
def Effect.report? : Effect → Option (RelayStatus × Str)
  | .stats (.setStatus _ status error) =>
    if status = .disconnected then none else some (status, error)
  | _ => none

def reports (effects : List Effect) : List (RelayStatus × Str) := effects.filterMap Effect.report?

def sequenceStarts (effects : List Effect) : List AsyncOp :=
  (effects.filterMap Effect.starts).filter AsyncOp.inSequence

theorem stages_append (xs ys : History) : stages (xs ++ ys) = stages xs ++ stages ys := List.filter_append ..

/-- The reports are the stages of all the statuses. -/
theorem stages_statuses (effects : List Effect) : stages (statuses effects) = reports effects := by
  rw [stages, statuses, reports, List.filter_filterMap]
  refine List.filterMap_congr fun effect _ => ?_
  cases effect with
  | stats op =>
    cases op with
    | setStatus relayUrl status error =>
      by_cases hstatus : status = .disconnected <;> simp [Effect.status?, Effect.report?, hstatus]
    | _ => rfl
  | _ => rfl

theorem reports_append (xs ys : List Effect) : reports (xs ++ ys) = reports xs ++ reports ys :=
  List.filterMap_append

theorem sequenceStarts_append (xs ys : List Effect) :
    sequenceStarts (xs ++ ys) = sequenceStarts xs ++ sequenceStarts ys := by
  simp [sequenceStarts]

theorem sequenceStarts_of_count {effects : List Effect} (h : sequenceCount effects = 0) :
    sequenceStarts effects = [] :=
  List.filter_eq_nil_iff.mpr (by simpa using List.countP_eq_zero.mp h)

/-- The status that a session reports when it starts an operation of its chain. The REQ is written and the
messages are read under one status. -/
def AsyncOp.shown : AsyncOp → RelayStatus
  | .resolve _ _ => .resolving
  | .connect => .connecting
  | .tlsHandshake => .tlsHandshake
  | .wsHandshake _ _ => .wsHandshake
  | .writeReq _ | .read => .subscribed
  | .reconnectWait _ => .error
  | .writeAuth _ | .close | .fetchNips _ => .disconnected

/-- The statuses that may come next, before the first of them being `Disconnected`. -/
def statusesAfter : RelayStatus → List RelayStatus
  | .disconnected => [.resolving, .error]
  | .resolving => [.connecting, .error]
  | .connecting => [.tlsHandshake, .error]
  | .tlsHandshake => [.wsHandshake, .error]
  | .wsHandshake => [.subscribed, .error]
  | .subscribed => [.error]
  | .error => [.resolving]

/-! ## The progress that a handler makes -/

variable {pf : Platform} {m : Moment} {s : RelaySession}

/-- A session can go on from `Start`. -/
def RelaySession.Usable (s : RelaySession) : Prop :=
  s.restarted.parsedRelay.host.isEmpty = false ∧ s.restarted.parsedRelay.secure = true

def invalidUrlTexts : List Str := [lit "invalid relay URL", lit "unsupported ws:// relay URL"]

/-- What the handler of an item of the chain reports, and what it starts. -/
inductive Progress (s : RelaySession) (throws : Prop) :
    Item SessionCall AsyncOp Outcome → List (RelayStatus × Str) → List AsyncOp → Prop
  | refuse (text : Str) : ¬ s.Usable → text ∈ invalidUrlTexts →
    Progress s throws (.call .start) [(.error, text)] []
  | start (host port : Str) : s.Usable →
    Progress s throws (.call .start) [(.resolving, [])] [.resolve host port]
  | retry (op : AsyncOp) (o : Outcome) (where_ ec : Str) (delayMs : UInt32) : op.advances = true →
    shouldReconnectAttempt s.stopped s.reconnectAttempt where_ = true →
    Progress s throws (.completion op o) [(.error, where_ ++ lit ": " ++ ec)] [.reconnectWait delayMs]
  | giveUp (op : AsyncOp) (o : Outcome) (where_ ec : Str) : op.advances = true →
    where_ = op.where_ ∨ where_ = lit "set_sni" → o.ec.isSome = true ∨ op = .connect →
    shouldReconnectAttempt s.stopped s.reconnectAttempt where_ = false →
    Progress s throws (.completion op o) [(.error, where_ ++ lit ": " ++ ec)] []
  | next (op next : AsyncOp) (o : Outcome) : o.ec = none → next.shown ∈ statusesAfter op.shown →
    Progress s throws (.completion op o) [(next.shown, [])] [next]
  | noRequest (host target : Str) (o : Outcome) : o.ec = none → throws →
    Progress s throws (.completion (.wsHandshake host target) o) [(.subscribed, [])] []
  | keep (op : AsyncOp) (o : Outcome) : op.shown = .subscribed → o.ec = none →
    Progress s throws (.completion op o) [] [.read]
  | lastRead (o : Outcome) : o.ec = none → s.stopped = true ∨ throws →
    Progress s throws (.completion .read o) [] []
  | noReconnect (delayMs : UInt32) (o : Outcome) : o.ec.isSome = true ∨ s.stopped = true →
    Progress s throws (.completion (.reconnectWait delayMs) o) [] []

theorem reports_markError (where_ ec : Str) :
    reports (s.markError pf m where_ ec).2 = [(.error, where_ ++ lit ": " ++ ec)] := by
  rw [RelaySession.markError]
  dsimp only
  split <;> rfl

theorem sequenceStarts_markError (where_ ec : Str) :
    sequenceStarts (s.markError pf m where_ ec).2 =
      if shouldReconnectAttempt s.stopped s.reconnectAttempt where_ then
        [.reconnectWait (s.reconnectDelay pf m)]
      else [] := by
  split
  · next h => rw [sequenceStarts, (s.markError_of_reconnect pf m ec h).2]; rfl
  · next h =>
    rw [sequenceStarts, (s.markError_of_not_reconnect pf m ec (Bool.eq_false_iff.mpr h)).2]
    rfl

theorem markError_progress {op : AsyncOp} (o : Outcome) {where_ : Str} (ec : Str) (throws : Prop)
    (hop : op.advances = true) (hwhere : where_ = op.where_ ∨ where_ = lit "set_sni")
    (hfailed : o.ec.isSome = true ∨ op = .connect) :
    Progress s throws (.completion op o) (reports (s.markError pf m where_ ec).2)
      (sequenceStarts (s.markError pf m where_ ec).2) := by
  rw [reports_markError, sequenceStarts_markError]
  split
  · next h => exact .retry op o where_ ec _ hop h
  · next h => exact .giveUp op o where_ ec hop hwhere hfailed (Bool.eq_false_iff.mpr h)

theorem reports_handleMessage (payload : Str) : reports (s.handleMessage pf m payload) = [] := by
  rw [RelaySession.handleMessage]
  split
  · next challenge hchallenge =>
    refine List.filterMap_eq_nil_iff.mpr fun effect heffect => ?_
    rcases RelaySession.mem_onAuthChallenge heffect with ⟨_, _, rfl⟩ | rfl | ⟨_, rfl⟩ <;> rfl
  · rfl
  · rfl
  · rfl

/-- An item that is not of the chain. -/
def outside (item : Item SessionCall AsyncOp Outcome) : Bool :=
  !isCompletionOf AsyncOp.inSequence item && !isCallOf SessionCall.begins item

theorem onStart_progress (throws : Prop) :
    Progress s throws (.call .start) (reports s.onStart.2) (sequenceStarts s.onStart.2) := by
  have hrestart : ({ s with stopped := false } : RelaySession).parseRelayUrl = s.restarted := rfl
  rw [RelaySession.onStart, hrestart]
  split
  · next hhost => exact .refuse _ (fun h => by rw [h.1] at hhost; cases hhost) (.head _)
  · next hhost =>
    split
    · next hsecure =>
      exact .refuse _ (fun h => by rw [h.2] at hsecure; cases hsecure) (.tail _ (.head _))
    · next hsecure =>
      refine .start _ _ ⟨by rwa [Bool.not_eq_true] at hhost, ?_⟩
      rwa [Bool.not_eq_true', Bool.not_eq_false] at hsecure

variable (pf m) in
theorem RelaySession.handle_progress (s : RelaySession) (item : Item SessionCall AsyncOp Outcome) :
    (outside item = false ∧
      Progress s (Effect.throws ∈ (s.handle pf m item).2) item (reports (s.handle pf m item).2)
        (sequenceStarts (s.handle pf m item).2)) ∨
    (outside item = true ∧ reports (s.handle pf m item).2 = [] ∧
      sequenceStarts (s.handle pf m item).2 = []) := by
  have h : RelaySession.Turn pf m s item (s.handle pf m item) := RelaySession.handle_turn item
  by_cases hitem : item = .call .start
  · subst hitem
    exact Or.inl ⟨rfl, onStart_progress _⟩
  generalize s.handle pf m item = result at h ⊢
  cases h with
  | refuse | start => exact absurd rfl hitem
  | stopOpen | stopClosed | setAuthKey | authWritten | closed | noNips | nips =>
    exact Or.inr ⟨rfl, rfl, rfl⟩
  | fail op o ec hop hec =>
    refine Or.inl ⟨?_, markError_progress o ec _ hop (Or.inl rfl) (Or.inl (by rw [hec]; rfl))⟩
    cases op <;> first | rfl | cases hop
  | failSni o ec text hec hsni =>
    exact Or.inl ⟨rfl, markError_progress o ec _ rfl (Or.inr rfl) (Or.inr rfl)⟩
  | resolved host port o text hec => exact Or.inl ⟨rfl, .next _ .connect o hec (.head _)⟩
  | connected o text hec hsni => exact Or.inl ⟨rfl, .next _ .tlsHandshake o hec (.head _)⟩
  | secured o text hec => exact Or.inl ⟨rfl, .next _ (.wsHandshake _ _) o hec (.head _)⟩
  | subscribed host target o text last hec hlast =>
    refine Or.inl ⟨rfl, ?_⟩
    rw [hlast]
    split
    · next req hreq => exact .next _ (.writeReq req) o hec (.head _)
    · next hreq => exact .noRequest host target o hec (by simp)
  | requested message o hec => exact Or.inl ⟨rfl, .keep _ o rfl hec⟩
  | read o next hec hnext =>
    refine Or.inl ⟨rfl, ?_⟩
    rw [reports_append, sequenceStarts_append, reports_handleMessage,
      sequenceStarts_of_count (handleMessage_sequenceCount _), hnext]
    split
    · next hlast =>
      exact .lastRead o hec (hlast.imp id fun h => List.mem_append_left _ h)
    · exact .keep .read o rfl hec
  | noReconnect delayMs o hno => exact Or.inl ⟨rfl, .noReconnect delayMs o hno⟩
  | reconnect delayMs o hec hrunning =>
    exact Or.inl ⟨rfl, .next _ (.resolve _ _) o hec (.head _)⟩

theorem reports_direct {op : AsyncOp} {o : Outcome} {effects : List Effect}
    (h : s.direct pf op o = some effects) : reports effects = [] ∧ op.inSequence = false := by
  refine ⟨?_, ?_⟩
  · rcases RelaySession.direct_cases h with ⟨-, rfl⟩ | ⟨message, rfl⟩ <;> rfl
  · cases op <;> first | rfl | cases h

/-! ## The history of a session -/

def noteReports (history : History) (_ : SessionObject) (_ : SessionEvent)
    (result : SessionObject × List Effect) : History :=
  history ++ reports result.2

/-- All statuses are kept. -/
def noteStatuses (history : History) (_ : SessionObject) (_ : SessionEvent)
    (result : SessionObject × List Effect) : History :=
  history ++ statuses result.2

theorem watched_stages {p q : SessionObject × History} {e : SessionEvent}
    (h : watched (sessionBehaviour pf).react noteStatuses p e = some q) :
    watched (sessionBehaviour pf).react noteReports (p.1, stages p.2) e = some (q.1, stages q.2) := by
  obtain ⟨effects, hreact, hnote⟩ := watched_eq_some.mp h
  refine watched_eq_some.mpr ⟨effects, hreact, ?_⟩
  change stages q.2 = stages p.2 ++ reports effects
  rw [hnote, noteStatuses, stages_append, stages_statuses]

def lastShown (history : History) : RelayStatus :=
  (history.getLast?.map Prod.fst).getD .disconnected

def LegalHistory (history : History) : Prop :=
  (.disconnected :: history.map Prod.fst).IsChain fun before after => after ∈ statusesAfter before

theorem lastShown_concat (history : History) (report : RelayStatus × Str) :
    lastShown (history ++ [report]) = report.1 := by
  simp [lastShown]

theorem LegalHistory.concat {history : History} {report : RelayStatus × Str}
    (h : LegalHistory history) (hnext : report.1 ∈ statusesAfter (lastShown history)) :
    LegalHistory (history ++ [report]) := by
  have hlast : (RelayStatus.disconnected :: history.map Prod.fst).getLast? =
      some (lastShown history) := by
    rw [List.getLast?_cons, List.getLast?_map]
    rfl
  rw [LegalHistory, List.map_append, ← List.cons_append]
  refine List.isChain_append.mpr ⟨h, .singleton _, ?_⟩
  rw [hlast]
  simpa using hnext

/-- The place that a session is in, as its history shows it. -/
def ShownAt (history : History) : Place AsyncOp → Prop
  | .ahead => history = []
  | .busy op => lastShown history = op.shown
  | .spent => True

/-- A session that is started once, its history, and its place in the chain. -/
structure OnCourse (p : SessionObject × History) (place : Place AsyncOp) : Prop where
  once : StartedOnce p.1
  isAt : IsAt SessionCall.begins AsyncOp.inSequence p.1 place
  legal : LegalHistory p.2
  shown : ShownAt p.2 place

/-- An operation that fails or is followed by another is shown under a status that allows it. -/
theorem error_mem_statusesAfter {op : AsyncOp} (h : op.advances = true) :
    RelayStatus.error ∈ statusesAfter op.shown := by
  cases op <;> simp [AsyncOp.advances, AsyncOp.shown, statusesAfter] at h ⊢

theorem Progress.legal {throws : Prop} {item : Item SessionCall AsyncOp Outcome} {history : History}
    {place : Place AsyncOp} {reported : List (RelayStatus × Str)} {started : List AsyncOp}
    (h : Progress s throws item reported started)
    (hleaves : Leaves SessionCall.begins AsyncOp.inSequence item place)
    (hlegal : LegalHistory history) (hshown : ShownAt history place) :
    LegalHistory (history ++ reported) ∧ ShownAt (history ++ reported) (.ofStarted started) := by
  cases h with
  | refuse text =>
    obtain ⟨-, rfl⟩ := hleaves
    obtain rfl : history = [] := hshown
    exact ⟨hlegal.concat (.tail _ (.head _)), trivial⟩
  | start host port =>
    obtain ⟨-, rfl⟩ := hleaves
    obtain rfl : history = [] := hshown
    exact ⟨hlegal.concat (.head _), rfl⟩
  | retry op o where_ ec delayMs hop =>
    obtain ⟨-, rfl⟩ := hleaves
    have hlast : lastShown history = op.shown := hshown
    exact ⟨hlegal.concat (by rw [hlast]; exact error_mem_statusesAfter hop), lastShown_concat _ _⟩
  | giveUp op o where_ ec hop =>
    obtain ⟨-, rfl⟩ := hleaves
    have hlast : lastShown history = op.shown := hshown
    exact ⟨hlegal.concat (by rw [hlast]; exact error_mem_statusesAfter hop), trivial⟩
  | next op next o hec hnext =>
    obtain ⟨-, rfl⟩ := hleaves
    have hlast : lastShown history = op.shown := hshown
    exact ⟨hlegal.concat (by rw [hlast]; exact hnext), lastShown_concat _ _⟩
  | noRequest host target o =>
    obtain ⟨-, rfl⟩ := hleaves
    have hlast : lastShown history = .wsHandshake := hshown
    exact ⟨hlegal.concat (by rw [hlast]; exact .head _), trivial⟩
  | keep op o hop =>
    obtain ⟨-, rfl⟩ := hleaves
    rw [List.append_nil]
    exact ⟨hlegal, Eq.trans hshown hop⟩
  | lastRead | noReconnect =>
    rw [List.append_nil]
    exact ⟨hlegal, trivial⟩

/-- An event that keeps the place reports nothing. -/
theorem reports_of_stays {o o' : SessionObject} {e : SessionEvent} {effects : List Effect}
    (hreact : (sessionBehaviour pf).react o e = some (o', effects))
    (hitem : ∀ item, handledItem o e = some item → isCompletionOf AsyncOp.inSequence item = false ∧
      isCallOf SessionCall.begins item = false) : reports effects = [] := by
  cases hhandled : handledItem o e with
  | none =>
    rcases (react_idle hhandled hreact).1 with rfl | ⟨op, outcome, hd⟩
    · rfl
    · exact (reports_direct hd).1
  | some item =>
    obtain ⟨m, rest, -, -, rfl, -, -⟩ := react_handler hhandled hreact
    obtain ⟨hcompletion, hcall⟩ := hitem item hhandled
    rcases RelaySession.handle_progress pf m o.data item with ⟨hinside, -⟩ | ⟨-, hnone, -⟩
    · rw [outside, hcompletion, hcall] at hinside
      cases hinside
    · exact hnone

theorem outside_of_leaves {item : Item SessionCall AsyncOp Outcome} {place : Place AsyncOp}
    (h : Leaves SessionCall.begins AsyncOp.inSequence item place) : outside item = false := by
  cases item with
  | call c => simp [outside, isCompletionOf, isCallOf, h.1]
  | completion op o => simp [outside, isCompletionOf, isCallOf, h.1]

/-- The session keeps its course: an event leaves the place and the history alone, or it is the handler of
what is there, with the progress that it makes. -/
theorem OnCourse.step {p q : SessionObject × History} {place : Place AsyncOp} {e : SessionEvent}
    (hp : OnCourse p place) (he : isCallEvent SessionCall.begins e = false)
    (h : watched (sessionBehaviour pf).react noteReports p e = some q) :
    (OnCourse q place ∧ q.2 = p.2 ∧ ∀ item, handledItem p.1 e = some item → outside item = true) ∨
      ∃ m item rest, e = .run m ∧ p.1.queue = item :: rest ∧
        q.1.data = (p.1.data.handle pf m item).1 ∧
        q.2 = p.2 ++ reports (p.1.data.handle pf m item).2 ∧
        Leaves SessionCall.begins AsyncOp.inSequence item place ∧
        Progress p.1.data (Effect.throws ∈ (p.1.data.handle pf m item).2) item
          (reports (p.1.data.handle pf m item).2) (sequenceStarts (p.1.data.handle pf m item).2) ∧
        OnCourse q (.ofStarted (sequenceStarts (p.1.data.handle pf m item).2)) := by
  obtain ⟨effects, hreact, hnote⟩ := watched_eq_some.mp h
  have hnote : q.2 = p.2 ++ reports effects := hnote
  obtain ⟨place', hplace, hmoved⟩ := hp.isAt.react (session_chained pf)
    (fun s op outcome effects hd => (reports_direct hd).2) he hreact
  have honce : StartedOnce q.1 := hp.once.react he hreact
  cases hmoved with
  | stays hnone hitem =>
    rw [reports_of_stays hreact hitem, List.append_nil] at hnote
    refine Or.inl ⟨⟨honce, hplace, hnote ▸ hp.legal, hnote ▸ hp.shown⟩, hnote, fun item hi => ?_⟩
    obtain ⟨hcompletion, hcall⟩ := hitem item hi
    rw [outside, hcompletion, hcall]
    rfl
  | leaves m item rest hrun hqueue heffects hdata hleaves =>
    rcases RelaySession.handle_progress pf m p.1.data item with ⟨-, hprogress⟩ | ⟨houtside, -⟩
    · obtain ⟨hlegal, hshown⟩ := hprogress.legal hleaves hp.legal hp.shown
      subst heffects
      exact Or.inr ⟨m, item, rest, hrun, hqueue, hdata, hnote, hleaves, hprogress, honce, hplace,
        hnote ▸ hlegal, hnote ▸ hshown⟩
    · rw [outside_of_leaves hleaves] at houtside
      cases houtside

theorem onCourse_started (hexPubkey : Str) (authKey : Option Nostr.AuthKey) (relayUrl : Str) :
    OnCourse (SessionManager.startedSession hexPubkey authKey relayUrl, []) .ahead where
  once := ⟨.waiting [authKey] [] (by simp [NoStart]), Nat.le_refl 1⟩
  isAt := ⟨rfl, rfl⟩
  legal := .singleton _
  shown := rfl

/-! ## `Disconnected` -/

/-- A report of `Disconnected`. -/
def Effect.disconnects : Effect → Bool
  | .stats (.setStatus _ status _) => status = .disconnected
  | _ => false

theorem disconnects_of_status {effect : Effect} {report : RelayStatus × Str}
    (h : effect.status? = some report) (hreport : report.1 = .disconnected) : effect.disconnects = true := by
  cases effect with
  | stats op =>
    cases op with
    | setStatus relayUrl status error =>
      obtain rfl := Option.some.inj h
      exact decide_eq_true hreport
    | _ => cases h
  | _ => cases h

def AsyncOp.isClose : AsyncOp → Bool
  | .close => true
  | _ => false

theorem markError_stays (where_ ec : Str) :
    ∀ effect ∈ (s.markError pf m where_ ec).2, effect.disconnects = false := by
  intro effect h
  rcases RelaySession.mem_markError h with rfl | ⟨_, _, rfl⟩ | rfl | ⟨_, rfl⟩ <;> rfl

theorem handleMessage_stays (payload : Str) :
    ∀ effect ∈ s.handleMessage pf m payload, effect.disconnects = false := by
  rw [RelaySession.handleMessage]
  split
  · intro effect heffect
    rcases RelaySession.mem_onAuthChallenge heffect with ⟨_, _, rfl⟩ | rfl | ⟨_, rfl⟩ <;> rfl
  · simp [Effect.disconnects]
  · simp [Effect.disconnects, RelaySession.info]
  · simp

/-- Only `Stop` and the close report `Disconnected`. -/
theorem handle_stays {item : Item SessionCall AsyncOp Outcome} (hstop : item ≠ .call .stop)
    (hclose : isCompletionOf AsyncOp.isClose item = false) :
    ∀ effect ∈ (s.handle pf m item).2, effect.disconnects = false := by
  have h : RelaySession.Turn pf m s item (s.handle pf m item) := RelaySession.handle_turn item
  generalize s.handle pf m item = result at h ⊢
  cases h with
  | stopOpen | stopClosed => exact absurd rfl hstop
  | closed => cases hclose
  | fail => exact markError_stays _ _
  | failSni => exact List.forall_mem_cons.mpr ⟨rfl, markError_stays _ _⟩
  | subscribed host target o text last hec hlast =>
    rw [hlast]
    split <;> simp [Effect.disconnects, RelaySession.setStatus]
  | read o next hec hnext =>
    refine List.forall_mem_append.mpr ⟨handleMessage_stays _, ?_⟩
    rw [hnext]
    split <;> simp [Effect.disconnects]
  | _ => simp [Effect.disconnects, RelaySession.setStatus, RelaySession.startResolve]

/-- As long as no `Stop` is handled, no close is under way and `Disconnected` is not reported. -/
theorem stays_react {session session' : SessionObject} {e : SessionEvent} {effects : List Effect}
    (hstop : handledItem session e ≠ some (.call .stop))
    (hclose : outstandingOps AsyncOp.isClose session = [])
    (h : (sessionBehaviour pf).react session e = some (session', effects)) :
    outstandingOps AsyncOp.isClose session' = [] ∧ ∀ effect ∈ effects, effect.disconnects = false := by
  constructor
  · refine List.eq_nil_iff_forall_not_mem.mpr fun op hop => ?_
    have hkind := (List.mem_filter.mp hop).2
    rcases (mem_outstandingOps_react h).1 hop with hold | hstarted
    · rw [hclose] at hold
      cases hold
    · cases hitem : handledItem session e with
      | none =>
        rw [sessionBehaviour, (react_without_handler hitem h).1] at hstarted
        cases hstarted
      | some item =>
        obtain ⟨m, rest, -, hq, rfl, -, -⟩ := react_handler hitem h
        cases RelaySession.handle_successor (mem_starts.mpr hstarted) with
        | close => exact hstop hitem
        | _ => cases hkind
  · have hpending : ∀ op, op.isClose = true →
        op ∉ session.queue.filterMap completedOp ++ session.inFlight.map InFlight.op := fun op hop hmem => by
      have hnot : op ∈ outstandingOps AsyncOp.isClose session := List.mem_filter.mpr ⟨hmem, hop⟩
      rw [hclose] at hnot
      cases hnot
    cases e with
    | call c =>
      obtain ⟨-, rfl⟩ := react_call.mp h
      exact List.forall_mem_nil _
    | finish i outcome =>
      obtain ⟨f, hf, ⟨-, rfl, -⟩ | ⟨hd, -⟩⟩ := react_finish h
      · exact List.forall_mem_nil _
      · rcases RelaySession.direct_cases hd with ⟨hop, -⟩ | ⟨message, rfl⟩
        · refine absurd (List.mem_append_right _ (List.mem_map_of_mem (List.mem_of_getElem? hf))) (hpending _ ?_)
          rw [hop]
          rfl
        · exact List.forall_mem_singleton.mpr rfl
    | run m =>
      obtain ⟨item, rest, hq, rfl, -⟩ := react_run h
      refine handle_stays (fun hitem => hstop ?_) ?_
      · rw [handledItem, hq, hitem]
        rfl
      cases item with
      | call c => rfl
      | completion op o =>
        refine Bool.eq_false_iff.mpr fun hop => hpending op hop (List.mem_append_left _ ?_)
        exact List.mem_filterMap.mpr ⟨_, hq ▸ List.mem_cons_self, rfl⟩

/-- A session that has been stopped stays so, when no `Start` is to come. -/
theorem stopped_stays {o o' : SessionObject} {e : SessionEvent} {effects : List Effect}
    (hstopped : o.data.stopped = true) (hno : NoStart o.queue)
    (he : isCallEvent SessionCall.begins e = false)
    (h : (sessionBehaviour pf).react o e = some (o', effects)) :
    o'.data.stopped = true ∧ NoStart o'.queue := by
  cases hitem : handledItem o e with
  | none =>
    obtain ⟨more, hmore, hqueue⟩ := react_queue he hitem h
    obtain ⟨-, buffer, hdata⟩ := react_without_handler hitem h
    rw [hdata, hqueue]
    exact ⟨hstopped, List.forall_mem_append.mpr ⟨hno, hmore⟩⟩
  | some item =>
    obtain ⟨m, rest, rfl, hq, -, hdata, hrest⟩ := react_handler hitem h
    have hstart := hno item (hq ▸ List.mem_cons_self)
    rw [hdata, hrest]
    refine ⟨(o.data.handle_members pf m item).stays_stopped ?_ hstopped,
      fun x hx => hno x (hq ▸ List.mem_cons_of_mem _ hx)⟩
    rintro rfl
    cases hstart

/-- The session has reported `Disconnected`, or is about to. -/
def Disconnects (p : SessionObject × History) : Prop :=
  (∃ report ∈ p.2, report.1 = .disconnected) ∨ outstandingOps AsyncOp.isClose p.1 ≠ []

/-- Only a session that has been stopped for good reports `Disconnected`. -/
structure StopsFirst (p : SessionObject × History) : Prop where
  once : StartedOnce p.1
  stopped : Disconnects p → p.1.data.stopped = true ∧ NoStart p.1.queue

theorem StopsFirst.step {p q : SessionObject × History} {e : SessionEvent} (hp : StopsFirst p)
    (he : isCallEvent SessionCall.begins e = false)
    (h : watched (sessionBehaviour pf).react noteStatuses p e = some q) : StopsFirst q := by
  obtain ⟨effects, hreact, hnote⟩ := watched_eq_some.mp h
  have hnote : q.2 = p.2 ++ statuses effects := hnote
  refine ⟨hp.once.react he hreact, fun hdisconnects => ?_⟩
  by_cases hbefore : Disconnects p
  · obtain ⟨hstopped, hno⟩ := hp.stopped hbefore
    exact stopped_stays hstopped hno he hreact
  · have hstop : handledItem p.1 e = some (.call .stop) := by
      by_contra hother
      have hopen : outstandingOps AsyncOp.isClose p.1 = [] :=
        by_contra fun hclose => hbefore (Or.inr hclose)
      obtain ⟨hclose, hquiet⟩ := stays_react hother hopen hreact
      refine hbefore (Or.inl ?_)
      obtain ⟨report, hmem, hdisconnected⟩ := hdisconnects.resolve_right (not_not.mpr hclose)
      rw [hnote] at hmem
      refine ⟨report, (List.mem_append.mp hmem).resolve_right fun hnew => ?_, hdisconnected⟩
      obtain ⟨effect, heffect, hstatus⟩ := List.mem_filterMap.mp hnew
      exact Bool.false_ne_true ((hquiet effect heffect).symm.trans (disconnects_of_status hstatus hdisconnected))
    obtain ⟨m, rest, rfl, hq, -, hdata, hrest⟩ := react_handler hstop hreact
    rw [hdata, hrest, (p.1.data.handle_members pf m _).stopped]
    refine ⟨rfl, (hq ▸ hp.once.order).tail.2.resolve_left ?_⟩
    rintro ⟨key, hkey⟩
    cases hkey

/-! ## What the table shows -/

/-- The statuses but for `Disconnected` come in order, and the last one says what the session is doing.
`Disconnected` is shown only of a session that has been stopped. -/
structure ShowsItsWork (p : SessionObject × History) : Prop where
  legal : LegalHistory (stages p.2)
  waiting : Item.call .start ∈ p.1.queue → p.2 = []
  busy : ∀ op ∈ outstandingOps AsyncOp.inSequence p.1, lastShown (stages p.2) = op.shown
  disconnected : ∀ report ∈ p.2, report.1 = .disconnected → p.1.data.stopped = true

theorem OnCourse.showsItsWork {p : SessionObject × History} {place : Place AsyncOp}
    (h : OnCourse (p.1, stages p.2) place) (hstops : StopsFirst p) : ShowsItsWork p := by
  have hdisconnected : ∀ report ∈ p.2, report.1 = .disconnected → p.1.data.stopped = true :=
    fun report hmem hdis => (hstops.stopped (Or.inl ⟨report, hmem, hdis⟩)).1
  have hstart : Item.call .start ∈ p.1.queue → p.1.queue.countP (isCallOf SessionCall.begins) ≠ 0 :=
    fun hmem => Nat.ne_of_gt (List.countP_pos_iff.mpr ⟨_, hmem, rfl⟩)
  have hat := h.isAt
  have hshown := h.shown
  cases place with
  | ahead =>
    refine ⟨h.legal, fun hmem => ?_, fun op hop => ?_, hdisconnected⟩
    · -- a session that is still to be started has no status at all
      refine List.eq_nil_iff_forall_not_mem.mpr fun report hreport => ?_
      have hdis : report.1 = .disconnected :=
        of_not_not (by simpa using List.filter_eq_nil_iff.mp hshown report hreport)
      exact Bool.false_ne_true ((hstops.stopped (Or.inl ⟨report, hreport, hdis⟩)).2 _ hmem).symm
    · rw [hat.2] at hop
      cases hop
  | busy op =>
    refine ⟨h.legal, fun hmem => absurd hat.1 (hstart hmem), fun op' hop => ?_, hdisconnected⟩
    rw [hat.2] at hop
    rw [List.mem_singleton.mp hop]
    exact hshown
  | spent =>
    refine ⟨h.legal, fun hmem => absurd hat.1 (hstart hmem), fun op hop => ?_, hdisconnected⟩
    rw [hat.2] at hop
    cases hop

/-- **The table shows what a session is doing.** In every run of a session that is started once, whatever is
completed, called or received in whatever order, the statuses it reports other than `Disconnected` follow the
stages of a connection, and in every state the last of them is that of the operation that is outstanding;
`Disconnected` is reported only of a session that has been stopped. -/
theorem shows_its_work (pf : Platform) (relayUrl hexPubkey : Str) (authKey : Option Nostr.AuthKey)
    (es : List SessionEvent) (hes : ∀ e ∈ es, isCallEvent SessionCall.begins e = false) :
    Throughout (watched (sessionBehaviour pf).react noteStatuses) ShowsItsWork
      (SessionManager.startedSession hexPubkey authKey relayUrl, []) es := by
  have hcourse := onCourse_started hexPubkey authKey relayUrl
  have hstops : StopsFirst (SessionManager.startedSession hexPubkey authKey relayUrl, []) := by
    refine ⟨hcourse.once, fun h => ?_⟩
    rcases h with ⟨report, hmem, -⟩ | hclose
    · cases hmem
    · exact absurd rfl hclose
  refine throughout_keeps (I := fun p => (∃ place, OnCourse (p.1, stages p.2) place) ∧ StopsFirst p)
    (G := fun _ e => isCallEvent SessionCall.begins e = false) ?_ ?_ ⟨⟨.ahead, hcourse⟩, hstops⟩
    (along_of_forall fun e he _ => hes e he)
  · rintro p e q ⟨⟨place, hp⟩, hstops⟩ he h
    refine ⟨?_, hstops.step he h⟩
    rcases hp.step he (watched_stages h) with ⟨hq, -⟩ | ⟨_, _, _, -, -, -, -, -, -, hq⟩
    · exact ⟨place, hq⟩
    · exact ⟨_, hq⟩
  · rintro p ⟨⟨place, hp⟩, hstops⟩
    exact hp.showsItsWork hstops

/-- A connect fails, and the session is stopped while its relay is resolved again. -/
def refusedThenStopped : List SessionEvent :=
  [.run {}, .run {}, .finish 0 {}, .run {}, .finish 0 { ec := some (lit "Connection refused") },
    .run {}, .finish 0 {}, .run {}, .call .stop, .run {}, .finish 0 { ec := some kOperationAborted },
    .run {}]

theorem shows_its_work_stopped :
    Throughout (watched (sessionBehaviour samplePlatform).react noteStatuses) ShowsItsWork
        (SessionManager.startedSession (lit "00") none sampleRelay, []) refusedThenStopped ∧
      (run (watched (sessionBehaviour samplePlatform).react noteStatuses)
        (SessionManager.startedSession (lit "00") none sampleRelay, []) refusedThenStopped).map
          (fun p => p.2.map Prod.fst) =
        some [.resolving, .connecting, .error, .resolving, .disconnected, .error] :=
  ⟨shows_its_work samplePlatform sampleRelay (lit "00") none _ (by decide), by decide +kernel⟩

end Monitostr.Net
