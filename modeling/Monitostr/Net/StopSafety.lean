import Monitostr.Foundations.Quieting
import Monitostr.Net.SessionSteps
import Monitostr.Utils.SamplePlatform

/-! # After `Stop`

The handlers from `OnResolve` to `OnRead` do not look at `stopped_` before they act: one that runs
after `Stop` advances the connection, or reports the abort of its operation as an error. `Stop` empties
the read buffer, so a message whose read completed before it is lost, and one that is read after it is
handled. A stopped session is quiet exactly when none of these completions can still be handled.
-/

namespace Monitostr.Net
open Foundations Foundations.Behaviour Model Nostr
set_option autoImplicit false

/-- An effect a stopped session may have: it starts nothing that advances a connection, and calls
the store for `kDisconnected` only. -/
def Effect.quiet : Effect → Bool
  | .start op => !op.advances
  | .stats (.setStatus _ status _) => status = .disconnected
  | .stats _ => false
  | _ => true

def Quiet (effects : List Effect) : Prop := ∀ effect ∈ effects, effect.quiet = true

def isStart : Item SessionCall AsyncOp Outcome → Bool
  | .call .start => true
  | _ => false

/-- A completion whose handler does something in a stopped session: every one that advances the
connection, except a successful read. -/
def loud : Item SessionCall AsyncOp Outcome → Bool
  | .call _ => false
  | .completion .read o => o.ec.isSome
  | .completion op _ => op.advances

/-- The time from `Stop` to the next `Start`. -/
def stoppedPeriod : Period RelaySession SessionCall AsyncOp Outcome Effect where
  Stopped s := s.stopped = true
  Clean s := s.readBuffer = []
  barrier := isStart
  loud := loud
  consumes := takesMessage
  loudOp := AsyncOp.advances
  feeds := AsyncOp.isRead
  Quiet := Quiet

variable {pf : Platform} {m : Moment} {s : RelaySession}

theorem quiet_nil : Quiet [] := by
  intro effect h
  cases h

theorem not_quiet_of_mem {effects : List Effect} (effect : Effect) (hmem : effect ∈ effects)
    (heff : effect.quiet = false) : ¬ Quiet effects := by
  intro hq
  rw [hq effect hmem] at heff
  cases heff

theorem markError_not_quiet (where_ ec : Str) : ¬ Quiet (s.markError pf m where_ ec).2 :=
  not_quiet_of_mem _ (RelaySession.setStatus_mem_markError where_ ec) rfl

theorem handle_quiet (item : Item SessionCall AsyncOp Outcome) (hs : s.stopped = true)
    (hb : isStart item = false) (hl : loud item = false)
    (hclean : takesMessage item = true → s.readBuffer = []) : Quiet (s.handle pf m item).2 := by
  have h : RelaySession.Turn pf m s item (s.handle pf m item) := RelaySession.handle_turn item
  generalize s.handle pf m item = result at h ⊢
  cases h with
  | refuse | start => cases hb
  | fail op o ec hop hec =>
    cases op <;> simp [loud, hop, hec] at hl
  | read o next hec hnext =>
    have hmessage : s.handleMessage pf m s.readBuffer = [] := by
      rw [hclean (by simp [takesMessage, hec]), RelaySession.handleMessage, parseRelayMessageEffect_nil]
    rw [hnext, if_pos (Or.inl hs), hmessage]
    exact quiet_nil
  | reconnect delayMs o hec hrunning | nips parsedRelay o text hrunning =>
    rw [hs] at hrunning
    cases hrunning
  | stopOpen | stopClosed | setAuthKey | noReconnect | authWritten | closed | noNips =>
    simp [Quiet, Effect.quiet, AsyncOp.advances, RelaySession.setStatus]
  | _ => cases hl

theorem handle_loud (item : Item SessionCall AsyncOp Outcome) (hl : loud item = true) :
    ¬ Quiet (s.handle pf m item).2 := by
  have h : RelaySession.Turn pf m s item (s.handle pf m item) := RelaySession.handle_turn item
  generalize s.handle pf m item = result at h ⊢
  cases h with
  | fail => exact markError_not_quiet _ _
  | failSni =>
    exact fun hq => markError_not_quiet _ _ fun effect heffect =>
      hq effect (List.mem_cons_of_mem _ heffect)
  | resolved | connected | secured | subscribed =>
    exact not_quiet_of_mem _ (List.mem_cons_of_mem _ List.mem_cons_self) rfl
  | requested => exact not_quiet_of_mem _ List.mem_cons_self rfl
  | read o next hec =>
    rw [loud, hec] at hl
    cases hl
  | _ => cases hl

theorem direct_quiet {op : AsyncOp} {o : Outcome} {effects : List Effect}
    (h : s.direct pf op o = some effects) : Quiet effects := by
  rcases RelaySession.direct_cases h with ⟨-, rfl⟩ | ⟨message, rfl⟩
  · simp [Quiet, RelaySession.setStatus, Effect.quiet]
  · simp [Quiet, RelaySession.warn, Effect.quiet]

theorem Quiet.starts {effects : List Effect} (h : Quiet effects) :
    ∀ effect ∈ effects, ∀ op, effect.starts = some op → op.advances = false := by
  intro effect hmem op hop
  have hq := h effect hmem
  cases effect with
  | start op' =>
    obtain rfl := Option.some.inj hop
    simpa [Effect.quiet] using hq
  | _ => cases hop

/-- A message that is read into the empty buffer of a stopped session is handled. -/
theorem handle_read_event (item : Item SessionCall AsyncOp Outcome)
    (hitem : takesMessage item = true) (hbuffer : s.readBuffer = lit "[\"EVENT\"]") :
    ¬ Quiet (s.handle pf m item).2 := by
  have h : RelaySession.Turn pf m s item (s.handle pf m item) := RelaySession.handle_turn item
  generalize s.handle pf m item = result at h ⊢
  cases h with
  | read o next hec hnext =>
    have hmessage : s.handleMessage pf m s.readBuffer = [.stats (.incrementEvent s.relayUrl)] := by
      rw [hbuffer, RelaySession.handleMessage, parseRelayMessageEffect_event]
    rw [hmessage]
    exact not_quiet_of_mem _ List.mem_cons_self rfl
  | fail op o ec hop hec =>
    cases op <;> simp [takesMessage, hec] at hitem
  | _ => cases hitem

theorem session_quieting (pf : Platform) : Quieting (sessionBehaviour pf) stoppedPeriod where
  stays := by
    intro m s item hs hb
    refine (s.handle_members pf m item).stays_stopped ?_ hs
    rintro rfl
    cases hb
  cleans := by
    intro m s item hclean
    change (s.handle pf m item).1.readBuffer = []
    rcases (s.handle_members pf m item).readBuffer with heq | heq
    · exact heq.trans hclean
    · exact heq
  deliver_stays := fun s op o hs => (s.deliver_target op o).2.2.2.trans hs
  deliver_cleans := by
    intro s op o hop hclean
    cases op <;> first | exact hclean | cases hop
  quiet := fun m s item hs hb hl hclean =>
    ⟨handle_quiet item hs hb hl hclean, (handle_quiet item hs hb hl hclean).starts⟩
  loud_effects := fun m s item _ hl => handle_loud item hl
  direct_quiet := fun s op outcome effects h => ⟨direct_quiet h, (direct_quiet h).starts⟩
  nil_quiet := quiet_nil
  call_quiet := fun _ => ⟨rfl, rfl⟩
  op_quiet := by
    intro op outcome hop
    cases op <;> first | exact ⟨rfl, rfl⟩ | cases hop
  op_loud := by
    intro op hop
    refine ⟨{ ec := some kOperationAborted }, by simp [sessionBehaviour], fun s => ?_, ?_⟩
    · cases op <;> first | rfl | cases hop
    · cases op <;> first | rfl | cases hop
  op_feeds := by
    intro op hop
    obtain rfl : op = .read := by cases op <;> first | rfl | cases hop
    refine ⟨rfl, { ec := some kOperationAborted, payload := lit "[\"EVENT\"]" },
      by simp [sessionBehaviour], fun s => rfl, fun m s item _ hclean hitem => ?_⟩
    refine handle_read_event (s := s.deliver .read _) item hitem ?_
    change s.readBuffer ++ _ = _
    rw [show s.readBuffer = [] from hclean, List.nil_append]
  completion_passes := fun _ _ => rfl

/-! ## The `Stop` handler -/

/-- Something that a stopped session would act on can still be handled before the next `Start`: a
completion that advances the connection or a failed read is queued before the next `Start`, or no
`Start` is queued and such an operation is in flight; or a successful read is queued there, with
another read in flight to fill the buffer that `Stop` has emptied. -/
def ActsWhenStopped (o : SessionObject) : Prop := stoppedPeriod.Exposed o

/-- Every `Stop` handler that the run comes to finds nothing to act on behind it. -/
def StopsSafely (o : SessionObject) (e : SessionEvent) : Prop :=
  ∀ m rest, e = .run m → o.queue = .call .stop :: rest → ¬ ActsWhenStopped { o with queue := rest }

instance (o : SessionObject) : Decidable (ActsWhenStopped o) := inferInstanceAs (Decidable (stoppedPeriod.Exposed o))

theorem stopsSafely_iff {o : SessionObject} {e : SessionEvent} :
    StopsSafely o e ↔
      (handledItem o e = some (.call .stop) → ¬ ActsWhenStopped { o with queue := o.queue.tail }) := by
  constructor
  · intro h hitem
    cases e with
    | call c => cases hitem
    | finish i outcome => cases hitem
    | run m => exact h m _ rfl (List.eq_cons_of_mem_head? hitem)
  · rintro h m rest rfl hq
    have hsafe := h (by rw [handledItem, hq]; rfl)
    rwa [hq] at hsafe

instance (o : SessionObject) (e : SessionEvent) : Decidable (StopsSafely o e) :=
  decidable_of_iff _ stopsSafely_iff.symm

/-- While the session is stopped, an event other than the run of a `Start` handler is quiet. -/
def QuietWhileStopped (pf : Platform) (o : SessionObject) (e : SessionEvent) : Prop :=
  o.data.stopped = true → stoppedPeriod.NoBarrier o e →
    stoppedPeriod.QuietStep (sessionBehaviour pf) o e

/-- Running the `Stop` handler stops the session and empties its read buffer, and exposes nothing that
was not exposed behind it. -/
theorem react_stop {o o' : SessionObject} {rest : List (Item SessionCall AsyncOp Outcome)}
    {effects : List Effect} (hq : o.queue = .call .stop :: rest)
    (h : (sessionBehaviour pf).react o (.run m) = some (o', effects)) :
    o'.data.stopped = true ∧ o'.data.readBuffer = [] ∧
      (ActsWhenStopped o' ↔ ActsWhenStopped { o with queue := rest }) := by
  rw [react_run_cons m hq] at h
  obtain ⟨rfl, rfl⟩ := Prod.mk.inj (Option.some.inj h)
  have hbuffer : o.data.onStop.1.readBuffer = [] ∧
      ∀ effect ∈ o.data.onStop.2, ∀ op, effect.starts = some op → op.advances = false := by
    have hturn : RelaySession.Turn pf m o.data (.call .stop) o.data.onStop := RelaySession.onStop_turn
    generalize o.data.onStop = result at hturn ⊢
    cases hturn <;> simp [Effect.starts, AsyncOp.advances, RelaySession.setStatus]
  exact ⟨(o.data.handle_members pf m (.call .stop)).stopped, hbuffer.1,
    (session_quieting pf).exposed_perform (o := { o with queue := rest }) hbuffer.2⟩

theorem stops_only_by_stop {o o' : SessionObject} {e : SessionEvent} {effects : List Effect}
    (h : (sessionBehaviour pf).react o e = some (o', effects)) (hs : o.data.stopped = false)
    (hs' : o'.data.stopped = true) : ∃ m rest, e = .run m ∧ o.queue = .call .stop :: rest := by
  cases e with
  | call handler =>
    obtain ⟨rfl, -⟩ := react_call.mp h
    rw [hs] at hs'
    cases hs'
  | finish i outcome =>
    obtain ⟨p, -, ⟨-, -, rfl⟩ | ⟨-, rfl⟩⟩ := react_finish h
    · rw [← (o.data.deliver_target p.op outcome).2.2.2] at hs
      exact absurd hs' (by rw [← Bool.not_eq_true] at hs; exact hs)
    · rw [hs] at hs'
      cases hs'
  | run m =>
    obtain ⟨item, rest, hq, -, rfl⟩ := react_run h
    refine ⟨m, rest, rfl, ?_⟩
    change (o.data.handle pf m item).1.stopped = true at hs'
    rw [(o.data.handle_members pf m item).stopped] at hs'
    split at hs'
    · cases hs'
    · exact hq
    · rw [hs] at hs'
      cases hs'

/-- **Quiet after `Stop`.** In every run of a session all of whose `Stop` handlers find nothing to act
on behind them, a stopped session is quiet. And when a `Stop` handler runs, the session is quiet on
every continuation up to the next `Start` exactly when that handler finds nothing to act on. -/
theorem quiet_after_stop (pf : Platform) :
    (∀ (s : RelaySession) (es : List SessionEvent), s.stopped = false →
      Along (sessionBehaviour pf).step StopsSafely { data := s } es →
      Along (sessionBehaviour pf).step (QuietWhileStopped pf) { data := s } es) ∧
    (∀ (m : Moment) (o o' : SessionObject) (rest : List (Item SessionCall AsyncOp Outcome)),
      o.queue = .call .stop :: rest → (sessionBehaviour pf).step o (.run m) = some o' →
      ((∀ es, Along (sessionBehaviour pf).step stoppedPeriod.NoBarrier o' es →
          Along (sessionBehaviour pf).step (stoppedPeriod.QuietStep (sessionBehaviour pf)) o' es) ↔
        ¬ ActsWhenStopped { o with queue := rest })) := by
  refine ⟨fun s es hs hsafe => ?_, fun m o o' rest hq hstep => ?_⟩
  · refine along_keeps (I := fun o => o.data.stopped = true → stoppedPeriod.Calm o) ?_ ?_ hsafe
    · intro o e o' hI hG hstep
      obtain ⟨effects, hreact⟩ := step_eq_some.mp hstep
      by_cases hstop : o.data.stopped = true
      · refine ⟨fun hstop' => ?_, fun _ hnb o'' effects' h =>
          ((session_quieting pf).step (hI hstop) hnb h).2⟩
        refine ((session_quieting pf).step (hI hstop) ?_ hreact).1
        -- a `Start` handler would have cleared the flag
        rintro m item rest rfl hq
        obtain ⟨item', rest', hq', -, rfl⟩ := react_run hreact
        obtain ⟨rfl, rfl⟩ := List.cons.inj (hq.symm.trans hq')
        by_contra hb
        have hstart : item = .call .start := by
          cases item with
          | call c => cases c <;> simp [stoppedPeriod, isStart] at hb ⊢
          | completion op outcome => simp [stoppedPeriod, isStart] at hb
        change (o.data.handle pf m item).1.stopped = true at hstop'
        rw [(o.data.handle_members pf m item).stopped, hstart] at hstop'
        cases hstop'
      · refine ⟨fun hstop' => ?_, fun h => absurd h hstop⟩
        obtain ⟨m, rest, rfl, hq⟩ := stops_only_by_stop hreact (by simpa using hstop) hstop'
        obtain ⟨hstopped, hclean, hexp⟩ := react_stop hq hreact
        exact ⟨hstopped, fun _ _ _ => hclean, fun h => hG m rest rfl hq (hexp.mp h)⟩
    · intro h
      rw [hs] at h
      cases h
  · obtain ⟨effects, hreact⟩ := step_eq_some.mp hstep
    obtain ⟨hstopped, hclean, hexp⟩ := react_stop hq hreact
    rw [(session_quieting pf).quiet_iff m hstopped hclean]
    exact not_congr hexp

/-- The resolve of a session fails, and `Stop` is called in the wait for the reconnect. -/
def stoppedInWait : List SessionEvent :=
  [.call .start, .run {}, .finish 0 { ec := some (lit "Host not found") }, .run {}, .call .stop]

/-- Its `Stop` cancels the timer, whose handler finds the session stopped. -/
theorem quiet_after_stop_waiting :
    Along (sessionBehaviour samplePlatform).step (QuietWhileStopped samplePlatform)
      { data := RelaySession.create sampleRelay (lit "00") }
      (stoppedInWait ++ [.run {}, .finish 0 { ec := some kOperationAborted }, .run {}]) ∧
    ∃ o o', run (sessionBehaviour samplePlatform).step
        { data := RelaySession.create sampleRelay (lit "00") } stoppedInWait = some o ∧
      o.inFlight.map InFlight.op = [.reconnectWait 500] ∧
      (sessionBehaviour samplePlatform).step o (.run {}) = some o' ∧
      ∀ es, Along (sessionBehaviour samplePlatform).step stoppedPeriod.NoBarrier o' es →
        Along (sessionBehaviour samplePlatform).step
          (stoppedPeriod.QuietStep (sessionBehaviour samplePlatform)) o' es := by
  refine ⟨(quiet_after_stop samplePlatform).1 _ _ rfl (by decide +kernel), ?_⟩
  have hseen : (run (sessionBehaviour samplePlatform).step
      { data := RelaySession.create sampleRelay (lit "00") } stoppedInWait).map
        (fun o => (o.inFlight.map InFlight.op, o.queue, decide (ActsWhenStopped { o with queue := [] }))) =
      some ([.reconnectWait 500], [.call .stop], false) := by
    decide +kernel
  obtain ⟨o, hrun, hpair⟩ := Option.map_eq_some_iff.mp hseen
  obtain ⟨hops, hpair⟩ := Prod.mk.inj hpair
  obtain ⟨hq, hhidden⟩ := Prod.mk.inj hpair
  have hstep := step_eq_some.mpr ⟨_, react_run_cons (B := sessionBehaviour samplePlatform) ({} : Moment) hq⟩
  exact ⟨o, _, hrun, hops, hstep, ((quiet_after_stop samplePlatform).2 {} o _ [] hq hstep).mpr
    (of_decide_eq_false hhidden)⟩

/-- A session is stopped while its host is being resolved, and the resolve is aborted. -/
def stoppedWhileResolving : List SessionEvent :=
  [.call .start, .run {}, .call .stop, .run {}, .finish 0 { ec := some kOperationAborted }]

def stoppedSession : RelaySession :=
  { RelaySession.create sampleRelay (lit "00") with stopped := true }
def abortedResolve : Item SessionCall AsyncOp Outcome :=
  .completion (.resolve (lit "relay.example") (lit "443")) { ec := some kOperationAborted }

/-- The abort is reported as an error of the relay, after `Stop` has set it to disconnected. -/
theorem stopped_session_reports_abort :
    ¬ Along (sessionBehaviour samplePlatform).step (QuietWhileStopped samplePlatform)
      { data := RelaySession.create sampleRelay (lit "00") } (stoppedWhileResolving ++ [.run {}]) := by
  intro h
  have hrun : run (sessionBehaviour samplePlatform).step
      { data := RelaySession.create sampleRelay (lit "00") } stoppedWhileResolving =
        some { data := stoppedSession, queue := [abortedResolve] } := by
    decide
  have hstep : (sessionBehaviour samplePlatform).step
      { data := stoppedSession, queue := [abortedResolve] } (.run {}) =
        some { data := stoppedSession } := by
    decide
  have hnb : stoppedPeriod.NoBarrier
      ({ data := stoppedSession, queue := [abortedResolve] } : SessionObject)
      (.run ({} : Moment) : SessionEvent) := by
    intro m x rest _ hq
    obtain ⟨rfl, -⟩ := List.cons.inj hq
    rfl
  have hquiet : Quiet (stoppedSession.handle samplePlatform {} abortedResolve).2 :=
    h.guard hrun hstep rfl hnb _ _ (react_run_cons ({} : Moment) rfl)
  exact handle_loud abortedResolve rfl hquiet

end Monitostr.Net
