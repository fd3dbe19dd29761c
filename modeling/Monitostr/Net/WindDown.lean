import Monitostr.Foundations.Draining
import Monitostr.Net.SessionManager

/-! # A stopped session comes to its end

Once the handler of `Stop` has run, a completion leads to the next stage of the connection at most, and a
failure, a read or an expired timer to nothing new. So whatever the network does, a session that has been told
to stop has a bounded number of steps left, and nothing of it stays behind.
-/

namespace Monitostr.Net
open Foundations Foundations.Behaviour
set_option autoImplicit false

variable {pf : Platform} {m : Moment} {s : RelaySession}

/-- Its completion and its handler, and what a stopped session starts after it. -/
def AsyncOp.weight : AsyncOp → ℕ
  | .resolve _ _ => 16
  | .connect => 14
  | .tlsHandshake => 12
  | .wsHandshake _ _ => 10
  | .writeReq _ => 6
  | .read => 4
  | .reconnectWait _ | .writeAuth _ | .close | .fetchNips _ => 2

def SessionCall.isStop : SessionCall → Bool
  | .stop => true
  | .start | .setAuthKey _ => false

def sessionWeights : Weights SessionCall AsyncOp Outcome where
  op := AsyncOp.weight
  call
    | .start => 17
    | .stop => 3
    | .setAuthKey _ => 1
  early _ := 17
  stops := SessionCall.isStop
  restarts
    | .start => true
    | .stop | .setAuthKey _ => false

def startedWeight (effects : List Effect) : ℕ := tally AsyncOp.weight (effects.filterMap Effect.starts)

theorem startedWeight_append (xs ys : List Effect) :
    startedWeight (xs ++ ys) = startedWeight xs + startedWeight ys := by
  rw [startedWeight, List.filterMap_append, tally_append]
  rfl

theorem startedWeight_markError (where_ ec : Str) :
    startedWeight (s.markError pf m where_ ec).2 ≤ 2 ∧
      (s.stopped = true → startedWeight (s.markError pf m where_ ec).2 = 0) := by
  cases hre : shouldReconnectAttempt s.stopped s.reconnectAttempt where_ with
  | false =>
    rw [startedWeight, (s.markError_of_not_reconnect pf m ec hre).2]
    exact ⟨Nat.zero_le 2, fun _ => rfl⟩
  | true =>
    rw [startedWeight, (s.markError_of_reconnect pf m ec hre).2]
    refine ⟨Nat.le_refl 2, fun hstopped => ?_⟩
    rw [hstopped] at hre
    cases hre

theorem startedWeight_handleMessage (payload : Str) : startedWeight (s.handleMessage pf m payload) ≤ 2 := by
  have hauth : ∀ challenge, startedWeight (s.onAuthChallenge pf m challenge) ≤ 2 := by
    intro challenge
    rw [RelaySession.onAuthChallenge]
    dsimp only
    split
    · exact Nat.zero_le 2
    · split
      · exact Nat.zero_le 2
      · split
        · exact Nat.zero_le 2
        · split
          · exact Nat.zero_le 2
          · split
            · exact Nat.zero_le 2
            · exact Nat.le_refl 2
  rw [RelaySession.handleMessage]
  split
  · exact hauth _
  · exact Nat.zero_le 2
  · exact Nat.zero_le 2
  · exact Nat.zero_le 2

theorem startedWeight_handle (item : Item SessionCall AsyncOp Outcome) :
    startedWeight (s.handle pf m item).2 ≤ 16 := by
  have h : RelaySession.Turn pf m s item (s.handle pf m item) := RelaySession.handle_turn item
  generalize s.handle pf m item = result at h ⊢
  cases h with
  | fail op o ec => exact Nat.le_trans (startedWeight_markError op.where_ ec).1 (by decide)
  | failSni o ec text => exact Nat.le_trans (startedWeight_markError (lit "set_sni") ec).1 (by decide)
  | subscribed host target o text last hec hlast =>
    rw [hlast]
    split <;> exact Nat.le_of_ble_eq_true rfl
  | read o next hec hnext =>
    have hmessage : startedWeight (s.handleMessage pf m s.readBuffer) ≤ 2 :=
      startedWeight_handleMessage s.readBuffer
    have hread : startedWeight next ≤ 4 := by
      rw [hnext]
      split <;> exact Nat.le_of_ble_eq_true rfl
    rw [startedWeight_append]
    omega
  | _ => exact Nat.le_of_ble_eq_true rfl

/-- What a stopped session starts weighs less than what it starts it for. -/
theorem startedWeight_stopped (hstopped : s.stopped = true) (op : AsyncOp) (o : Outcome) :
    startedWeight (s.handle pf m (.completion op o)).2 + 2 ≤ op.weight := by
  have h : RelaySession.Turn pf m s (.completion op o) (s.handle pf m (.completion op o)) :=
    RelaySession.handle_turn _
  have hpos : 2 ≤ op.weight := by cases op <;> exact Nat.le_of_ble_eq_true rfl
  generalize s.handle pf m (.completion op o) = result at h ⊢
  cases h with
  | fail op o ec => rw [(startedWeight_markError op.where_ ec).2 hstopped]; exact hpos
  | failSni o ec text =>
    have hnone : startedWeight (s.markError pf m (lit "set_sni") ec).2 = 0 :=
      (startedWeight_markError _ ec).2 hstopped
    exact Nat.le_trans (Nat.le_of_eq (congrArg (· + 2) hnone)) hpos
  | subscribed host target o text last hec hlast =>
    rw [hlast]
    split <;> exact Nat.le_of_ble_eq_true rfl
  | read o next hec hnext =>
    have hmessage : startedWeight (s.handleMessage pf m s.readBuffer) ≤ 2 :=
      startedWeight_handleMessage s.readBuffer
    rw [if_pos (Or.inl hstopped)] at hnext
    subst hnext
    rw [List.append_nil]
    exact Nat.add_le_add_right hmessage 2
  | reconnect delayMs o hec hrunning =>
    rw [hstopped] at hrunning
    cases hrunning
  | _ => exact Nat.le_of_ble_eq_true rfl

/-- A stopped session winds down. -/
theorem session_draining (pf : Platform) :
    Draining (sessionBehaviour pf) sessionWeights fun s => s.stopped = true where
  stop := by
    intro m s c hc
    cases c with
    | stop => exact (s.handle_members pf m (.call .stop)).stopped
    | _ => cases hc
  stays := by
    intro m s item hs hno
    refine (s.handle_members pf m item).stopped.trans ?_
    split
    · cases hno
    · rfl
    · exact hs
  deliver := fun s op o hs => (s.deliver_target op o).2.2.2.trans hs
  op_pos := by
    intro op
    cases op <;> exact Nat.le_of_ble_eq_true rfl
  early := fun m s item => Nat.succ_le_succ (startedWeight_handle item)
  call := by
    intro m s c _ hno
    cases c with
    | start => cases hno
    | stop =>
      have h : RelaySession.Turn pf m s (.call .stop) (s.handle pf m (.call .stop)) :=
        RelaySession.handle_turn _
      change startedWeight (s.handle pf m (.call .stop)).2 + 1 ≤ 3
      generalize s.handle pf m (.call .stop) = result at h ⊢
      cases h <;> exact Nat.le_of_ble_eq_true rfl
    | setAuthKey authKey => exact Nat.le_refl 1
  completion := fun m s op o hs => startedWeight_stopped hs op o
  direct := by
    intro s op o effects h
    have hpos : 1 ≤ op.weight := by cases op <;> exact Nat.le_of_ble_eq_true rfl
    have hnone : startedWeight effects = 0 := by
      rcases RelaySession.direct_cases h with ⟨-, rfl⟩ | ⟨message, rfl⟩ <;> rfl
    change startedWeight effects + 1 ≤ op.weight
    omega

/-! ## How much is left -/

/-- The session has been told to stop, and not to start again. -/
def ToldToStop (session : SessionObject) : Prop :=
  ∃ front back, WindsDown sessionWeights (fun s : RelaySession => s.stopped = true) session front back

/-- Nothing holds the session any more. -/
def Drained (session : SessionObject) : Prop := session.queue = [] ∧ session.inFlight = []

/-- The steps that are left to a session in the state, at most. -/
def stepsLeft (session : SessionObject) : ℕ := 17 * (session.queue.length + session.inFlight.length)

theorem potential_le {session : SessionObject} {front back : List (Item SessionCall AsyncOp Outcome)}
    (h : WindsDown sessionWeights (fun s : RelaySession => s.stopped = true) session front back) :
    potential sessionWeights session front back ≤ stepsLeft session := by
  have hfront : tally sessionWeights.early front ≤ 17 * front.length :=
    tally_le fun _ _ => Nat.le_refl 17
  have hback : tally sessionWeights.late back ≤ 17 * back.length := by
    refine tally_le fun item _ => ?_
    cases item with
    | call c => cases c <;> exact Nat.le_of_ble_eq_true rfl
    | completion op o => cases op <;> exact Nat.le_of_ble_eq_true rfl
  have hflight : tally sessionWeights.op (session.inFlight.map InFlight.op) ≤
      17 * (session.inFlight.map InFlight.op).length := by
    refine tally_le fun op _ => ?_
    cases op <;> exact Nat.le_of_ble_eq_true rfl
  rw [List.length_map] at hflight
  rw [potential, stepsLeft, h.queue, List.length_append]
  omega

variable (pf) in
theorem drained_of_stuck {session : SessionObject}
    (h : ∀ e session', isOwn e = true → (sessionBehaviour pf).step session e ≠ some session') :
    Drained session := by
  rw [Drained]
  by_contra hnot
  have hleft : session.queue ≠ [] ∨ session.inFlight ≠ [] := not_and_or.mp hnot
  obtain ⟨e, session', hown, hstep⟩ :=
    exists_own_event (B := sessionBehaviour pf)
      ⟨{ ec := some kOperationAborted }, by simp [sessionBehaviour]⟩ ({} : Moment) hleft
  exact h e session' hown hstep

theorem ToldToStop.dispatch {session : SessionObject} : ToldToStop (dispatch .stop session) :=
  ⟨session.queue, [.call .stop], rfl, Or.inr ⟨.stop, [], rfl, rfl⟩, List.forall_mem_singleton.mpr rfl⟩

end Monitostr.Net
