import Monitostr.Foundations.Chain
import Monitostr.Net.SessionSteps
import Monitostr.Utils.SamplePlatform

/-! # One operation at a time

Connecting, subscribing, reading and waiting for a reconnect make one chain: every handler starts at
most one of these operations, in place of the one that it completes, and only `Start` begins a chain.
-/

namespace Monitostr.Net
open Foundations Foundations.Behaviour Nostr
set_option autoImplicit false

/-- The operations of the chain; a reconnect wait leads from its end to its beginning. -/
def AsyncOp.inSequence : AsyncOp → Bool
  | .resolve _ _ | .connect | .tlsHandshake | .wsHandshake _ _ | .writeReq _ | .read
  | .reconnectWait _ => true
  | .writeAuth _ | .close | .fetchNips _ => false

def AsyncOp.isWait : AsyncOp → Bool
  | .reconnectWait _ => true
  | _ => false

def AsyncOp.isReqWrite : AsyncOp → Bool
  | .writeReq _ => true
  | _ => false

def SessionCall.begins : SessionCall → Bool
  | .start => true
  | .stop | .setAuthKey _ => false

variable {pf : Platform} {m : Moment} {s : RelaySession}

def sequenceCount (effects : List Effect) : ℕ :=
  (effects.filterMap Effect.starts).countP AsyncOp.inSequence

theorem sequenceCount_append (xs ys : List Effect) :
    sequenceCount (xs ++ ys) = sequenceCount xs + sequenceCount ys := by
  rw [sequenceCount, List.filterMap_append, List.countP_append]
  rfl

theorem markError_sequenceCount (where_ ec : Str) :
    sequenceCount (s.markError pf m where_ ec).2 ≤ 1 := by
  rw [sequenceCount]
  cases h : shouldReconnectAttempt s.stopped s.reconnectAttempt where_ with
  | true =>
    rw [(s.markError_of_reconnect pf m ec h).2]
    exact Nat.le_refl 1
  | false =>
    rw [(s.markError_of_not_reconnect pf m ec h).2]
    exact Nat.zero_le 1

theorem handleMessage_sequenceCount (payload : Str) :
    sequenceCount (s.handleMessage pf m payload) = 0 := by
  rw [sequenceCount, List.countP_eq_zero]
  intro op hop
  obtain ⟨message, rfl⟩ := RelaySession.handleMessage_starts payload op hop
  exact Bool.false_ne_true

theorem handle_sequenceCount (item : Item SessionCall AsyncOp Outcome) :
    sequenceCount (s.handle pf m item).2 ≤
      (isCompletionOf AsyncOp.inSequence item).toNat + (isCallOf SessionCall.begins item).toNat := by
  have h : RelaySession.Turn pf m s item (s.handle pf m item) := RelaySession.handle_turn item
  generalize s.handle pf m item = result at h ⊢
  cases h with
  | fail op o ec hop =>
    refine (markError_sequenceCount op.where_ ec).trans ?_
    cases op <;> first | exact Nat.le_refl 1 | cases hop
  | failSni o ec => exact markError_sequenceCount _ ec
  | subscribed host target o text last hec hlast =>
    rw [hlast]
    split <;> exact Nat.le_of_ble_eq_true rfl
  | read o next hec hnext =>
    rw [sequenceCount_append, handleMessage_sequenceCount, hnext]
    split <;> exact Nat.le_of_ble_eq_true rfl
  | _ => exact Nat.le_of_ble_eq_true rfl

theorem session_chained (pf : Platform) :
    Chained SessionCall.begins AsyncOp.inSequence (sessionBehaviour pf) where
  handled := fun _ _ item => handle_sequenceCount item
  direct := by
    intro s op outcome effects h
    refine List.countP_eq_zero.mpr fun started hstarted => ?_
    obtain ⟨effect, heffect, hstarts⟩ := List.mem_filterMap.mp hstarted
    change effect.starts = some started at hstarts
    rw [(RelaySession.direct_writesTo h effect heffect).2] at hstarts
    cases hstarts

/-- At most one operation of the chain is outstanding: so there are no two reads and no two reconnect
waits, and the REQ is not being written while a message is read. -/
structure OneAtATime (o : SessionObject) : Prop where
  sequence : outstanding AsyncOp.inSequence o ≤ 1
  reads : outstanding AsyncOp.isRead o ≤ 1
  waits : outstanding AsyncOp.isWait o ≤ 1
  write_or_read : outstanding AsyncOp.isReqWrite o = 0 ∨ outstanding AsyncOp.isRead o = 0

theorem OneAtATime.of_sequence {o : SessionObject} (h : outstanding AsyncOp.inSequence o ≤ 1) :
    OneAtATime o := by
  have hread : outstanding AsyncOp.isReqWrite o + outstanding AsyncOp.isRead o ≤
      outstanding AsyncOp.inSequence o :=
    outstanding_add_le (fun op => by cases op <;> exact Nat.le_of_ble_eq_true rfl) o
  have hwait : outstanding AsyncOp.isWait o + outstanding AsyncOp.isRead o ≤
      outstanding AsyncOp.inSequence o :=
    outstanding_add_le (fun op => by cases op <;> exact Nat.le_of_ble_eq_true rfl) o
  exact ⟨h, by omega, by omega, by omega⟩

/-- **One operation at a time**: in every run of a session on which `Start` is called at most once, in
every state at most one operation of the chain is outstanding. -/
theorem one_at_a_time (pf : Platform) (s : RelaySession) (es : List SessionEvent)
    (h : es.countP (isCallEvent SessionCall.begins) ≤ 1) :
    Throughout (sessionBehaviour pf).step OneAtATime { data := s } es := by
  refine throughout_of_run fun fs t hfs hrun => .of_sequence ?_
  calc outstanding AsyncOp.inSequence t
      ≤ chains SessionCall.begins AsyncOp.inSequence t := outstanding_le_chains t
    _ ≤ 0 + fs.countP (isCallEvent SessionCall.begins) := (session_chained pf).run hrun
    _ ≤ 1 := by
        rw [Nat.zero_add]
        exact (hfs.sublist.countP_le).trans h

theorem one_at_a_time_connecting :
    Throughout (sessionBehaviour samplePlatform).step OneAtATime
      { data := RelaySession.create sampleRelay (lit "00") }
      [.call (.setAuthKey none), .call .start, .run {}, .run {}, .finish 0 {}, .run {}] :=
  one_at_a_time samplePlatform _ _ (by decide)

/-! ## Sessions as the manager starts them -/

def NoStart (queue : List (Item SessionCall AsyncOp Outcome)) : Prop :=
  ∀ item ∈ queue, isCallOf SessionCall.begins item = false

/-- The queue of a session that is started once: before the handler of `Start` there are only handlers
of `SetAuthKey`. -/
inductive StartsFirst : List (Item SessionCall AsyncOp Outcome) → Prop
  | waiting (keys : List (Option AuthKey)) (rest : List (Item SessionCall AsyncOp Outcome)) :
    NoStart rest →
    StartsFirst (keys.map (fun key => .call (.setAuthKey key)) ++ .call .start :: rest)
  | started (queue : List (Item SessionCall AsyncOp Outcome)) : NoStart queue → StartsFirst queue

theorem StartsFirst.append {queue more : List (Item SessionCall AsyncOp Outcome)}
    (h : StartsFirst queue) (hmore : NoStart more) : StartsFirst (queue ++ more) := by
  cases h with
  | waiting keys rest hrest =>
    rw [List.append_assoc, List.cons_append]
    exact .waiting keys (rest ++ more) (List.forall_mem_append.mpr ⟨hrest, hmore⟩)
  | started _ hqueue => exact .started _ (List.forall_mem_append.mpr ⟨hqueue, hmore⟩)

/-- The first handler is one of `SetAuthKey`, or no `Start` comes after it. -/
theorem StartsFirst.tail {item : Item SessionCall AsyncOp Outcome}
    {rest : List (Item SessionCall AsyncOp Outcome)} (h : StartsFirst (item :: rest)) :
    StartsFirst rest ∧ ((∃ key, item = .call (.setAuthKey key)) ∨ NoStart rest) := by
  generalize hqueue : item :: rest = queue at h
  cases h with
  | waiting keys after hafter =>
    cases keys with
    | nil =>
      obtain ⟨-, rfl⟩ := List.cons.inj hqueue
      exact ⟨.started _ hafter, Or.inr hafter⟩
    | cons key keys =>
      obtain ⟨rfl, rfl⟩ := List.cons.inj hqueue
      exact ⟨.waiting keys after hafter, Or.inl ⟨key, rfl⟩⟩
  | started _ hnone =>
    rw [← hqueue] at hnone
    have hrest : NoStart rest := fun x hx => hnone x (List.mem_cons_of_mem _ hx)
    exact ⟨.started _ hrest, Or.inr hrest⟩

/-- What holds of a session that is started once: its `Start` comes first, and it has one chain. -/
structure StartedOnce (o : SessionObject) : Prop where
  order : StartsFirst o.queue
  single : chains SessionCall.begins AsyncOp.inSequence o ≤ 1

theorem react_queue {o o' : SessionObject} {e : SessionEvent} {effects : List Effect}
    (he : isCallEvent SessionCall.begins e = false) (hitem : handledItem o e = none)
    (h : (sessionBehaviour pf).react o e = some (o', effects)) :
    ∃ more, NoStart more ∧ o'.queue = o.queue ++ more := by
  cases e with
  | call c =>
    obtain ⟨rfl, -⟩ := react_call.mp h
    exact ⟨[.call c], List.forall_mem_singleton.mpr he, rfl⟩
  | finish i outcome =>
    obtain ⟨p, -, ⟨-, -, rfl⟩ | ⟨-, rfl⟩⟩ := react_finish h
    · exact ⟨[.completion p.op outcome], by simp [NoStart, isCallOf], rfl⟩
    · exact ⟨[], by simp [NoStart], (List.append_nil _).symm⟩
  | run m =>
    obtain ⟨item, rest, hq, -, -⟩ := react_run h
    rw [handledItem, hq] at hitem
    cases hitem

theorem StartedOnce.react {o o' : SessionObject} {e : SessionEvent} {effects : List Effect}
    (ho : StartedOnce o) (he : isCallEvent SessionCall.begins e = false)
    (h : (sessionBehaviour pf).react o e = some (o', effects)) : StartedOnce o' := by
  constructor
  · cases hitem : handledItem o e with
    | none =>
      obtain ⟨more, hmore, hq⟩ := react_queue he hitem h
      rw [hq]
      exact ho.order.append hmore
    | some item =>
      obtain ⟨m, rest, -, hq, -, -, hrest⟩ := react_handled hitem h
      rw [hrest]
      exact (hq ▸ ho.order).tail.1
  · have hchains := (session_chained pf).react h
    rw [he] at hchains
    exact hchains.trans ho.single

end Monitostr.Net
