import Monitostr.Foundations.Strand

/-! # Objects that wind down

Once an object is stopped its handlers start only what comes to an end. Each operation and each item has a
weight, and an event of the object takes more weight away than it adds. So what is still to come when a
stop has been queued is bounded, in every order of events, and nothing stops short of the end.
-/

namespace Foundations
namespace Behaviour
set_option autoImplicit false

/-! ## Weights of lists -/

section Tally
variable {α β : Type*}

def tally (f : α → ℕ) : List α → ℕ
  | [] => 0
  | a :: l => f a + tally f l

@[simp] theorem tally_nil (f : α → ℕ) : tally f [] = 0 := rfl

@[simp] theorem tally_cons (f : α → ℕ) (a : α) (l : List α) : tally f (a :: l) = f a + tally f l := rfl

@[simp] theorem tally_append (f : α → ℕ) (l l' : List α) : tally f (l ++ l') = tally f l + tally f l' := by
  induction l with
  | nil => simp
  | cons a l ih =>
    rw [List.cons_append, tally_cons, tally_cons, ih]
    omega

theorem tally_map (f : β → ℕ) (g : α → β) (l : List α) : tally f (l.map g) = tally (fun a => f (g a)) l := by
  induction l with
  | nil => rfl
  | cons a l ih => rw [List.map_cons, tally_cons, tally_cons, ih]

theorem tally_eraseIdx (f : α → ℕ) {l : List α} {i : ℕ} {a : α} (h : l[i]? = some a) :
    tally f l = f a + tally f (l.eraseIdx i) := by
  induction l generalizing i with
  | nil => simp at h
  | cons b l ih =>
    cases i with
    | zero =>
      obtain rfl : b = a := by simpa using h
      rfl
    | succ i =>
      have hrest := ih (by simpa using h)
      rw [List.eraseIdx_cons_succ, tally_cons, tally_cons, hrest]
      omega

theorem tally_le {f : α → ℕ} {bound : ℕ} {l : List α} (h : ∀ a ∈ l, f a ≤ bound) :
    tally f l ≤ bound * l.length := by
  induction l with
  | nil => simp
  | cons a l ih =>
    have ha := h a List.mem_cons_self
    have hl := ih fun b hb => h b (List.mem_cons_of_mem a hb)
    rw [tally_cons, List.length_cons, Nat.mul_succ]
    omega

end Tally

/-! ## Weights of an object -/

variable {σ η ω ο μ φ : Type*}

structure Weights (η ω ο : Type*) where
  /-- Of an operation in flight. -/
  op : ω → ℕ
  /-- Of a call that is handled once the object is stopped, or stops it. -/
  call : η → ℕ
  /-- Of an item that is handled before the object is stopped. -/
  early : Item η ω ο → ℕ
  stops : η → Bool
  restarts : η → Bool

namespace Weights
variable (W : Weights η ω ο)

/-- Of an item that is handled once the object is stopped. -/
def late : Item η ω ο → ℕ
  | .call handler => W.call handler
  | .completion op _ => W.op op - 1

def restart : Item η ω ο → Bool
  | .call handler => W.restarts handler
  | .completion _ _ => false

end Weights

/-- What the handlers of a class have to satisfy for the weights. -/
structure Draining (B : Behaviour σ η ω ο μ φ) (W : Weights η ω ο) (Stopped : σ → Prop) : Prop where
  stop : ∀ m s handler, W.stops handler = true → Stopped (B.handle m s (.call handler)).1
  stays : ∀ m s item, Stopped s → W.restart item = false → Stopped (B.handle m s item).1
  deliver : ∀ s op outcome, Stopped s → Stopped (B.deliver s op outcome)
  op_pos : ∀ op, 2 ≤ W.op op
  early : ∀ m s item, tally W.op ((B.handle m s item).2.filterMap B.starts) + 1 ≤ W.early item
  call : ∀ m s handler, Stopped s ∨ W.stops handler = true → W.restarts handler = false →
    tally W.op ((B.handle m s (.call handler)).2.filterMap B.starts) + 1 ≤ W.call handler
  completion : ∀ m s op outcome, Stopped s →
    tally W.op ((B.handle m s (.completion op outcome)).2.filterMap B.starts) + 2 ≤ W.op op
  direct : ∀ s op outcome effects, B.direct s op outcome = some effects →
    tally W.op (effects.filterMap B.starts) + 1 ≤ W.op op

/-- The object will be stopped when the items in front have been handled, and is not restarted. -/
structure WindsDown (W : Weights η ω ο) (Stopped : σ → Prop) (o : Object σ η ω ο)
    (front back : List (Item η ω ο)) : Prop where
  queue : o.queue = front ++ back
  stopping : (front = [] ∧ Stopped o.data) ∨
    ∃ handler rest, back = .call handler :: rest ∧ W.stops handler = true
  no_restart : ∀ item ∈ back, W.restart item = false

/-- What is still to come. -/
def potential (W : Weights η ω ο) (o : Object σ η ω ο) (front back : List (Item η ω ο)) : ℕ :=
  tally W.early front + tally W.late back + tally W.op (o.inFlight.map InFlight.op)

/-- The weight that an event brings from outside. -/
def cost (W : Weights η ω ο) : StrandEvent μ η ο → ℕ
  | .call handler => W.call handler
  | .finish _ _ | .run _ => 0

/-- An event of the object itself. -/
def isOwn : StrandEvent μ η ο → Bool
  | .call _ => false
  | .finish _ _ | .run _ => true

variable {B : Behaviour σ η ω ο μ φ} {W : Weights η ω ο} {Stopped : σ → Prop}
  {front back : List (Item η ω ο)}

/-! ## One event -/

theorem potential_perform (data : σ) (queue : List (Item η ω ο)) (ops : List (InFlight ω))
    (effects : List φ) :
    potential W { data := data, queue := queue, inFlight := B.perform ops effects } front back =
      tally W.early front + tally W.late back + (tally W.op (ops.map InFlight.op) +
        tally W.op (effects.filterMap B.starts)) := by
  rw [potential, perform_ops, tally_append]

theorem WindsDown.call {o o' : Object σ η ω ο} {handler : η} {effects : List φ}
    (ho : WindsDown W Stopped o front back) (hno : W.restarts handler = false)
    (h : B.react o (.call handler) = some (o', effects)) :
    WindsDown W Stopped o' front (back ++ [.call handler]) ∧
      potential W o' front (back ++ [.call handler]) = potential W o front back + W.call handler := by
  obtain ⟨rfl, -⟩ := react_call.mp h
  refine ⟨⟨?_, ?_, ?_⟩, ?_⟩
  · rw [ho.queue, List.append_assoc]
  · rcases ho.stopping with hstopped | ⟨stop, rest, rfl, hstop⟩
    · exact Or.inl hstopped
    · exact Or.inr ⟨stop, rest ++ [.call handler], rfl, hstop⟩
  · exact List.forall_mem_append.mpr ⟨ho.no_restart, List.forall_mem_singleton.mpr hno⟩
  · simp only [potential, tally_append, tally_cons, tally_nil, Weights.late]
    omega

theorem WindsDown.finish (hB : Draining B W Stopped) {o o' : Object σ η ω ο} {i : ℕ} {outcome : ο}
    {effects : List φ} (ho : WindsDown W Stopped o front back)
    (h : B.react o (.finish i outcome) = some (o', effects)) :
    ∃ back', WindsDown W Stopped o' front back' ∧
      potential W o' front back' + 1 ≤ potential W o front back := by
  obtain ⟨p, hp, ⟨-, -, rfl⟩ | ⟨hd, rfl⟩⟩ := react_finish h
  · have hflight : tally W.op (o.inFlight.map InFlight.op) =
        W.op p.op + tally W.op ((o.inFlight.eraseIdx i).map InFlight.op) := by
      rw [tally_map, tally_map]
      exact tally_eraseIdx (fun p : InFlight ω => W.op p.op) hp
    have hpos := hB.op_pos p.op
    refine ⟨back ++ [.completion p.op outcome], ⟨?_, ?_, ?_⟩, ?_⟩
    · dsimp only
      rw [ho.queue, List.append_assoc]
    · rcases ho.stopping with ⟨hfront, hstopped⟩ | ⟨stop, rest, rfl, hstop⟩
      · exact Or.inl ⟨hfront, hB.deliver _ _ _ hstopped⟩
      · exact Or.inr ⟨stop, rest ++ [.completion p.op outcome], rfl, hstop⟩
    · exact List.forall_mem_append.mpr ⟨ho.no_restart, List.forall_mem_singleton.mpr rfl⟩
    · simp only [potential, tally_append, tally_cons, tally_nil, Weights.late, hflight]
      omega
  · have hflight : tally W.op (o.inFlight.map InFlight.op) =
        W.op p.op + tally W.op ((o.inFlight.eraseIdx i).map InFlight.op) := by
      rw [tally_map, tally_map]
      exact tally_eraseIdx (fun p : InFlight ω => W.op p.op) hp
    have hdirect := hB.direct _ _ _ _ hd
    refine ⟨back, ⟨ho.queue, ho.stopping, ho.no_restart⟩, ?_⟩
    rw [potential_perform, potential, hflight]
    omega

theorem WindsDown.run (hB : Draining B W Stopped) {o o' : Object σ η ω ο} {m : μ} {effects : List φ}
    (ho : WindsDown W Stopped o front back) (h : B.react o (.run m) = some (o', effects)) :
    ∃ front' back', WindsDown W Stopped o' front' back' ∧
      potential W o' front' back' + 1 ≤ potential W o front back := by
  obtain ⟨item, rest, hq, -, rfl⟩ := react_run h
  have hqueue := ho.queue
  rw [hq] at hqueue
  cases front with
  | cons first front =>
    -- an item in front of the stop may start whatever it likes, once
    obtain ⟨rfl, rfl⟩ := List.cons.inj hqueue
    have hearly := hB.early m o.data item
    refine ⟨front, back, ⟨rfl, ?_, ho.no_restart⟩, ?_⟩
    · exact ho.stopping.elim (fun hstopped => absurd hstopped.1 (List.cons_ne_nil _ _)) Or.inr
    · rw [potential_perform, potential, tally_cons]
      omega
  | nil =>
    rw [List.nil_append] at hqueue
    subst hqueue
    have hno := ho.no_restart item List.mem_cons_self
    have hrest : ∀ x ∈ rest, W.restart x = false :=
      fun x hx => ho.no_restart x (List.mem_cons_of_mem item hx)
    have hcases : Stopped o.data ∨ ∃ handler, item = .call handler ∧ W.stops handler = true := by
      rcases ho.stopping with ⟨-, hstopped⟩ | ⟨handler, more, hback, hstop⟩
      · exact Or.inl hstopped
      · exact Or.inr ⟨handler, (List.cons.inj hback).1, hstop⟩
    have hstopped : Stopped (B.handle m o.data item).1 := by
      rcases hcases with hstopped | ⟨handler, rfl, hstop⟩
      · exact hB.stays m o.data item hstopped hno
      · exact hB.stop m o.data handler hstop
    have hlate : tally W.op ((B.handle m o.data item).2.filterMap B.starts) + 1 ≤ W.late item := by
      cases item with
      | call handler =>
        refine hB.call m o.data handler (hcases.imp id ?_) hno
        rintro ⟨handler', hitem, hstop⟩
        obtain rfl := Item.call.inj hitem
        exact hstop
      | completion op outcome =>
        have hdata : Stopped o.data := hcases.resolve_right (by rintro ⟨_, hitem, -⟩; cases hitem)
        have hcompletion := hB.completion m o.data op outcome hdata
        rw [Weights.late]
        omega
    refine ⟨[], rest, ⟨rfl, Or.inl ⟨rfl, hstopped⟩, hrest⟩, ?_⟩
    rw [potential_perform, potential, tally_cons]
    omega

/-- What an object does after a stop has been queued is paid for by its weight. -/
theorem WindsDown.react (hB : Draining B W Stopped) {o o' : Object σ η ω ο} {e : StrandEvent μ η ο}
    {effects : List φ} (ho : WindsDown W Stopped o front back)
    (hno : ∀ handler, e = .call handler → W.restarts handler = false)
    (h : B.react o e = some (o', effects)) :
    ∃ front' back', WindsDown W Stopped o' front' back' ∧
      potential W o' front' back' + (isOwn e).toNat ≤ potential W o front back + cost W e := by
  cases e with
  | call handler =>
    obtain ⟨ho', hpotential⟩ := ho.call (hno handler rfl) h
    exact ⟨front, _, ho', Nat.le_of_eq hpotential⟩
  | finish i outcome =>
    obtain ⟨back', ho', hpotential⟩ := ho.finish hB h
    exact ⟨front, back', ho', hpotential⟩
  | run m =>
    obtain ⟨front', back', ho', hpotential⟩ := ho.run hB h
    exact ⟨front', back', ho', hpotential⟩

/-! ## Going on -/

/-- An object that has something left can go on, when a cancelled operation can complete. -/
theorem exists_own_event (hB : ∃ outcome, B.aborted outcome = true) (m : μ) {o : Object σ η ω ο}
    (h : o.queue ≠ [] ∨ o.inFlight ≠ []) :
    ∃ e o', isOwn (μ := μ) (η := η) (ο := ο) e = true ∧ B.step o e = some o' := by
  by_cases hqueue : o.queue = []
  · obtain ⟨outcome, haborted⟩ := hB
    obtain ⟨p, ops, hops⟩ := List.exists_cons_of_ne_nil (h.resolve_left (not_not.mpr hqueue))
    refine ⟨.finish 0 outcome, ?_⟩
    rw [step, react, hops]
    simp only [List.getElem?_cons_zero, haborted, Bool.not_true, Bool.and_false, Bool.false_eq_true,
      if_false]
    cases B.direct o.data p.op outcome with
    | none => exact ⟨_, rfl, rfl⟩
    | some effects => exact ⟨_, rfl, rfl⟩
  · obtain ⟨item, rest, hitem⟩ := List.exists_cons_of_ne_nil hqueue
    exact ⟨.run m, _, rfl, step_eq_some.mpr ⟨_, react_run_cons m hitem⟩⟩

end Behaviour
end Foundations
