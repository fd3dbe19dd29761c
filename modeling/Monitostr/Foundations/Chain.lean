import Monitostr.Foundations.Strand

/-! # Chains of operations

The handlers of an object may keep chains of operations going: a handler starts an operation of a
chain only in place of the one whose completion it handles, and only some calls begin a new chain.
There are then never more of these operations outstanding than chains were begun.
-/

namespace Foundations
namespace Behaviour
set_option autoImplicit false

variable {σ η ω ο μ φ : Type*} (begins : η → Bool) (P : ω → Bool)

def isCallOf : Item η ω ο → Bool
  | .call handler => begins handler
  | .completion _ _ => false

def isCallEvent : StrandEvent μ η ο → Bool
  | .call handler => begins handler
  | _ => false

structure Chained (B : Behaviour σ η ω ο μ φ) : Prop where
  handled : ∀ m s item, startCount P B (B.handle m s item).2 ≤
    (isCompletionOf P item).toNat + (isCallOf begins item).toNat
  direct : ∀ s op outcome effects, B.direct s op outcome = some effects →
    startCount P B effects = 0

/-- The chains of an object: those that go on, and those that a queued call will begin. -/
def chains (o : Object σ η ω ο) : ℕ := outstanding P o + o.queue.countP (isCallOf begins)

variable {begins P} {B : Behaviour σ η ω ο μ φ}

theorem outstanding_le_chains (o : Object σ η ω ο) : outstanding P o ≤ chains begins P o :=
  Nat.le_add_right _ _

namespace Chained

theorem call {o o' : Object σ η ω ο} {handler : η} {effects : List φ}
    (h : B.react o (.call handler) = some (o', effects)) :
    chains begins P o' = chains begins P o + (begins handler).toNat := by
  have hcount := outstanding_call P h
  obtain ⟨rfl, -⟩ := react_call.mp h
  have hqueue : (o.queue ++ [Item.call handler]).countP (isCallOf begins) =
      o.queue.countP (isCallOf begins) + (begins handler).toNat := by
    rw [List.countP_append, countP_cons_toNat, List.countP_nil, Nat.zero_add]
    rfl
  simp only [chains, hcount, hqueue]
  omega

theorem finish (hB : Chained begins P B) {o o' : Object σ η ω ο} {i : ℕ} {outcome : ο}
    {effects : List φ} (h : B.react o (.finish i outcome) = some (o', effects)) :
    chains begins P o' ≤ chains begins P o := by
  have hcount := outstanding_finish P h
  obtain ⟨p, -, ⟨-, rfl, rfl⟩ | ⟨hd, rfl⟩⟩ := react_finish h
  · have hnone : startCount P B [] = 0 := rfl
    simp only [chains, List.countP_append, List.countP_singleton, isCallOf, Bool.false_eq_true,
      if_false, Nat.add_zero] at hcount ⊢
    omega
  · rw [hB.direct _ _ _ _ hd] at hcount
    simp only [chains] at hcount ⊢
    omega

/-- The handler of an item takes the place of what the item was. -/
theorem run_item {o o' : Object σ η ω ο} {m : μ} {item : Item η ω ο} {rest : List (Item η ω ο)}
    {effects : List φ} (hq : o.queue = item :: rest)
    (h : B.react o (.run m) = some (o', effects)) :
    chains begins P o' + (isCompletionOf P item).toNat + (isCallOf begins item).toNat =
      chains begins P o + startCount P B (B.handle m o.data item).2 := by
  have hcount := outstanding_run P hq h
  rw [react_run_cons m hq] at h
  obtain ⟨rfl, -⟩ := Prod.mk.inj (Option.some.inj h)
  simp only [chains, hq, countP_cons_toNat] at hcount ⊢
  omega

theorem react (hB : Chained begins P B) {o o' : Object σ η ω ο} {e : StrandEvent μ η ο}
    {effects : List φ} (h : B.react o e = some (o', effects)) :
    chains begins P o' ≤ chains begins P o + (isCallEvent begins e).toNat := by
  cases e with
  | call handler => exact Nat.le_of_eq (call h)
  | finish i outcome => exact Nat.le_trans (hB.finish h) (Nat.le_add_right _ _)
  | run m =>
    obtain ⟨item, rest, hq, -, -⟩ := react_run h
    have hitem : chains begins P o' + (isCompletionOf P item).toNat + (isCallOf begins item).toNat =
        chains begins P o + startCount P B (B.handle m o.data item).2 := run_item hq h
    have hstart := hB.handled m o.data item
    simp only [isCallEvent, Bool.toNat_false, Nat.add_zero]
    omega

theorem run (hB : Chained begins P B) {o t : Object σ η ω ο} {es : List (StrandEvent μ η ο)}
    (h : Foundations.run B.step o es = some t) :
    chains begins P t ≤ chains begins P o + es.countP (isCallEvent begins) := by
  induction es generalizing o with
  | nil =>
    rw [run_nil, Option.some.injEq] at h
    subst h
    exact Nat.le_add_right _ _
  | cons e es ih =>
    obtain ⟨o', hstep, hrun⟩ := run_cons_eq_some.mp h
    obtain ⟨effects, hreact⟩ := step_eq_some.mp hstep
    have hone := hB.react hreact
    have hrest := ih hrun
    rw [countP_cons_toNat]
    omega

/-- An object without chains starts none of their operations. -/
theorem none_started (hB : Chained begins P B) {o o' : Object σ η ω ο} {e : StrandEvent μ η ο}
    {effects : List φ} (h : B.react o e = some (o', effects)) (hnone : chains begins P o = 0) :
    startCount P B effects = 0 := by
  cases e with
  | call handler =>
    obtain ⟨-, rfl⟩ := react_call.mp h
    rfl
  | finish i outcome =>
    obtain ⟨p, -, ⟨-, rfl, -⟩ | ⟨hd, -⟩⟩ := react_finish h
    · rfl
    · exact hB.direct _ _ _ _ hd
  | run m =>
    obtain ⟨item, rest, hq, rfl, -⟩ := react_run h
    have hstart := hB.handled m o.data item
    simp only [chains, outstanding, hq, countP_cons_toNat] at hnone
    omega

end Chained
end Behaviour
end Foundations
