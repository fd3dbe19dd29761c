import Monitostr.Foundations.Chain
import Mathlib.Data.List.Perm.Basic

/-! # Where a chain of operations is

With one chain, an object is in one of three places: the call that begins the chain is still queued, one
operation of the chain is outstanding, or the chain is over. An event leaves the place alone, or it runs the
handler of what is in that place, and what this handler starts is the next place.
-/

namespace Foundations
namespace Behaviour
set_option autoImplicit false

variable {σ η ω ο μ φ : Type*} (begins : η → Bool) (P : ω → Bool)

inductive Place (ω : Type*)
  | ahead
  | busy (op : ω)
  | spent
  deriving DecidableEq

def completedOp : Item η ω ο → Option ω
  | .call _ => none
  | .completion op _ => some op

@[simp] theorem completedOp_call (handler : η) :
    completedOp (Item.call handler : Item η ω ο) = none := rfl

@[simp] theorem completedOp_completion (op : ω) (outcome : ο) :
    completedOp (Item.completion op outcome : Item η ω ο) = some op := rfl

/-- The outstanding operations of a kind, those in the queue first. -/
def outstandingOps (o : Object σ η ω ο) : List ω :=
  (o.queue.filterMap completedOp ++ o.inFlight.map InFlight.op).filter P

/-- The object is in this place. -/
def IsAt (o : Object σ η ω ο) : Place ω → Prop
  | .ahead => o.queue.countP (isCallOf begins) = 1 ∧ outstandingOps P o = []
  | .busy op => o.queue.countP (isCallOf begins) = 0 ∧ outstandingOps P o = [op]
  | .spent => o.queue.countP (isCallOf begins) = 0 ∧ outstandingOps P o = []

/-- The handler of the item takes the object out of this place. -/
def Leaves : Item η ω ο → Place ω → Prop
  | .call handler, place => begins handler = true ∧ place = .ahead
  | .completion op _, place => P op = true ∧ place = .busy op

def Place.ofStarted : List ω → Place ω
  | [] => .spent
  | op :: _ => .busy op

variable {begins P} {B : Behaviour σ η ω ο μ φ}

/-! ## Outstanding operations after an event -/

theorem outstandingOps_length (o : Object σ η ω ο) :
    (outstandingOps P o).length = outstanding P o := by
  have hqueue : ∀ items : List (Item η ω ο),
      (items.filterMap completedOp).countP P = items.countP (isCompletionOf P) := by
    intro items
    induction items with
    | nil => rfl
    | cons item items ih =>
      cases item with
      | call handler => simpa [List.filterMap_cons, isCompletionOf] using ih
      | completion op outcome =>
        rw [countP_cons_toNat, ← ih, List.filterMap_cons]
        exact countP_cons_toNat P op _
  rw [outstandingOps, ← List.countP_eq_length_filter, List.countP_append, hqueue, List.countP_map]
  rfl

/-- With one chain, an outstanding operation is the only one. -/
theorem outstandingOps_unique {o : Object σ η ω ο} (hone : chains begins P o ≤ 1) {op op' : ω}
    (hop : op ∈ outstandingOps P o) (hop' : op' ∈ outstandingOps P o) : op = op' := by
  have hlen : (outstandingOps P o).length ≤ 1 := by
    rw [outstandingOps_length]
    exact Nat.le_trans (outstanding_le_chains o) hone
  cases hops : outstandingOps P o with
  | nil => rw [hops] at hop; cases hop
  | cons only rest =>
    rw [hops, List.length_cons] at hlen
    obtain rfl : rest = [] := List.length_eq_zero_iff.mp (by omega)
    rw [hops] at hop hop'
    exact (List.mem_singleton.mp hop).trans (List.mem_singleton.mp hop').symm

theorem outstandingOps_call {o : Object σ η ω ο} (handler : η) :
    outstandingOps P { o with queue := o.queue ++ [.call handler] } = outstandingOps P o := by
  simp [outstandingOps]

theorem outstandingOps_finish {o : Object σ η ω ο} {data : σ} {i : ℕ} {p : InFlight ω} {outcome : ο}
    (hp : o.inFlight[i]? = some p) :
    (outstandingOps P
      { data := data
        queue := o.queue ++ [.completion p.op outcome]
        inFlight := o.inFlight.eraseIdx i }).Perm (outstandingOps P o) := by
  have hflight : (p.op :: (o.inFlight.eraseIdx i).map InFlight.op).Perm
      (o.inFlight.map InFlight.op) := by
    obtain ⟨hi, rfl⟩ := List.getElem?_eq_some_iff.mp hp
    exact (List.getElem_cons_eraseIdx_perm hi).map InFlight.op
  refine List.Perm.filter P ?_
  simp only [List.filterMap_append, List.filterMap_cons, completedOp_completion, List.filterMap_nil,
    List.append_assoc, List.singleton_append]
  exact hflight.append_left _

theorem outstandingOps_cons {o : Object σ η ω ο} {item : Item η ω ο} {rest : List (Item η ω ο)}
    (hq : o.queue = item :: rest) :
    outstandingOps P o =
      (completedOp item).toList.filter P ++ outstandingOps P { o with queue := rest } := by
  simp only [outstandingOps, hq, ← List.filter_append]
  cases item <;> simp [List.filterMap_cons]

theorem outstandingOps_perform (o : Object σ η ω ο) (data : σ) (effects : List φ) :
    outstandingOps P { o with data := data, inFlight := B.perform o.inFlight effects } =
      outstandingOps P o ++ (effects.filterMap B.starts).filter P := by
  simp [outstandingOps, perform_ops]

theorem filter_started_of_none {effects : List φ} (h : startCount P B effects = 0) :
    (effects.filterMap B.starts).filter P = [] :=
  List.filter_eq_nil_iff.mpr (by simpa using List.countP_eq_zero.mp h)

/-- A completion past the strand, of an operation of another kind, that starts none of this kind. -/
theorem outstandingOps_direct {o : Object σ η ω ο} {i : ℕ} {p : InFlight ω} {effects : List φ}
    (hp : o.inFlight[i]? = some p) (hop : P p.op = false) (hnone : startCount P B effects = 0) :
    outstandingOps P { o with inFlight := B.perform (o.inFlight.eraseIdx i) effects } =
      outstandingOps P o := by
  have herase : ∀ (ops : List (InFlight ω)) (i : ℕ), ops[i]? = some p →
      ((ops.eraseIdx i).map InFlight.op).filter P = (ops.map InFlight.op).filter P := by
    intro ops
    induction ops with
    | nil => simp
    | cons q ops ih =>
      intro i hi
      cases i with
      | zero =>
        obtain rfl : q = p := by simpa using hi
        simp [hop]
      | succ i =>
        have hrest := ih i (by simpa using hi)
        simp [List.filter_cons, hrest]
  simp only [outstandingOps, List.filter_append, perform_ops, filter_started_of_none hnone,
    List.append_nil, herase _ _ hp]

/-- What is outstanding after an event: some of what was, and what the event has started. -/
theorem mem_outstandingOps_react {o o' : Object σ η ω ο} {e : StrandEvent μ η ο} {effects : List φ}
    {op : ω} (h : B.react o e = some (o', effects)) :
    (op ∈ outstandingOps P o' → op ∈ outstandingOps P o ∨ op ∈ effects.filterMap B.starts) ∧
      (op ∈ effects.filterMap B.starts → P op = true → op ∈ outstandingOps P o') := by
  cases e with
  | call handler =>
    obtain ⟨rfl, rfl⟩ := react_call.mp h
    exact ⟨fun hop => Or.inl ((outstandingOps_call handler) ▸ hop), nofun⟩
  | finish i outcome =>
    obtain ⟨p, hp, ⟨-, rfl, rfl⟩ | ⟨-, rfl⟩⟩ := react_finish h
    · exact ⟨fun hop => Or.inl ((outstandingOps_finish hp).subset hop), nofun⟩
    · have hafter := outstandingOps_perform (P := P) (B := B)
        { o with inFlight := o.inFlight.eraseIdx i } o.data effects
      constructor
      · intro hop
        rw [hafter] at hop
        rcases List.mem_append.mp hop with hop | hop
        · refine Or.inl (List.mem_filter.mpr ⟨?_, (List.mem_filter.mp hop).2⟩)
          rcases List.mem_append.mp (List.mem_filter.mp hop).1 with hqueue | hflight
          · exact List.mem_append_left _ hqueue
          · exact List.mem_append_right _ (((List.eraseIdx_sublist _ i).map _).subset hflight)
        · exact Or.inr (List.mem_filter.mp hop).1
      · intro hop hP
        rw [hafter]
        exact List.mem_append_right _ (List.mem_filter.mpr ⟨hop, hP⟩)
  | run m =>
    obtain ⟨item, rest, hq, rfl, rfl⟩ := react_run h
    have hafter := outstandingOps_perform (P := P) (B := B) { o with queue := rest }
      (B.handle m o.data item).1 (B.handle m o.data item).2
    have hbefore : outstandingOps P o =
        (completedOp item).toList.filter P ++ outstandingOps P { o with queue := rest } :=
      outstandingOps_cons hq
    rw [hafter, hbefore]
    constructor
    · intro hop
      rcases List.mem_append.mp hop with hop | hop
      · exact Or.inl (List.mem_append_right _ hop)
      · exact Or.inr (List.mem_filter.mp hop).1
    · exact fun hop hP => List.mem_append_right _ (List.mem_filter.mpr ⟨hop, hP⟩)

/-! ## Places -/

theorem IsAt.congr {o o' : Object σ η ω ο} {place : Place ω} (h : IsAt begins P o place)
    (hcalls : o'.queue.countP (isCallOf begins) = o.queue.countP (isCallOf begins))
    (hops : (outstandingOps P o').Perm (outstandingOps P o)) : IsAt begins P o' place := by
  cases place with
  | ahead => exact ⟨hcalls.trans h.1, List.perm_nil.mp (h.2 ▸ hops)⟩
  | busy op => exact ⟨hcalls.trans h.1, List.perm_singleton.mp (h.2 ▸ hops)⟩
  | spent => exact ⟨hcalls.trans h.1, List.perm_nil.mp (h.2 ▸ hops)⟩

/-- The place after an object whose only chain was in the handled item. -/
theorem isAt_ofStarted {o : Object σ η ω ο} {started : List ω}
    (hcalls : o.queue.countP (isCallOf begins) = 0) (hops : outstandingOps P o = started)
    (hone : started.length ≤ 1) : IsAt begins P o (.ofStarted started) := by
  cases started with
  | nil => exact ⟨hcalls, hops⟩
  | cons op ops =>
    have hnil : ops = [] := List.length_eq_zero_iff.mp (by simpa using hone)
    subst hnil
    exact ⟨hcalls, hops⟩

/-- An item that takes the object out of its place leaves no other chain behind. -/
theorem IsAt.leave {o : Object σ η ω ο} {place : Place ω} {item : Item η ω ο}
    {rest : List (Item η ω ο)} (h : IsAt begins P o place) (hq : o.queue = item :: rest)
    (hitem : (isCompletionOf P item).toNat + (isCallOf begins item).toNat ≠ 0) :
    Leaves begins P item place ∧ rest.countP (isCallOf begins) = 0 ∧
      outstandingOps P { o with queue := rest } = [] := by
  have hcount : o.queue.countP (isCallOf begins) =
      rest.countP (isCallOf begins) + (isCallOf begins item).toNat := by
    rw [hq, countP_cons_toNat]
  have hops : outstandingOps P o =
      (completedOp item).toList.filter P ++ outstandingOps P { o with queue := rest } :=
    outstandingOps_cons hq
  cases item with
  | call handler =>
    have hbegins : begins handler = true := by
      cases hb : begins handler with
      | true => rfl
      | false => simp [isCompletionOf, isCallOf, hb] at hitem
    rw [isCallOf, hbegins, Bool.toNat_true] at hcount
    cases place with
    | ahead =>
      obtain ⟨hcalls, hnone⟩ := h
      rw [hnone] at hops
      exact ⟨⟨hbegins, rfl⟩, by omega, hops.symm⟩
    | busy op => exact absurd h.1 (by omega)
    | spent => exact absurd h.1 (by omega)
  | completion op outcome =>
    have hP : P op = true := by
      cases hb : P op with
      | true => rfl
      | false => simp [isCompletionOf, isCallOf, hb] at hitem
    simp only [isCallOf, Bool.toNat_false, Nat.add_zero] at hcount
    simp only [completedOp_completion, Option.toList_some, List.filter_cons_of_pos hP,
      List.filter_nil, List.singleton_append] at hops
    cases place with
    | ahead => rw [h.2] at hops; cases hops
    | busy op' =>
      obtain ⟨hcalls, hsingle⟩ := h
      rw [hsingle] at hops
      obtain ⟨rfl, hnone⟩ := List.cons.inj hops
      exact ⟨⟨hP, rfl⟩, by omega, hnone.symm⟩
    | spent => rw [h.2] at hops; cases hops

/-- What an event does to the place of an object: nothing, or it runs the handler of what is there. -/
inductive Moved (begins : η → Bool) (P : ω → Bool) (B : Behaviour σ η ω ο μ φ)
    (o o' : Object σ η ω ο) (e : StrandEvent μ η ο) (effects : List φ) : Place ω → Place ω → Prop
  | stays (place : Place ω) : startCount P B effects = 0 →
    (∀ item, handledItem o e = some item →
      isCompletionOf P item = false ∧ isCallOf begins item = false) →
    Moved begins P B o o' e effects place place
  | leaves (place : Place ω) (m : μ) (item : Item η ω ο) (rest : List (Item η ω ο)) :
    e = .run m → o.queue = item :: rest → effects = (B.handle m o.data item).2 →
    o'.data = (B.handle m o.data item).1 → Leaves begins P item place →
    Moved begins P B o o' e effects place (.ofStarted ((effects.filterMap B.starts).filter P))

/-- **Moving along the chain.** -/
theorem IsAt.react (hB : Chained begins P B)
    (hdirect : ∀ s op outcome effects, B.direct s op outcome = some effects → P op = false)
    {o o' : Object σ η ω ο} {e : StrandEvent μ η ο} {effects : List φ} {place : Place ω}
    (h : IsAt begins P o place) (he : isCallEvent begins e = false)
    (hreact : B.react o e = some (o', effects)) :
    ∃ place', IsAt begins P o' place' ∧ Moved begins P B o o' e effects place place' := by
  cases e with
  | call handler =>
    obtain ⟨rfl, rfl⟩ := react_call.mp hreact
    have hops := outstandingOps_call (P := P) (o := o) handler
    refine ⟨place, h.congr ?_ (by rw [hops]), .stays _ rfl fun x hx => by cases hx⟩
    have hnot : begins handler = false := he
    simp [List.countP_append, isCallOf, hnot]
  | finish i outcome =>
    obtain ⟨p, hp, ⟨-, rfl, rfl⟩ | ⟨hd, rfl⟩⟩ := react_finish hreact
    · refine ⟨place, h.congr ?_ (outstandingOps_finish hp), .stays _ rfl fun x hx => by cases hx⟩
      simp [List.countP_append, isCallOf]
    · have hnone := hB.direct _ _ _ _ hd
      refine ⟨place, h.congr rfl ?_, .stays _ hnone fun x hx => by cases hx⟩
      rw [outstandingOps_direct hp (hdirect _ _ _ _ hd) hnone]
  | run m =>
    obtain ⟨item, rest, hq, rfl, rfl⟩ := react_run hreact
    have hstart := hB.handled m o.data item
    have hbefore : outstandingOps P o =
        (completedOp item).toList.filter P ++ outstandingOps P { o with queue := rest } :=
      outstandingOps_cons hq
    have hafter := outstandingOps_perform (P := P) (B := B) { o with queue := rest }
      (B.handle m o.data item).1 (B.handle m o.data item).2
    by_cases hitem : (isCompletionOf P item).toNat + (isCallOf begins item).toNat = 0
    · -- an item of no chain starts nothing of it
      have hnone : startCount P B (B.handle m o.data item).2 = 0 := by omega
      have hnot : isCompletionOf P item = false ∧ isCallOf begins item = false := by
        cases hc : isCompletionOf P item <;> cases hb : isCallOf begins item <;>
          simp [hc, hb] at hitem ⊢
      have hitemOp : (completedOp item).toList.filter P = [] := by
        cases item with
        | call handler => rfl
        | completion op outcome => exact List.filter_cons_of_neg (Bool.eq_false_iff.mp hnot.1)
      rw [filter_started_of_none hnone, List.append_nil] at hafter
      rw [hitemOp, List.nil_append] at hbefore
      refine ⟨place, h.congr ?_ (by rw [hafter, hbefore]), .stays _ hnone fun x hx => ?_⟩
      · simp [hq, hnot.2]
      · rw [handledItem, hq, List.head?_cons, Option.some.injEq] at hx
        exact hx ▸ hnot
    · obtain ⟨hleaves, hcalls, hops⟩ := h.leave hq hitem
      rw [hops, List.nil_append] at hafter
      refine ⟨_, isAt_ofStarted hcalls hafter ?_, .leaves place m item rest rfl hq rfl rfl hleaves⟩
      have hle : (isCompletionOf P item).toNat + (isCallOf begins item).toNat ≤ 1 := by
        cases item <;> simp [isCompletionOf, isCallOf, Bool.toNat_le]
      rw [← List.countP_eq_length_filter]
      exact Nat.le_trans hstart hle

end Behaviour
end Foundations
