import Monitostr.Foundations.Runs
import Mathlib.Data.List.Basic
import Mathlib.Data.List.Count

/-! # Objects whose handlers run on a strand

An object has a queue of work that is run in order, one item at a time, and asynchronous operations
in flight that complete in any order. What is queued is a call made from outside or the completion
of an operation. A handler changes the object's data and has effects, which may start operations or
cancel those in flight; a cancelled operation still completes, with an outcome that says so. An
operation may leave something in the object when it completes, before its handler runs; and some
completions bypass the strand and have their effects at once.
-/

namespace Foundations
set_option autoImplicit false

inductive Item (η ω ο : Type*)
  | call (handler : η)
  | completion (op : ω) (outcome : ο)
  deriving DecidableEq

structure InFlight (ω : Type*) where
  op : ω
  cancelled : Bool := false
  deriving DecidableEq

structure Object (σ η ω ο : Type*) where
  data : σ
  queue : List (Item η ω ο) := []
  inFlight : List (InFlight ω) := []
  deriving DecidableEq

/-- What can happen to an object: a call from outside, the completion of the operation at a position,
the next handler (which reads the surroundings `μ`). -/
inductive StrandEvent (μ η ο : Type*)
  | call (handler : η)
  | finish (i : ℕ) (outcome : ο)
  | run (m : μ)

/-- How the handlers of a class of objects behave. -/
structure Behaviour (σ η ω ο μ φ : Type*) where
  handle : μ → σ → Item η ω ο → σ × List φ
  starts : φ → Option ω
  cancels : φ → ω → Bool
  /-- The outcomes with which a cancelled operation may complete. -/
  aborted : ο → Bool
  /-- The data after an operation has completed, before its handler runs. -/
  deliver : σ → ω → ο → σ
  /-- The effects of a completion that bypasses the strand. -/
  direct : σ → ω → ο → Option (List φ)

namespace Behaviour
variable {σ η ω ο μ φ : Type*} (B : Behaviour σ η ω ο μ φ)

def performOne (ops : List (InFlight ω)) (effect : φ) : List (InFlight ω) :=
  let ops := ops.map fun p => { p with cancelled := p.cancelled || B.cancels effect p.op }
  match B.starts effect with
  | none => ops
  | some op => ops ++ [{ op := op }]

def perform (ops : List (InFlight ω)) (effects : List φ) : List (InFlight ω) :=
  effects.foldl B.performOne ops

/-- One event: the object after it and the effects it had, `none` when it is not enabled. -/
def react (o : Object σ η ω ο) : StrandEvent μ η ο → Option (Object σ η ω ο × List φ)
  | .call handler => some ({ o with queue := o.queue ++ [.call handler] }, [])
  | .finish i outcome =>
    match o.inFlight[i]? with
    | none => none
    | some p =>
      if p.cancelled && !B.aborted outcome then none
      else
        let rest := o.inFlight.eraseIdx i
        match B.direct o.data p.op outcome with
        | some effects => some ({ o with inFlight := B.perform rest effects }, effects)
        | none =>
          some ({ data := B.deliver o.data p.op outcome
                  queue := o.queue ++ [.completion p.op outcome]
                  inFlight := rest }, [])
  | .run m =>
    match o.queue with
    | [] => none
    | item :: rest =>
      let (data, effects) := B.handle m o.data item
      some ({ data := data, queue := rest, inFlight := B.perform o.inFlight effects }, effects)

def step (o : Object σ η ω ο) (e : StrandEvent μ η ο) : Option (Object σ η ω ο) :=
  (B.react o e).map Prod.fst

/-! ## What one event can do -/

variable {B}

theorem react_call {o o' : Object σ η ω ο} {handler : η} {effects : List φ} :
    B.react o (.call handler) = some (o', effects) ↔
      { o with queue := o.queue ++ [.call handler] } = o' ∧ [] = effects := by
  rw [react, Option.some.injEq, Prod.mk.injEq]

theorem react_run {o o' : Object σ η ω ο} {m : μ} {effects : List φ}
    (h : B.react o (.run m) = some (o', effects)) : ∃ item rest, o.queue = item :: rest ∧
      effects = (B.handle m o.data item).2 ∧
      o' = { data := (B.handle m o.data item).1, queue := rest,
             inFlight := B.perform o.inFlight (B.handle m o.data item).2 } := by
  rw [react] at h
  cases hq : o.queue with
  | nil =>
    rw [hq] at h
    cases h
  | cons item rest =>
    rw [hq] at h
    obtain ⟨rfl, rfl⟩ := Prod.mk.inj (Option.some.inj h)
    exact ⟨item, rest, rfl, rfl, rfl⟩

theorem react_run_cons {o : Object σ η ω ο} {item : Item η ω ο} {rest : List (Item η ω ο)} (m : μ)
    (hq : o.queue = item :: rest) :
    B.react o (.run m) =
      some ({ data := (B.handle m o.data item).1, queue := rest,
              inFlight := B.perform o.inFlight (B.handle m o.data item).2 },
            (B.handle m o.data item).2) := by
  rw [react, hq]

theorem react_finish_queued {o : Object σ η ω ο} {i : ℕ} {p : InFlight ω} {outcome : ο}
    (hp : o.inFlight[i]? = some p) (hlive : p.cancelled = false)
    (hd : B.direct o.data p.op outcome = none) :
    B.react o (.finish i outcome) =
      some ({ data := B.deliver o.data p.op outcome
              queue := o.queue ++ [.completion p.op outcome]
              inFlight := o.inFlight.eraseIdx i }, []) := by
  rw [react, hp]
  dsimp only
  rw [hlive, Bool.false_and, if_neg Bool.false_ne_true, hd]

theorem react_finish {o o' : Object σ η ω ο} {i : ℕ} {outcome : ο} {effects : List φ}
    (h : B.react o (.finish i outcome) = some (o', effects)) : ∃ p, o.inFlight[i]? = some p ∧
      ((B.direct o.data p.op outcome = none ∧ effects = [] ∧
        o' = { data := B.deliver o.data p.op outcome,
               queue := o.queue ++ [.completion p.op outcome],
               inFlight := o.inFlight.eraseIdx i }) ∨
      (B.direct o.data p.op outcome = some effects ∧
        o' = { o with inFlight := B.perform (o.inFlight.eraseIdx i) effects })) := by
  rw [react] at h
  cases hp : o.inFlight[i]? with
  | none =>
    rw [hp] at h
    cases h
  | some p =>
    rw [hp] at h
    dsimp only at h
    split at h
    · cases h
    · refine ⟨p, rfl, ?_⟩
      cases hd : B.direct o.data p.op outcome with
      | none =>
        rw [hd] at h
        obtain ⟨rfl, rfl⟩ := Prod.mk.inj (Option.some.inj h)
        exact Or.inl ⟨rfl, rfl, rfl⟩
      | some direct =>
        rw [hd] at h
        obtain ⟨rfl, rfl⟩ := Prod.mk.inj (Option.some.inj h)
        exact Or.inr ⟨rfl, rfl⟩

/-- The item whose handler an event runs. -/
def handledItem (o : Object σ η ω ο) : StrandEvent μ η ο → Option (Item η ω ο)
  | .run _ => o.queue.head?
  | _ => none

theorem react_handled {o o' : Object σ η ω ο} {e : StrandEvent μ η ο} {item : Item η ω ο}
    {effects : List φ} (hitem : handledItem o e = some item)
    (h : B.react o e = some (o', effects)) : ∃ m rest, e = .run m ∧ o.queue = item :: rest ∧
      effects = (B.handle m o.data item).2 ∧ o'.data = (B.handle m o.data item).1 ∧
      o'.queue = rest := by
  cases e with
  | call handler => cases hitem
  | finish i outcome => cases hitem
  | run m =>
    obtain ⟨item', rest, hq, rfl, rfl⟩ := react_run h
    rw [handledItem, hq, List.head?_cons, Option.some.injEq] at hitem
    subst hitem
    exact ⟨m, rest, rfl, hq, rfl, rfl, rfl⟩

theorem mem_queue_of_handled {o : Object σ η ω ο} {e : StrandEvent μ η ο} {item : Item η ω ο}
    (h : handledItem o e = some item) : item ∈ o.queue := by
  cases e with
  | call handler => cases h
  | finish i outcome => cases h
  | run m => exact List.mem_of_mem_head? h

/-- An event that runs no handler changes the data by a delivery at most, and has the effects of a
completion that bypasses the strand, if any. -/
theorem react_idle {o o' : Object σ η ω ο} {e : StrandEvent μ η ο} {effects : List φ}
    (hitem : handledItem o e = none) (h : B.react o e = some (o', effects)) :
    (effects = [] ∨ ∃ op outcome, B.direct o.data op outcome = some effects) ∧
      (o'.data = o.data ∨ ∃ op outcome, o'.data = B.deliver o.data op outcome) := by
  cases e with
  | call handler =>
    obtain ⟨rfl, rfl⟩ := react_call.mp h
    exact ⟨Or.inl rfl, Or.inl rfl⟩
  | finish i outcome =>
    obtain ⟨p, -, ⟨-, rfl, rfl⟩ | ⟨hd, rfl⟩⟩ := react_finish h
    · exact ⟨Or.inl rfl, Or.inr ⟨_, _, rfl⟩⟩
    · exact ⟨Or.inr ⟨_, _, hd⟩, Or.inl rfl⟩
  | run m =>
    obtain ⟨item, rest, hq, -, -⟩ := react_run h
    rw [handledItem, hq] at hitem
    cases hitem

theorem step_eq_some {o o' : Object σ η ω ο} {e : StrandEvent μ η ο} :
    B.step o e = some o' ↔ ∃ effects, B.react o e = some (o', effects) := by
  rw [step, Option.map_eq_some_iff]
  constructor
  · rintro ⟨⟨o', effects⟩, h, rfl⟩
    exact ⟨effects, h⟩
  · rintro ⟨effects, h⟩
    exact ⟨_, h, rfl⟩

/-- A member that no handler and no completion changes. -/
theorem react_keeps {α : Type*} (get : σ → α)
    (hhandle : ∀ m s item, get (B.handle m s item).1 = get s)
    (hdeliver : ∀ s op outcome, get (B.deliver s op outcome) = get s) {o o' : Object σ η ω ο}
    {e : StrandEvent μ η ο} {effects : List φ} (h : B.react o e = some (o', effects)) :
    get o'.data = get o.data := by
  cases e with
  | call handler =>
    obtain ⟨rfl, -⟩ := react_call.mp h
    rfl
  | finish i outcome =>
    obtain ⟨p, -, ⟨-, -, rfl⟩ | ⟨-, rfl⟩⟩ := react_finish h
    · exact hdeliver _ _ _
    · rfl
  | run m =>
    obtain ⟨item, rest, -, -, rfl⟩ := react_run h
    exact hhandle _ _ _

/-! ## The operations in flight -/

theorem perform_nil (ops : List (InFlight ω)) : B.perform ops [] = ops := rfl

theorem perform_cons (ops : List (InFlight ω)) (effect : φ) (effects : List φ) :
    B.perform ops (effect :: effects) = B.perform (B.performOne ops effect) effects := rfl

theorem perform_ops (ops : List (InFlight ω)) (effects : List φ) :
    (B.perform ops effects).map InFlight.op =
      ops.map InFlight.op ++ effects.filterMap B.starts := by
  induction effects generalizing ops with
  | nil => simp [perform_nil]
  | cons effect effects ih =>
    have hone : (B.performOne ops effect).map InFlight.op =
        ops.map InFlight.op ++ (B.starts effect).toList := by
      rw [performOne]
      cases hs : B.starts effect with
      | none => simp [Function.comp_def]
      | some op => simp [Function.comp_def]
    rw [perform_cons, ih, hone, List.append_assoc]
    cases hs : B.starts effect with
    | none => simp [hs]
    | some op => simp [hs]

theorem mem_perform {ops : List (InFlight ω)} {effects : List φ} {p : InFlight ω}
    (h : p ∈ B.perform ops effects) :
    (∃ q ∈ ops, q.op = p.op) ∨ ∃ effect ∈ effects, B.starts effect = some p.op := by
  have hop : p.op ∈ (B.perform ops effects).map InFlight.op := List.mem_map_of_mem h
  rw [perform_ops, List.mem_append, List.mem_map, List.mem_filterMap] at hop
  exact hop

theorem exists_mem_perform {ops : List (InFlight ω)} (effects : List φ) {q : InFlight ω}
    (h : q ∈ ops) : ∃ p ∈ B.perform ops effects, p.op = q.op := by
  have hop : q.op ∈ (B.perform ops effects).map InFlight.op := by
    rw [perform_ops]
    exact List.mem_append_left _ (List.mem_map_of_mem h)
  exact List.mem_map.mp hop

/-- Where a cancelled operation in flight got its mark: it had it before, or an effect cancelled it, which
for an operation that is started here is a later effect. -/
theorem cancelled_of_mem_perform {ops : List (InFlight ω)} {effects : List φ} {p : InFlight ω}
    (h : p ∈ B.perform ops effects) :
    (∃ q ∈ ops, q.op = p.op ∧
      (p.cancelled = true → q.cancelled = true ∨ ∃ effect ∈ effects, B.cancels effect p.op = true)) ∨
    ∃ before effect after, effects = before ++ effect :: after ∧ B.starts effect = some p.op ∧
      (p.cancelled = true → ∃ later ∈ after, B.cancels later p.op = true) := by
  induction effects generalizing ops with
  | nil => exact Or.inl ⟨p, h, rfl, Or.inl⟩
  | cons effect effects ih =>
    rw [perform_cons] at h
    rcases ih h with ⟨q, hq, hop, hcancel⟩ | ⟨before, e, after, rfl, hstarts, hcancel⟩
    · -- the operation was in flight before the first effect, or that effect starts it
      have hcases : (∃ r ∈ ops, q = { r with cancelled := r.cancelled || B.cancels effect r.op }) ∨
          (B.starts effect = some q.op ∧ q.cancelled = false) := by
        rw [performOne] at hq
        cases hs : B.starts effect with
        | none =>
          rw [hs] at hq
          obtain ⟨r, hr, rfl⟩ := List.mem_map.mp hq
          exact Or.inl ⟨r, hr, rfl⟩
        | some op =>
          rw [hs] at hq
          rcases List.mem_append.mp hq with hq | hq
          · obtain ⟨r, hr, rfl⟩ := List.mem_map.mp hq
            exact Or.inl ⟨r, hr, rfl⟩
          · obtain rfl := List.mem_singleton.mp hq
            exact Or.inr ⟨rfl, rfl⟩
      rcases hcases with ⟨r, hr, rfl⟩ | ⟨hstarts, hfresh⟩
      · refine Or.inl ⟨r, hr, hop, fun hp => ?_⟩
        rcases hcancel hp with hmark | ⟨later, hlater, hc⟩
        · rw [Bool.or_eq_true] at hmark
          exact hmark.imp id fun hc => ⟨effect, List.mem_cons_self, hop ▸ hc⟩
        · exact Or.inr ⟨later, List.mem_cons_of_mem _ hlater, hc⟩
      · refine Or.inr ⟨[], effect, effects, rfl, hop ▸ hstarts, fun hp => ?_⟩
        rcases hcancel hp with hmark | hlater
        · rw [hfresh] at hmark
          cases hmark
        · exact hlater
    · exact Or.inr ⟨effect :: before, e, after, rfl, hstarts, hcancel⟩

/-! ## Counting outstanding operations -/

section Outstanding
variable (P : ω → Bool)

def isCompletionOf : Item η ω ο → Bool
  | .call _ => false
  | .completion op _ => P op

/-- The operations of a kind whose completion has not been handled yet. -/
def outstanding (o : Object σ η ω ο) : ℕ :=
  o.queue.countP (isCompletionOf P) + o.inFlight.countP fun p => P p.op

def startCount (B : Behaviour σ η ω ο μ φ) (effects : List φ) : ℕ :=
  (effects.filterMap B.starts).countP P

theorem countP_perform (ops : List (InFlight ω)) (effects : List φ) :
    (B.perform ops effects).countP (fun p => P p.op) =
      ops.countP (fun p => P p.op) + startCount P B effects := by
  have hmap : ∀ ops : List (InFlight ω),
      ops.countP (fun p => P p.op) = (ops.map InFlight.op).countP P := fun ops => by
    rw [List.countP_map]
    rfl
  rw [hmap, perform_ops, List.countP_append, ← hmap, startCount]

theorem countP_cons_toNat {α : Type*} (p : α → Bool) (a : α) (l : List α) :
    (a :: l).countP p = l.countP p + (p a).toNat := by
  rw [List.countP_cons]
  cases p a <;> rfl

theorem countP_eraseIdx {α : Type*} (p : α → Bool) {l : List α} {i : ℕ} {a : α}
    (h : l[i]? = some a) : l.countP p = (l.eraseIdx i).countP p + (p a).toNat := by
  induction l generalizing i with
  | nil => cases h
  | cons b l ih =>
    cases i with
    | zero =>
      rw [List.getElem?_cons_zero, Option.some.injEq] at h
      rw [List.eraseIdx_cons_zero, countP_cons_toNat, h]
    | succ i =>
      rw [List.getElem?_cons_succ] at h
      rw [List.eraseIdx_cons_succ, countP_cons_toNat, countP_cons_toNat, ih h]
      omega

theorem countP_add_le {α : Type*} {p q r : α → Bool}
    (h : ∀ a, (p a).toNat + (q a).toNat ≤ (r a).toNat) (l : List α) :
    l.countP p + l.countP q ≤ l.countP r := by
  induction l with
  | nil => exact Nat.le_refl 0
  | cons a l ih =>
    have ha := h a
    rw [countP_cons_toNat, countP_cons_toNat, countP_cons_toNat]
    omega

/-- Kinds without a common operation, in a kind that has the operations of both. -/
theorem outstanding_add_le {P Q R : ω → Bool}
    (h : ∀ op, (P op).toNat + (Q op).toNat ≤ (R op).toNat) (o : Object σ η ω ο) :
    outstanding P o + outstanding Q o ≤ outstanding R o := by
  have hitem : ∀ item : Item η ω ο, (isCompletionOf P item).toNat + (isCompletionOf Q item).toNat ≤
      (isCompletionOf R item).toNat := by
    intro item
    cases item with
    | call handler => exact Nat.le_refl 0
    | completion op outcome => exact h op
  have hqueue := countP_add_le hitem o.queue
  have hflight := countP_add_le (fun p : InFlight ω => h p.op) o.inFlight
  simp only [outstanding]
  omega

theorem outstanding_call {o o' : Object σ η ω ο} {handler : η} {effects : List φ}
    (h : B.react o (.call handler) = some (o', effects)) : outstanding P o' = outstanding P o := by
  obtain ⟨rfl, -⟩ := react_call.mp h
  simp [outstanding, isCompletionOf]

/-- A completion moves an operation from flight to the queue; past the strand it is handled at once,
and what it starts is added. -/
theorem outstanding_finish {o o' : Object σ η ω ο} {i : ℕ} {outcome : ο} {effects : List φ}
    (h : B.react o (.finish i outcome) = some (o', effects)) :
    outstanding P o' ≤ outstanding P o + startCount P B effects := by
  obtain ⟨p, hp, ⟨-, rfl, rfl⟩ | ⟨-, rfl⟩⟩ := react_finish h
  · have hcount := countP_eraseIdx (fun p : InFlight ω => P p.op) hp
    have hqueue : (o.queue ++ [Item.completion p.op outcome]).countP (isCompletionOf P) =
        o.queue.countP (isCompletionOf P) + (P p.op).toNat := by
      rw [List.countP_append, countP_cons_toNat, List.countP_nil, Nat.zero_add]
      rfl
    simp only [outstanding, hqueue]
    omega
  · have hcount := countP_eraseIdx (fun p : InFlight ω => P p.op) hp
    simp only [outstanding, countP_perform]
    omega

theorem outstanding_run {o o' : Object σ η ω ο} {m : μ} {item : Item η ω ο}
    {rest : List (Item η ω ο)} {effects : List φ} (hq : o.queue = item :: rest)
    (h : B.react o (.run m) = some (o', effects)) :
    outstanding P o' + (isCompletionOf P item).toNat =
      outstanding P o + startCount P B (B.handle m o.data item).2 := by
  rw [react_run_cons m hq] at h
  obtain ⟨rfl, -⟩ := Prod.mk.inj (Option.some.inj h)
  simp only [outstanding, countP_perform, hq, countP_cons_toNat]
  omega

end Outstanding

/-! ## Members that only calls assign -/

section Register
variable {α : Type*} (get : σ → α) (assigns : η → Option α)

structure IsRegister (B : Behaviour σ η ω ο μ φ) : Prop where
  handled : ∀ m s item, get (B.handle m s item).1 =
    match item with
    | .call handler => (assigns handler).getD (get s)
    | .completion _ _ => get s
  delivered : ∀ s op outcome, get (B.deliver s op outcome) = get s

def assignItem (a : α) : Item η ω ο → α
  | .call handler => (assigns handler).getD a
  | .completion _ _ => a

/-- The member once everything that is queued has been handled. -/
def settled (o : Object σ η ω ο) : α := o.queue.foldl (assignItem assigns) (get o.data)

theorem settled_append (o : Object σ η ω ο) (item : Item η ω ο) :
    settled get assigns { o with queue := o.queue ++ [item] } =
      assignItem assigns (settled get assigns o) item := by
  rw [settled, List.foldl_append]
  rfl

theorem settled_eq {o : Object σ η ω ο}
    (h : ∀ handler, Item.call handler ∈ o.queue → assigns handler = none) :
    settled get assigns o = get o.data := by
  have hfold : ∀ (items : List (Item η ω ο)) (a : α),
      (∀ handler, Item.call handler ∈ items → assigns handler = none) →
        items.foldl (assignItem assigns) a = a := by
    intro items
    induction items with
    | nil => intro a _; rfl
    | cons item items ih =>
      intro a ha
      have hitem : assignItem assigns a item = a := by
        cases item with
        | call handler =>
          rw [assignItem, ha handler List.mem_cons_self]
          rfl
        | completion op outcome => rfl
      rw [List.foldl_cons, hitem]
      exact ih a fun handler hh => ha handler (List.mem_cons_of_mem _ hh)
  exact hfold o.queue _ h

theorem settled_react {get : σ → α} {assigns : η → Option α} (hB : IsRegister get assigns B)
    {o o' : Object σ η ω ο} {e : StrandEvent μ η ο} {effects : List φ}
    (he : ∀ handler, e ≠ .call handler) (h : B.react o e = some (o', effects)) :
    settled get assigns o' = settled get assigns o := by
  cases e with
  | call handler => exact absurd rfl (he handler)
  | finish i outcome =>
    obtain ⟨p, -, ⟨-, -, rfl⟩ | ⟨-, rfl⟩⟩ := react_finish h
    · rw [settled, hB.delivered]
      exact settled_append get assigns o (.completion p.op outcome)
    · rfl
  | run m =>
    obtain ⟨item, rest, hq, -, rfl⟩ := react_run h
    rw [settled, settled, hq, List.foldl_cons, hB.handled m o.data item]
    cases item <;> rfl

end Register

/-! ## A group of objects -/

def reactAt (B : Behaviour σ η ω ο μ φ) (os : List (Object σ η ω ο)) (i : ℕ)
    (e : StrandEvent μ η ο) : Option (List (Object σ η ω ο) × List φ) :=
  (os[i]?).bind fun o => (B.react o e).map fun (o', effects) => (os.set i o', effects)

theorem reactAt_eq_some {os os' : List (Object σ η ω ο)} {i : ℕ} {e : StrandEvent μ η ο}
    {effects : List φ} :
    B.reactAt os i e = some (os', effects) ↔
      ∃ o o', os[i]? = some o ∧ B.react o e = some (o', effects) ∧ os' = os.set i o' := by
  rw [reactAt, Option.bind_eq_some_iff]
  constructor
  · rintro ⟨o, ho, h⟩
    obtain ⟨⟨o', effects'⟩, hreact, heq⟩ := Option.map_eq_some_iff.mp h
    obtain ⟨rfl, rfl⟩ := Prod.mk.inj heq
    exact ⟨o, o', ho, hreact, rfl⟩
  · rintro ⟨o, o', ho, hreact, rfl⟩
    exact ⟨o, ho, Option.map_eq_some_iff.mpr ⟨_, hreact, rfl⟩⟩

theorem forall_reactAt {P : Object σ η ω ο → Prop} {os os' : List (Object σ η ω ο)} {i : ℕ}
    {e : StrandEvent μ η ο} {effects : List φ} (h : B.reactAt os i e = some (os', effects))
    (hP : ∀ o ∈ os, P o)
    (hstep : ∀ o o', P o → B.react o e = some (o', effects) → P o') : ∀ o ∈ os', P o := by
  obtain ⟨o, o', ho, hreact, rfl⟩ := reactAt_eq_some.mp h
  intro x hx
  rcases List.mem_or_eq_of_mem_set hx with hx | rfl
  · exact hP x hx
  · exact hstep o x (hP o (List.mem_of_getElem? ho)) hreact

theorem map_reactAt {β : Type*} (view : Object σ η ω ο → β) {os os' : List (Object σ η ω ο)}
    {i : ℕ} {e : StrandEvent μ η ο} {effects : List φ}
    (h : B.reactAt os i e = some (os', effects))
    (hview : ∀ o o', B.react o e = some (o', effects) → view o' = view o) :
    os'.map view = os.map view := by
  obtain ⟨o, o', ho, hreact, rfl⟩ := reactAt_eq_some.mp h
  obtain ⟨hi, rfl⟩ := List.getElem?_eq_some_iff.mp ho
  have hi' : i < (os.map view).length := by rwa [List.length_map]
  have hself : view os[i] = (os.map view)[i] := (List.getElem_map view).symm
  rw [List.map_set, hview _ o' hreact, hself, List.set_getElem_self hi']

end Behaviour
end Foundations
