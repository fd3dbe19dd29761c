import Monitostr.Foundations.Strand
import Mathlib.Data.List.Forall2
import Mathlib.Data.Option.Basic

/-! # Objects that differ in what is hidden

Two objects with one behaviour resemble each other when their data, what is queued and what is in flight do,
place by place. If the handlers keep the resemblance and have effects that resemble each other, so do the
objects after every event: what is hidden in one of them does not decide what happens.
-/

namespace Foundations
set_option autoImplicit false

/-! ## Runs of machines that resemble each other -/

section Runs
variable {σ ε : Type*} {step : σ → ε → Option σ} {R : σ → σ → Prop} {E : ε → ε → Prop}

theorem run_resembles (hstep : ∀ s s' e e', R s s' → E e e' → Option.Rel R (step s e) (step s' e'))
    {s s' : σ} {es es' : List ε} (hs : R s s') (hes : List.Forall₂ E es es') :
    Option.Rel R (run step s es) (run step s' es') := by
  induction hes generalizing s s' with
  | nil => exact .some hs
  | @cons e e' es es' he _ ih =>
    have hnext := hstep s s' e e' hs he
    rw [run_cons, run_cons]
    generalize step s e = a at hnext ⊢
    generalize step s' e' = b at hnext ⊢
    cases hnext with
    | none => exact .none
    | some hab => exact ih hab

end Runs

/-! ## Lists whose elements resemble each other -/

section Lists
variable {α : Type*} {R : α → α → Prop}

theorem getElem?_resembles {xs ys : List α} (h : List.Forall₂ R xs ys) (i : ℕ) :
    Option.Rel R xs[i]? ys[i]? := by
  induction h generalizing i with
  | nil => exact .none
  | cons hxy _ ih =>
    cases i with
    | zero => exact .some hxy
    | succ i => exact ih i

theorem eraseIdx_resembles {xs ys : List α} (h : List.Forall₂ R xs ys) (i : ℕ) :
    List.Forall₂ R (xs.eraseIdx i) (ys.eraseIdx i) := by
  induction h generalizing i with
  | nil => exact .nil
  | cons hxy hrest ih =>
    cases i with
    | zero => exact hrest
    | succ i => exact .cons hxy (ih i)

theorem set_resembles {xs ys : List α} (h : List.Forall₂ R xs ys) (i : ℕ) {x y : α} (hxy : R x y) :
    List.Forall₂ R (xs.set i x) (ys.set i y) := by
  induction h generalizing i with
  | nil => exact .nil
  | cons hhead hrest ih =>
    cases i with
    | zero => exact .cons hxy hrest
    | succ i => exact .cons hhead (ih i)

end Lists

/-! ## Objects -/

/-- What resembles what: data, calls, operations and effects. -/
structure Looks (σ η ω φ : Type*) where
  data : σ → σ → Prop
  call : η → η → Prop
  op : ω → ω → Prop
  effect : φ → φ → Prop

namespace Looks
variable {σ η ω ο μ φ : Type*} (L : Looks σ η ω φ)

/-- An item is a call that resembles the other, or a completion with the same outcome. -/
inductive Items : Item η ω ο → Item η ω ο → Prop
  | call {handler handler' : η} : L.call handler handler' → Items (.call handler) (.call handler')
  | completion {op op' : ω} (outcome : ο) : L.op op op' →
    Items (.completion op outcome) (.completion op' outcome)

def Flights (p q : InFlight ω) : Prop := L.op p.op q.op ∧ p.cancelled = q.cancelled

structure Objects (o o' : Object σ η ω ο) : Prop where
  data : L.data o.data o'.data
  queue : List.Forall₂ L.Items o.queue o'.queue
  inFlight : List.Forall₂ L.Flights o.inFlight o'.inFlight

/-- An event of the one object, and that of the other. Handlers run in the same surroundings, of which
`G` holds. -/
inductive Events (G : μ → Prop) : StrandEvent μ η ο → StrandEvent μ η ο → Prop
  | call {handler handler' : η} : L.call handler handler' → Events G (.call handler) (.call handler')
  | finish (i : ℕ) (outcome : ο) : Events G (.finish i outcome) (.finish i outcome)
  | run (m : μ) : G m → Events G (.run m) (.run m)

/-- An object and its effects after an event. -/
def Results (r r' : Object σ η ω ο × List φ) : Prop :=
  L.Objects r.1 r'.1 ∧ List.Forall₂ L.effect r.2 r'.2

/-- A behaviour for which what is hidden decides nothing. -/
structure Respects (G : μ → Prop) (B : Behaviour σ η ω ο μ φ) : Prop where
  handle : ∀ m s s' item item', G m → L.data s s' → L.Items item item' →
    L.data (B.handle m s item).1 (B.handle m s' item').1 ∧
      List.Forall₂ L.effect (B.handle m s item).2 (B.handle m s' item').2
  starts : ∀ effect effect', L.effect effect effect' →
    Option.Rel L.op (B.starts effect) (B.starts effect')
  cancels : ∀ effect effect' op op', L.effect effect effect' → L.op op op' →
    B.cancels effect op = B.cancels effect' op'
  deliver : ∀ s s' op op' outcome, L.data s s' → L.op op op' →
    L.data (B.deliver s op outcome) (B.deliver s' op' outcome)
  direct : ∀ s s' op op' outcome, L.data s s' → L.op op op' →
    Option.Rel (List.Forall₂ L.effect) (B.direct s op outcome) (B.direct s' op' outcome)

variable {L} {G : μ → Prop} {B : Behaviour σ η ω ο μ φ}

theorem Respects.performOne (hB : L.Respects G B) {ops ops' : List (InFlight ω)} {effect effect' : φ}
    (hops : List.Forall₂ L.Flights ops ops') (heffect : L.effect effect effect') :
    List.Forall₂ L.Flights (B.performOne ops effect) (B.performOne ops' effect') := by
  have hmarked : List.Forall₂ L.Flights
      (ops.map fun p => { p with cancelled := p.cancelled || B.cancels effect p.op })
      (ops'.map fun p => { p with cancelled := p.cancelled || B.cancels effect' p.op }) := by
    refine List.rel_map (fun p q hpq => ⟨hpq.1, ?_⟩) hops
    rw [hpq.2, hB.cancels effect effect' p.op q.op heffect hpq.1]
  have hstarts := hB.starts effect effect' heffect
  rw [Behaviour.performOne, Behaviour.performOne]
  generalize B.starts effect = op at hstarts ⊢
  generalize B.starts effect' = op' at hstarts ⊢
  cases hstarts with
  | none => exact hmarked
  | some hop => exact List.rel_append hmarked (.cons ⟨hop, rfl⟩ .nil)

theorem Respects.perform (hB : L.Respects G B) {ops ops' : List (InFlight ω)} {effects effects' : List φ}
    (hops : List.Forall₂ L.Flights ops ops') (heffects : List.Forall₂ L.effect effects effects') :
    List.Forall₂ L.Flights (B.perform ops effects) (B.perform ops' effects') := by
  induction heffects generalizing ops ops' with
  | nil => exact hops
  | cons heffect _ ih => exact ih (hB.performOne hops heffect)

/-- **One event.** -/
theorem Respects.react (hB : L.Respects G B) {o o' : Object σ η ω ο} {e e' : StrandEvent μ η ο}
    (ho : L.Objects o o') (he : L.Events G e e') :
    Option.Rel L.Results (B.react o e) (B.react o' e') := by
  cases he with
  | call hcall =>
    exact .some ⟨⟨ho.data, List.rel_append ho.queue (.cons (.call hcall) .nil), ho.inFlight⟩, .nil⟩
  | finish i outcome =>
    have hop := getElem?_resembles ho.inFlight i
    rw [Behaviour.react, Behaviour.react]
    generalize o.inFlight[i]? = p at hop ⊢
    generalize o'.inFlight[i]? = q at hop ⊢
    cases hop with
    | none => exact .none
    | some hpq =>
      rename_i p q
      dsimp only
      rw [hpq.2]
      split
      · exact .none
      · have hdirect := hB.direct o.data o'.data p.op q.op outcome ho.data hpq.1
        generalize B.direct o.data p.op outcome = d at hdirect ⊢
        generalize B.direct o'.data q.op outcome = d' at hdirect ⊢
        have hrest := eraseIdx_resembles ho.inFlight i
        cases hdirect with
        | none =>
          exact .some ⟨⟨hB.deliver _ _ _ _ _ ho.data hpq.1,
            List.rel_append ho.queue (.cons (.completion outcome hpq.1) .nil), hrest⟩, .nil⟩
        | some heffects => exact .some ⟨⟨ho.data, ho.queue, hB.perform hrest heffects⟩, heffects⟩
  | run m hG =>
    rw [Behaviour.react, Behaviour.react]
    have hqueue := ho.queue
    generalize o.queue = queue at hqueue ⊢
    generalize o'.queue = queue' at hqueue ⊢
    cases hqueue with
    | nil => exact .none
    | cons hitem hrest =>
      obtain ⟨hdata, heffects⟩ := hB.handle m o.data o'.data _ _ hG ho.data hitem
      exact .some ⟨⟨hdata, hrest, hB.perform ho.inFlight heffects⟩, heffects⟩

/-- One event of one of several objects. -/
theorem Respects.reactAt (hB : L.Respects G B) {os os' : List (Object σ η ω ο)} {i : ℕ}
    {e e' : StrandEvent μ η ο} (hos : List.Forall₂ L.Objects os os') (he : L.Events G e e') :
    Option.Rel (fun r r' => List.Forall₂ L.Objects r.1 r'.1 ∧ List.Forall₂ L.effect r.2 r'.2)
      (B.reactAt os i e) (B.reactAt os' i e') := by
  have ho := getElem?_resembles hos i
  rw [Behaviour.reactAt, Behaviour.reactAt]
  generalize os[i]? = o at ho ⊢
  generalize os'[i]? = o' at ho ⊢
  cases ho with
  | none => exact .none
  | some ho =>
    rename_i o o'
    have hreact := hB.react ho he
    dsimp only [Option.bind_some]
    generalize B.react o e = r at hreact ⊢
    generalize B.react o' e' = r' at hreact ⊢
    cases hreact with
    | none => exact .none
    | some hresult => exact .some ⟨set_resembles hos i hresult.1, hresult.2⟩

end Looks
end Foundations
