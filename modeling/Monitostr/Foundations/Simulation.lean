import Monitostr.Foundations.Runs

/-! # Simulation with stuttering

A machine simulates a more abstract one when each of its events is an event of the abstract machine
or leaves the abstract state as it is. What holds along the abstract runs then holds along the
concrete ones.
-/

namespace Foundations
set_option autoImplicit false

/-- The abstraction of states and events, with the two obligations on a step. -/
structure Simulation {σ ε τ α : Type*} (step : σ → ε → Option σ) (absStep : τ → α → Option τ) where
  abs : σ → τ
  event : σ → ε → Option α
  stutters : ∀ s e s', step s e = some s' → event s e = none → abs s' = abs s
  steps : ∀ s e s' a, step s e = some s' → event s e = some a → absStep (abs s) a = some (abs s')

namespace Simulation
variable {σ ε τ α : Type*} {step : σ → ε → Option σ} {absStep : τ → α → Option τ}
  (S : Simulation step absStep)

/-- A guard of the abstract machine, on the events that are not stutters. -/
def guard (G : τ → α → Prop) (s : σ) (e : ε) : Prop := ∀ a, S.event s e = some a → G (S.abs s) a

theorem keeps {I : τ → Prop} (hI : ∀ s a s', I s → absStep s a = some s' → I s') (s : σ) (e : ε)
    (s' : σ) (hs : I (S.abs s)) (h : step s e = some s') : I (S.abs s') := by
  cases hev : S.event s e with
  | none =>
    rw [S.stutters s e s' h hev]
    exact hs
  | some a => exact hI _ a _ hs (S.steps s e s' a h hev)

theorem step_iff {I P : τ → Prop} {G : τ → α → Prop}
    (hG : ∀ s a s', I s → P s → absStep s a = some s' → (P s' ↔ G s a)) (s : σ) (e : ε) (s' : σ)
    (hs : I (S.abs s)) (hp : P (S.abs s)) (h : step s e = some s') :
    P (S.abs s') ↔ S.guard G s e := by
  cases hev : S.event s e with
  | none =>
    rw [S.stutters s e s' h hev]
    refine iff_of_true hp fun a ha => ?_
    rw [hev] at ha
    cases ha
  | some a =>
    rw [hG _ a _ hs hp (S.steps s e s' a h hev)]
    constructor
    · intro hg b hb
      obtain rfl := Option.some.inj (hev.symm.trans hb)
      exact hg
    · intro hg
      exact hg a hev

/-- The events of the abstract machine along a run. -/
def events : σ → List ε → List α
  | _, [] => []
  | s, e :: es => (S.event s e).toList ++
    match step s e with
    | none => []
    | some s' => events s' es

theorem events_cons {s t : σ} {e : ε} {es : List ε} (h : step s e = some t) :
    S.events s (e :: es) = (S.event s e).toList ++ S.events t es := by
  rw [events, h]

theorem events_append {s t : σ} {es fs : List ε} (h : run step s es = some t) :
    S.events s (es ++ fs) = S.events s es ++ S.events t fs := by
  induction es generalizing s with
  | nil =>
    rw [run_nil, Option.some.injEq] at h
    rw [h]
    rfl
  | cons e es ih =>
    obtain ⟨s', he, hrest⟩ := run_cons_eq_some.mp h
    rw [List.cons_append, S.events_cons he, S.events_cons he, ih hrest, List.append_assoc]

theorem events_singleton {s t : σ} {e : ε} (h : step s e = some t) :
    S.events s [e] = (S.event s e).toList := by
  rw [S.events_cons h, events, List.append_nil]

theorem run_events {s t : σ} {es : List ε} (h : run step s es = some t) :
    run absStep (S.abs s) (S.events s es) = some (S.abs t) := by
  induction es generalizing s with
  | nil =>
    rw [run_nil, Option.some.injEq] at h
    rw [h]
    rfl
  | cons e es ih =>
    obtain ⟨s', he, hrest⟩ := run_cons_eq_some.mp h
    rw [S.events_cons he]
    refine run_append_eq_some.mpr ⟨S.abs s', ?_, ih hrest⟩
    cases hev : S.event s e with
    | none => exact congrArg some (S.stutters s e s' he hev).symm
    | some a => exact run_cons_eq_some.mpr ⟨S.abs s', S.steps s e s' a he hev, run_nil _⟩

end Simulation

/-- Two folds whose steps fail together, and keep a relation when they do not. -/
theorem foldlM_rel {σ τ α : Type*} {R : σ → τ → Prop} {f : σ → α → Option σ} {g : τ → α → Option τ}
    (hstep : ∀ s t a, R s t → Option.Rel R (f s a) (g t a)) (l : List α) {s : σ} {t : τ} (h : R s t) :
    Option.Rel R (l.foldlM f s) (l.foldlM g t) := by
  induction l generalizing s t with
  | nil => exact .some h
  | cons a l ih =>
    rw [List.foldlM_cons, List.foldlM_cons]
    have hrel := hstep s t a h
    generalize f s a = x at hrel ⊢
    generalize g t a = y at hrel ⊢
    cases hrel with
    | none => exact .none
    | some hst => exact ih hst

end Foundations
