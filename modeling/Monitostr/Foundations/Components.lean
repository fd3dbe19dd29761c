import Monitostr.Foundations.Runs
import Mathlib.Data.List.Basic

/-! # Machines made of independent components

The label of a step has a key, and the step reads and changes the component with this key only. Then a run of
the machine is a run of each component on the labels with its key, in their order. So the order in which labels
of different keys come makes no difference to the components, and a component is not affected by the
labels of the others.
-/

namespace Foundations
set_option autoImplicit false

section Components
variable {σ ε κ τ : Type*}

/-- In the states of an invariant, a step is one of the component of its key. -/
structure Componentwise (I : σ → Prop) (step : σ → ε → Option σ) (key : ε → κ) (view : σ → κ → τ)
    (part : κ → τ → ε → Option τ) : Prop where
  keeps : ∀ s e s', I s → step s e = some s' → I s'
  acts : ∀ s e, I s → part (key e) (view s (key e)) e = (step s e).map fun s' => view s' (key e)
  frame : ∀ s e s' k, I s → step s e = some s' → key e ≠ k → view s' k = view s k

variable {I : σ → Prop} {step : σ → ε → Option σ} {key : ε → κ} {view : σ → κ → τ}
  {part : κ → τ → ε → Option τ}

theorem Componentwise.next (h : Componentwise I step key view part) {s s' : σ} {e : ε} (hs : I s)
    (he : step s e = some s') : part (key e) (view s (key e)) e = some (view s' (key e)) := by
  rw [h.acts s e hs, he]
  rfl

variable [DecidableEq κ]

/-- The labels with this key, in their order. -/
def withKey (key : ε → κ) (k : κ) (es : List ε) : List ε := es.filter fun e => key e = k

theorem withKey_cons_self {e : ε} {es : List ε} : withKey key (key e) (e :: es) = e :: withKey key (key e) es :=
  List.filter_cons_of_pos (by simp)

theorem withKey_cons_of_ne {e : ε} {k : κ} (h : key e ≠ k) (es : List ε) :
    withKey key k (e :: es) = withKey key k es :=
  List.filter_cons_of_neg (by simpa using h)

/-- A run of the machine is a run of each component. -/
theorem Componentwise.run_part (h : Componentwise I step key view part) {s t : σ} {es : List ε} (hs : I s)
    (hr : run step s es = some t) (k : κ) : run (part k) (view s k) (withKey key k es) = some (view t k) := by
  induction es generalizing s with
  | nil =>
    rw [run_nil, Option.some.injEq] at hr
    rw [hr]
    rfl
  | cons e es ih =>
    obtain ⟨s', he, hr'⟩ := run_cons_eq_some.mp hr
    have hrest := ih (h.keeps s e s' hs he) hr'
    by_cases hk : key e = k
    · subst hk
      rw [withKey_cons_self]
      exact run_cons_eq_some.mpr ⟨view s' (key e), h.next hs he, hrest⟩
    · rw [withKey_cons_of_ne hk, ← h.frame s e s' k hs he hk]
      exact hrest

/-- Runs of all components make a run of the machine. -/
theorem Componentwise.run_of_parts (h : Componentwise I step key view part) {s : σ} {es : List ε} (hs : I s)
    {last : κ → τ} (hr : ∀ k, run (part k) (view s k) (withKey key k es) = some (last k)) :
    ∃ t, run step s es = some t ∧ ∀ k, view t k = last k := by
  induction es generalizing s with
  | nil => exact ⟨s, rfl, fun k => Option.some.inj (hr k)⟩
  | cons e es ih =>
    have hown := hr (key e)
    rw [withKey_cons_self] at hown
    obtain ⟨c, hc, hrest⟩ := run_cons_eq_some.mp hown
    rw [h.acts s e hs] at hc
    obtain ⟨s', he, rfl⟩ := Option.map_eq_some_iff.mp hc
    have hparts : ∀ k, run (part k) (view s' k) (withKey key k es) = some (last k) := by
      intro k
      by_cases hk : key e = k
      · subst hk
        exact hrest
      · rw [h.frame s e s' k hs he hk, ← withKey_cons_of_ne hk]
        exact hr k
    obtain ⟨t, ht, hlast⟩ := ih (h.keeps s e s' hs he) hparts
    exact ⟨t, run_cons_eq_some.mpr ⟨s', he, ht⟩, hlast⟩

/-- **Order.** Labels that have the same order for each key lead to the same components. -/
theorem Componentwise.reorder (h : Componentwise I step key view part) {s t : σ} {es fs : List ε} (hs : I s)
    (hsame : ∀ k, withKey key k fs = withKey key k es) (hr : run step s es = some t) :
    ∃ t', run step s fs = some t' ∧ ∀ k, view t' k = view t k := by
  refine h.run_of_parts hs fun k => ?_
  rw [hsame k]
  exact h.run_part hs hr k

/-- **Isolation.** Without the labels of the other keys a component is the same, and the others stay as they
were. -/
theorem Componentwise.isolate (h : Componentwise I step key view part) {s t : σ} {es : List ε} (hs : I s)
    (hr : run step s es = some t) (k : κ) :
    ∃ t', run step s (withKey key k es) = some t' ∧ view t' k = view t k ∧
      ∀ k', k' ≠ k → view t' k' = view s k' := by
  have hparts : ∀ k', run (part k') (view s k') (withKey key k' (withKey key k es)) =
      some (if k' = k then view t k else view s k') := by
    intro k'
    by_cases hk : k' = k
    · subst hk
      have hown : withKey key k' (withKey key k' es) = withKey key k' es := by
        rw [withKey, withKey, List.filter_filter]
        exact List.filter_congr fun e _ => Bool.and_self _
      rw [hown, if_pos rfl]
      exact h.run_part hs hr k'
    · have hnone : withKey key k' (withKey key k es) = [] := by
        rw [withKey, withKey, List.filter_filter]
        refine List.filter_eq_nil_iff.mpr fun e _ => ?_
        rw [Bool.and_eq_true, decide_eq_true_eq, decide_eq_true_eq]
        rintro ⟨hk', hk''⟩
        exact hk (hk'.symm.trans hk'')
      rw [hnone, if_neg hk]
      rfl
  obtain ⟨t', ht', hview⟩ := h.run_of_parts hs hparts
  refine ⟨t', ht', ?_, fun k' hk' => ?_⟩
  · rw [hview k, if_pos rfl]
  · rw [hview k', if_neg hk']

end Components
end Foundations
