import Mathlib.Data.Nat.Notation
import Mathlib.Logic.Basic

/-! # Runs of a deterministic labelled machine

A machine is a step function `step : σ → ε → Option σ`: the label (an event) determines the next
state, and `none` says that the event is not enabled there. Everything a scheduler, a network peer
or a user may choose is in the label, so a statement about every list of labels is a statement
about every interleaving.
-/

namespace Foundations
set_option autoImplicit false

section Runs
variable {σ ε : Type*} (step : σ → ε → Option σ)

/-- The state after the events of a list, `none` when one of them is not enabled. -/
def run : σ → List ε → Option σ
  | s, [] => some s
  | s, e :: es => (step s e).bind fun s' => run s' es

/-- Every step the run takes meets the guard `G`, a condition on the state before the step and on
its event. -/
def Along (G : σ → ε → Prop) : σ → List ε → Prop
  | _, [] => True
  | s, e :: es => ∀ s', step s e = some s' → G s e ∧ Along G s' es

/-- `P` holds in every state the run visits, its first and its last included. -/
def Throughout (P : σ → Prop) : σ → List ε → Prop
  | s, [] => P s
  | s, e :: es => P s ∧ ∀ s', step s e = some s' → Throughout P s' es

variable {step}

@[simp] theorem run_nil (s : σ) : run step s [] = some s := rfl

theorem run_cons (s : σ) (e : ε) (es : List ε) :
    run step s (e :: es) = (step s e).bind fun s' => run step s' es := rfl

theorem run_cons_eq_some {s t : σ} {e : ε} {es : List ε} :
    run step s (e :: es) = some t ↔ ∃ s', step s e = some s' ∧ run step s' es = some t := by
  rw [run_cons, Option.bind_eq_some_iff]

/-- The machine is deterministic, so a guard along a run is checked by running it. -/
instance Along.decidable {G : σ → ε → Prop} [∀ s e, Decidable (G s e)] :
    ∀ (s : σ) (es : List ε), Decidable (Along step G s es)
  | _, [] => .isTrue trivial
  | s, e :: es =>
    match h : step s e with
    | none => .isTrue fun s' he => absurd (h.symm.trans he) (Option.some_ne_none s').symm
    | some s' =>
      letI := Along.decidable (G := G) s' es
      decidable_of_iff (G s e ∧ Along step G s' es)
        ⟨fun hall _ ht => Option.some.inj (h.symm.trans ht) ▸ hall, fun hall => hall s' h⟩

theorem run_append_eq_some {s u : σ} {es fs : List ε} :
    run step s (es ++ fs) = some u ↔ ∃ t, run step s es = some t ∧ run step t fs = some u := by
  induction es generalizing s with
  | nil => simp
  | cons e es ih =>
    rw [List.cons_append, run_cons_eq_some]
    simp only [ih, run_cons_eq_some]
    constructor
    · rintro ⟨s', he, t, hes, hfs⟩
      exact ⟨t, ⟨s', he, hes⟩, hfs⟩
    · rintro ⟨t, ⟨s', he, hes⟩, hfs⟩
      exact ⟨s', he, t, hes, hfs⟩

/-! ## Invariants -/

theorem run_keeps {I : σ → Prop} {G : σ → ε → Prop}
    (hstep : ∀ s e s', I s → G s e → step s e = some s' → I s') :
    ∀ {s t : σ} {es : List ε}, I s → Along step G s es → run step s es = some t → I t
  | s, t, [], hs, _, hr => by
      rw [run_nil, Option.some.injEq] at hr
      exact hr ▸ hs
  | s, t, e :: es, hs, ha, hr => by
      obtain ⟨s', he, hr'⟩ := run_cons_eq_some.mp hr
      obtain ⟨hg, ha'⟩ := ha s' he
      exact run_keeps hstep (hstep s e s' hs hg he) ha' hr'

theorem along_of_forall {G : σ → ε → Prop} :
    ∀ {s : σ} {es : List ε}, (∀ e ∈ es, ∀ s, G s e) → Along step G s es
  | _, [], _ => trivial
  | s, e :: _, h => fun _ _ =>
      ⟨h e List.mem_cons_self s, along_of_forall fun x hx => h x (List.mem_cons_of_mem _ hx)⟩

theorem run_invariant {I : σ → Prop} (hstep : ∀ s e s', I s → step s e = some s' → I s')
    {s t : σ} {es : List ε} (hs : I s) (hr : run step s es = some t) : I t :=
  run_keeps (G := fun _ _ => True) (fun s e s' h _ => hstep s e s' h) hs
    (along_of_forall fun _ _ _ => trivial) hr

/-- What a run keeps of its events so far and of the state they have led to. -/
theorem run_history {I : List ε → σ → Prop} {s : σ} (hnil : I [] s)
    (hstep : ∀ es t e u, run step s es = some t → I es t → step t e = some u → I (es ++ [e]) u)
    {t : σ} {es : List ε} (hr : run step s es = some t) : I es t := by
  suffices h : ∀ {fs before u}, run step s before = some u → I before u → run step u fs = some t →
      I (before ++ fs) t from h (run_nil s) hnil hr
  intro fs
  induction fs with
  | nil =>
    intro before u hbefore hu hfs
    rw [run_nil, Option.some.injEq] at hfs
    rw [List.append_nil]
    exact hfs ▸ hu
  | cons e fs ih =>
    intro before u hbefore hu hfs
    obtain ⟨u', he, hfs'⟩ := run_cons_eq_some.mp hfs
    have hnext : run step s (before ++ [e]) = some u' :=
      run_append_eq_some.mpr ⟨u, hbefore, run_cons_eq_some.mpr ⟨u', he, run_nil u'⟩⟩
    have hrest := ih hnext (hstep before u e u' hbefore hu he) hfs'
    rwa [List.append_assoc] at hrest

/-- A function that commutes with the steps commutes with the runs. -/
theorem run_map {τ : Type*} {absStep : τ → ε → Option τ} {f : σ → τ}
    (hf : ∀ s e, (step s e).map f = absStep (f s) e) (s : σ) (es : List ε) :
    (run step s es).map f = run absStep (f s) es := by
  induction es generalizing s with
  | nil => rfl
  | cons e es ih =>
    rw [run_cons, run_cons, ← hf]
    cases step s e with
    | none => rfl
    | some s' => exact ih s'

theorem along_append {G : σ → ε → Prop} :
    ∀ {s : σ} {es fs : List ε}, Along step G s (es ++ fs) ↔
      Along step G s es ∧ ∀ t, run step s es = some t → Along step G t fs
  | s, [], fs => by simp [Along]
  | s, e :: es, fs => by
      simp only [List.cons_append, Along, run_cons_eq_some]
      constructor
      · intro h
        refine ⟨fun s' he => ⟨(h s' he).1, (along_append.mp (h s' he).2).1⟩, ?_⟩
        rintro t ⟨s', he, hr⟩
        exact (along_append.mp (h s' he).2).2 t hr
      · rintro ⟨h1, h2⟩ s' he
        exact ⟨(h1 s' he).1, along_append.mpr ⟨(h1 s' he).2, fun t hr => h2 t ⟨s', he, hr⟩⟩⟩

theorem Along.guard {G : σ → ε → Prop} {s t t' : σ} {es fs : List ε} {e : ε}
    (h : Along step G s (es ++ e :: fs)) (hr : run step s es = some t) (he : step t e = some t') :
    G t e :=
  ((along_append.mp h).2 t hr t' he).1

/-- Along a run whose steps meet `G`, an invariant that such steps keep gives what it implies of each
of them. -/
theorem along_keeps {I : σ → Prop} {G H : σ → ε → Prop}
    (hstep : ∀ s e s', I s → G s e → step s e = some s' → I s' ∧ H s e) :
    ∀ {s : σ} {es : List ε}, I s → Along step G s es → Along step H s es
  | _, [], _, _ => trivial
  | s, e :: es, hs, ha => by
      intro s' he
      obtain ⟨hg, ha'⟩ := ha s' he
      obtain ⟨hs', hh⟩ := hstep s e s' hs hg he
      exact ⟨hh, along_keeps hstep hs' ha'⟩

/-- Guards that agree in every state of an invariant hold along the same runs. -/
theorem along_congr {I : σ → Prop} {K G H : σ → ε → Prop}
    (hinv : ∀ s e s', I s → K s e → step s e = some s' → I s')
    (hiff : ∀ s e s', I s → K s e → step s e = some s' → (G s e ↔ H s e)) :
    ∀ {s : σ} {es : List ε}, I s → Along step K s es → (Along step G s es ↔ Along step H s es)
  | _, [], _, _ => Iff.rfl
  | s, e :: _, hs, ha =>
      forall_congr' fun s' => forall_congr' fun he =>
        and_congr (hiff s e s' hs (ha s' he).1 he)
          (along_congr hinv hiff (hinv s e s' hs (ha s' he).1 he) (ha s' he).2)

/-- A goal that is kept once it is met, and a measure that the machine's own steps lower until then: so many
steps of its own later, the goal is met. -/
theorem run_settles {I P : σ → Prop} {G : σ → ε → Prop} {measure : σ → ℕ} {own : ε → Bool}
    (hinv : ∀ s e s', I s → G s e → step s e = some s' → I s')
    (hkeep : ∀ s e s', I s → P s → G s e → step s e = some s' → P s')
    (hlower : ∀ s e s', I s → ¬ P s → G s e → step s e = some s' →
      measure s' + (own e).toNat ≤ measure s + (!own e).toNat) :
    ∀ {s t : σ} {es : List ε}, I s → Along step G s es → run step s es = some t →
      P t ∨ measure t + es.countP own ≤ measure s + es.countP fun e => !own e
  | s, t, [], _, _, hr => by
      rw [run_nil, Option.some.injEq] at hr
      exact Or.inr (hr ▸ Nat.le_refl _)
  | s, t, e :: es, hs, ha, hr => by
      obtain ⟨s', he, hr'⟩ := run_cons_eq_some.mp hr
      obtain ⟨hg, ha'⟩ := ha s' he
      have hs' := hinv s e s' hs hg he
      by_cases hp : P s
      · have hkept : I t ∧ P t :=
          run_keeps (I := fun s => I s ∧ P s)
            (fun s e s' h hg he => ⟨hinv s e s' h.1 hg he, hkeep s e s' h.1 h.2 hg he⟩)
            ⟨hs', hkeep s e s' hs hp hg he⟩ ha' hr'
        exact Or.inl hkept.2
      · have hone := hlower s e s' hs hp hg he
        rcases run_settles hinv hkeep hlower hs' ha' hr' with ht | hle
        · exact Or.inl ht
        · right
          rw [List.countP_cons, List.countP_cons]
          cases hown : own e <;> simp [hown] at hone ⊢ <;> omega

/-- Steps of a kind that each take something from what is there, when no step brings anything: a run has no more
of them than its start can pay for. -/
theorem run_countP_le {I : σ → ℕ → Prop} {own : ε → Bool}
    (hstep : ∀ s e s' n, I s n → step s e = some s' → ∃ n', I s' n' ∧ n' + (own e).toNat ≤ n)
    {s t : σ} {n : ℕ} {es : List ε} (hs : I s n) (h : run step s es = some t) :
    es.countP own ≤ n ∧ ∃ n', I t n' := by
  induction es generalizing s n with
  | nil =>
    rw [run_nil, Option.some.injEq] at h
    exact ⟨Nat.zero_le n, n, h ▸ hs⟩
  | cons e es ih =>
    obtain ⟨s', he, hrest⟩ := run_cons_eq_some.mp h
    obtain ⟨n', hs', hone⟩ := hstep s e s' n hs he
    obtain ⟨hle, hlast⟩ := ih hs' hrest
    refine ⟨?_, hlast⟩
    rw [List.countP_cons]
    cases hown : own e <;> simp [hown] at hone ⊢ <;> omega

/-! ## A guard that is exactly what a property needs -/

/-- When, from a state of the invariant where `P` holds, a step leads to a state where `P` holds
exactly if the step meets `G`, a run has `P` throughout exactly if all its steps meet `G`. -/
theorem throughout_iff_along {I P : σ → Prop} {G : σ → ε → Prop}
    (hinv : ∀ s e s', I s → step s e = some s' → I s')
    (hstep : ∀ s e s', I s → P s → step s e = some s' → (P s' ↔ G s e)) :
    ∀ {s : σ} {es : List ε}, I s → P s → (Throughout step P s es ↔ Along step G s es)
  | s, [], _, hp => by simp [Throughout, Along, hp]
  | s, e :: es, hs, hp => by
      simp only [Throughout, Along, hp, true_and]
      refine forall_congr' fun s' => forall_congr' fun he => ?_
      have hiff := hstep s e s' hs hp he
      have hi := hinv s e s' hs he
      constructor
      · intro ht
        have hp' : P s' := by
          cases es with
          | nil => exact ht
          | cons e' es => exact ht.1
        exact ⟨hiff.mp hp', (throughout_iff_along hinv hstep hi hp').mp ht⟩
      · rintro ⟨hg, ha⟩
        exact (throughout_iff_along hinv hstep hi (hiff.mpr hg)).mpr ha

theorem Throughout.at_middle {P : σ → Prop} :
    ∀ {s t : σ} {es fs : List ε}, Throughout step P s (es ++ fs) → run step s es = some t → P t
  | s, t, [], fs, h, hr => by
      rw [run_nil, Option.some.injEq] at hr
      subst hr
      cases fs with
      | nil => exact h
      | cons e fs => exact h.1
  | s, t, e :: es, fs, h, hr => by
      obtain ⟨s', he, hr'⟩ := run_cons_eq_some.mp hr
      exact (h.2 s' he).at_middle hr'

theorem Throughout.at_end {P : σ → Prop} {s t : σ} {es : List ε} (h : Throughout step P s es)
    (hr : run step s es = some t) : P t := by
  rw [← List.append_nil es] at h
  exact h.at_middle hr

theorem throughout_of_run {P : σ → Prop} :
    ∀ {s : σ} {es : List ε}, (∀ fs t, fs <+: es → run step s fs = some t → P t) →
      Throughout step P s es
  | s, [], h => h [] s (List.prefix_refl []) (run_nil s)
  | s, e :: es, h => by
      refine ⟨h [] s List.nil_prefix (run_nil s), fun s' he => throughout_of_run fun fs t hfs hr => ?_⟩
      refine h (e :: fs) t ((List.cons_prefix_cons).mpr ⟨rfl, hfs⟩) ?_
      exact run_cons_eq_some.mpr ⟨s', he, hr⟩

theorem throughout_keeps {I P : σ → Prop} {G : σ → ε → Prop}
    (hstep : ∀ s e s', I s → G s e → step s e = some s' → I s') (himp : ∀ s, I s → P s) :
    ∀ {s : σ} {es : List ε}, I s → Along step G s es → Throughout step P s es
  | s, [], hs, _ => himp s hs
  | s, e :: es, hs, ha => by
      refine ⟨himp s hs, fun s' he => ?_⟩
      obtain ⟨hg, ha'⟩ := ha s' he
      exact throughout_keeps hstep himp (hstep s e s' hs hg he) ha'

theorem Throughout.along {P : σ → Prop} :
    ∀ {s : σ} {es : List ε}, Throughout step P s es → Along step (fun s _ => P s) s es
  | _, [], _ => trivial
  | _, _ :: _, h => fun s' he => ⟨h.1, (h.2 s' he).along⟩

theorem Along.and {G H : σ → ε → Prop} :
    ∀ {s : σ} {es : List ε}, Along step G s es → Along step H s es →
      Along step (fun s e => G s e ∧ H s e) s es
  | _, [], _, _ => trivial
  | _, _ :: _, hg, hh => fun s' he => ⟨⟨(hg s' he).1, (hh s' he).1⟩, (hg s' he).2.and (hh s' he).2⟩

end Runs

/-! ## A record kept of a run -/

section Watched
variable {σ ε φ γ : Type*} (react : σ → ε → Option (σ × φ)) (note : γ → σ → ε → σ × φ → γ)

/-- A machine together with a record of what its steps do. -/
def watched (p : σ × γ) (e : ε) : Option (σ × γ) :=
  (react p.1 e).map fun result => (result.1, note p.2 p.1 e result)

variable {react note}

theorem watched_eq_some {p q : σ × γ} {e : ε} :
    watched react note p e = some q ↔
      ∃ effects, react p.1 e = some (q.1, effects) ∧ q.2 = note p.2 p.1 e (q.1, effects) := by
  rw [watched, Option.map_eq_some_iff]
  constructor
  · rintro ⟨⟨s', effects⟩, h, rfl⟩
    exact ⟨effects, h, rfl⟩
  · rintro ⟨effects, h, hnote⟩
    exact ⟨_, h, Prod.ext rfl hnote.symm⟩

variable (note) in
/-- A run of the machine is the run of the machine with its record. -/
theorem run_watched {s t : σ} {es : List ε} (g : γ)
    (h : run (fun s e => (react s e).map Prod.fst) s es = some t) :
    ∃ g', run (watched react note) (s, g) es = some (t, g') := by
  induction es generalizing s g with
  | nil => exact ⟨g, by rw [run_nil] at h ⊢; rw [Option.some.inj h]⟩
  | cons e es ih =>
    obtain ⟨s', he, hrest⟩ := run_cons_eq_some.mp h
    obtain ⟨result, hreact, rfl⟩ := Option.map_eq_some_iff.mp he
    obtain ⟨g', hg⟩ := ih (note g s e result) hrest
    exact ⟨g', run_cons_eq_some.mpr ⟨_, watched_eq_some.mpr ⟨result.2, hreact, rfl⟩, hg⟩⟩

variable (note) in
theorem along_watched {G : σ → ε → Prop} {s : σ} {es : List ε} (g : γ)
    (h : Along (fun s e => (react s e).map Prod.fst) G s es) :
    Along (watched react note) (fun p => G p.1) (s, g) es := by
  induction es generalizing s g with
  | nil => trivial
  | cons e es ih =>
    rintro ⟨s', g'⟩ he
    obtain ⟨effects, hreact, -⟩ := watched_eq_some.mp he
    obtain ⟨hg, hrest⟩ := h s' (Option.map_eq_some_iff.mpr ⟨_, hreact, rfl⟩)
    exact ⟨hg, ih g' hrest⟩

/-- A value computed from the last step of a run is that of a step which meets the guard. -/
theorem Along.last_watched {G : σ × γ → ε → Prop} {α : Type*} {f : σ × γ → σ × φ → α} {v : α}
    {p : σ × γ} {es : List ε} {e : ε} (h : Along (watched react note) G p (es ++ [e]))
    (hlast : (run (watched react note) p es).bind (fun q => (react q.1 e).map (f q)) = some v) :
    ∃ q result, react q.1 e = some result ∧ G q e ∧ f q result = v := by
  obtain ⟨q, hrun, hmap⟩ := Option.bind_eq_some_iff.mp hlast
  obtain ⟨result, hreact, hvalue⟩ := Option.map_eq_some_iff.mp hmap
  have hstep : watched react note q e = some (result.1, note q.2 q.1 e result) :=
    watched_eq_some.mpr ⟨result.2, hreact, rfl⟩
  exact ⟨q, result, hreact, h.guard hrun hstep, hvalue⟩

end Watched
end Foundations
