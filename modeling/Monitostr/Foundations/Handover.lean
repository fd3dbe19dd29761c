import Monitostr.Foundations.Runs
import Mathlib.Data.List.Basic
import Mathlib.Logic.Nontrivial.Basic

/-! # Handing over to a new group of workers

A controller shows a target and holds a credential. A request for a target is queued with a snapshot
of the credential; when it completes it replaces the workers by new ones for its target, with the
snapshot, or it fails and leaves them. A new credential goes to the workers when there are any, and
is a request for its own target when there are none. Requests complete in order.
-/

namespace Foundations
namespace Handover
set_option autoImplicit false

structure Request (τ κ : Type*) where
  target : τ
  credential : Option κ

structure Worker (τ κ ρ : Type*) where
  place : ρ
  target : τ
  credential : Option κ

structure State (τ κ ρ : Type*) where
  credential : Option κ
  shown : τ
  pending : List (Request τ κ)
  workers : List (Worker τ κ ρ)

inductive Event (τ κ ρ : Type*)
  | request (target : τ)
  /-- A new credential, whose own target is given. -/
  | credential (c : κ) (own : τ)
  /-- The completion of the first request: the places for its workers, or a failure. -/
  | complete (places : Option (List ρ))

variable {τ κ ρ : Type*}

def State.request (s : State τ κ ρ) (target : τ) : State τ κ ρ :=
  { s with shown := target
           pending := s.pending ++ [{ target := target, credential := s.credential }] }

def State.renew (s : State τ κ ρ) (c : κ) : State τ κ ρ :=
  { s with credential := some c
           workers := s.workers.map fun w => { w with credential := some c } }

def step (s : State τ κ ρ) : Event τ κ ρ → Option (State τ κ ρ)
  | .request target => some (s.request target)
  | .credential c own =>
    if s.workers.isEmpty then some ({ s with credential := some c }.request own)
    else some (s.renew c)
  | .complete places =>
    match s.pending with
    | [] => none
    | r :: rest =>
      match places with
      | none => some { s with pending := rest }
      | some places =>
        some { s with pending := rest
                      workers := places.map fun place =>
                        { place := place, target := r.target, credential := r.credential } }

/-! ## What a step does -/

theorem step_credential_nil {s : State τ κ ρ} (h : s.workers = []) (c : κ) (own : τ) :
    step s (.credential c own) = some ({ s with credential := some c }.request own) := by
  rw [step, h]
  rfl

theorem step_credential_of_workers {s : State τ κ ρ} (h : s.workers ≠ []) (c : κ) (own : τ) :
    step s (.credential c own) = some (s.renew c) := by
  rw [step, if_neg (by simpa using h)]

theorem step_credential {s s' : State τ κ ρ} {c : κ} {own : τ}
    (h : step s (.credential c own) = some s') :
    (s.workers = [] ∧ s' = { s with credential := some c }.request own) ∨
      (s.workers ≠ [] ∧ s' = s.renew c) := by
  by_cases hw : s.workers = []
  · rw [step_credential_nil hw] at h
    exact Or.inl ⟨hw, (Option.some.inj h).symm⟩
  · rw [step_credential_of_workers hw] at h
    exact Or.inr ⟨hw, (Option.some.inj h).symm⟩

theorem request_pending_ne_nil (s : State τ κ ρ) (target : τ) : (s.request target).pending ≠ [] := by
  simp [State.request]

theorem step_complete {s s' : State τ κ ρ} {places : Option (List ρ)}
    (h : step s (.complete places) = some s') : ∃ r rest, s.pending = r :: rest ∧
      ((places = none ∧ s' = { s with pending := rest }) ∨
      ∃ ps, places = some ps ∧
        s' = { s with pending := rest
                      workers := ps.map fun place =>
                        { place := place, target := r.target, credential := r.credential } }) := by
  rw [step] at h
  split at h
  · cases h
  · next r rest hpending =>
    refine ⟨r, rest, hpending, ?_⟩
    cases places with
    | none => exact Or.inl ⟨rfl, (Option.some.inj h).symm⟩
    | some ps => exact Or.inr ⟨ps, rfl, (Option.some.inj h).symm⟩

/-! ## The credential of the workers -/

def InSync (s : State τ κ ρ) : Prop := ∀ w ∈ s.workers, w.credential = s.credential

/-- A completion of the only request: its snapshot is the credential, or, when it fails, the workers
that stay have the credential. -/
def Fresh (s : State τ κ ρ) : Event τ κ ρ → Prop
  | .complete none => s.pending.length = 1 → InSync s
  | .complete (some places) =>
    ∀ r, s.pending = [r] → places ≠ [] → r.credential = s.credential
  | _ => True

/-- With no request left, the workers have the credential exactly when the step was fresh. -/
theorem inSync_step {s s' : State τ κ ρ} {e : Event τ κ ρ} (h : step s e = some s') :
    (s'.pending = [] → InSync s') ↔ Fresh s e := by
  cases e with
  | request target =>
    obtain rfl := Option.some.inj h
    exact iff_of_true (fun hnil => absurd hnil (request_pending_ne_nil s target)) trivial
  | credential c own =>
    obtain ⟨-, rfl⟩ | ⟨-, rfl⟩ := step_credential h
    · exact iff_of_true (fun hnil => absurd hnil (request_pending_ne_nil _ own)) trivial
    · refine iff_of_true (fun _ w hmem => ?_) trivial
      obtain ⟨v, -, rfl⟩ := List.mem_map.mp hmem
      rfl
  | complete places =>
    obtain ⟨r, rest, hpending, ⟨rfl, rfl⟩ | ⟨ps, rfl, rfl⟩⟩ := step_complete h
    · rw [Fresh, hpending, List.length_cons, Nat.succ_inj, List.length_eq_zero_iff]
      exact Iff.rfl
    · rw [Fresh, hpending]
      constructor
      · rintro hs r' hr hne
        obtain ⟨rfl, rfl⟩ := List.cons.inj hr
        obtain ⟨p, hmem⟩ := List.exists_mem_of_ne_nil ps hne
        exact hs rfl _ (List.mem_map_of_mem hmem)
      · rintro hfresh rfl w hmem
        obtain ⟨p, hmem', rfl⟩ := List.mem_map.mp hmem
        exact hfresh r rfl (List.ne_nil_of_mem hmem')

/-! ## The target of the workers -/

/-- What is shown is what was asked for last, and the workers have one target. -/
structure Coherent (s : State τ κ ρ) : Prop where
  last : ∀ r, s.pending.getLast? = some r → r.target = s.shown
  uniform : ∀ v ∈ s.workers, ∀ w ∈ s.workers, v.target = w.target

theorem Coherent.request {s : State τ κ ρ} (hs : Coherent s) (target : τ) :
    Coherent (s.request target) := by
  refine ⟨fun r hr => ?_, hs.uniform⟩
  rw [State.request, List.getLast?_concat, Option.some.injEq] at hr
  rw [← hr]
  rfl

theorem Coherent.step {s s' : State τ κ ρ} {e : Event τ κ ρ} (hs : Coherent s)
    (h : step s e = some s') : Coherent s' := by
  cases e with
  | request target =>
    obtain rfl := Option.some.inj h
    exact hs.request target
  | credential c own =>
    obtain ⟨-, rfl⟩ | ⟨-, rfl⟩ := step_credential h
    · have hs' : Coherent { s with credential := some c } := ⟨hs.last, hs.uniform⟩
      exact hs'.request own
    · refine ⟨hs.last, fun v' hv' w' hw' => ?_⟩
      obtain ⟨v, hv, rfl⟩ := List.mem_map.mp hv'
      obtain ⟨w, hw, rfl⟩ := List.mem_map.mp hw'
      exact hs.uniform v hv w hw
  | complete places =>
    obtain ⟨r, rest, hpending, hs'⟩ := step_complete h
    have hlast : ∀ x, rest.getLast? = some x → x.target = s.shown := by
      intro x hx
      refine hs.last x ?_
      rw [hpending, List.getLast?_cons, hx]
      rfl
    obtain ⟨-, rfl⟩ | ⟨ps, -, rfl⟩ := hs'
    · exact ⟨hlast, hs.uniform⟩
    · refine ⟨hlast, fun v hv w hw => ?_⟩
      obtain ⟨_, -, rfl⟩ := List.mem_map.mp hv
      obtain ⟨_, -, rfl⟩ := List.mem_map.mp hw
      rfl

def OnTarget (s : State τ κ ρ) : Prop := ∀ w ∈ s.workers, w.target = s.shown

/-- A failure of the only request leaves no workers for another target. -/
def Settles (s : State τ κ ρ) : Event τ κ ρ → Prop
  | .complete none => s.pending.length = 1 → OnTarget s
  | _ => True

/-- With no request left, the workers have the shown target exactly when the step settled it. -/
theorem onTarget_step {s s' : State τ κ ρ} {e : Event τ κ ρ} (hs : Coherent s)
    (hp : s.pending = [] → OnTarget s) (h : step s e = some s') :
    (s'.pending = [] → OnTarget s') ↔ Settles s e := by
  cases e with
  | request target =>
    obtain rfl := Option.some.inj h
    exact iff_of_true (fun hnil => absurd hnil (request_pending_ne_nil s target)) trivial
  | credential c own =>
    obtain ⟨-, rfl⟩ | ⟨-, rfl⟩ := step_credential h
    · exact iff_of_true (fun hnil => absurd hnil (request_pending_ne_nil _ own)) trivial
    · refine iff_of_true (fun hnil w hmem => ?_) trivial
      obtain ⟨v, hv, rfl⟩ := List.mem_map.mp hmem
      exact hp hnil v hv
  | complete places =>
    obtain ⟨r, rest, hpending, ⟨rfl, rfl⟩ | ⟨ps, rfl, rfl⟩⟩ := step_complete h
    · rw [Settles, hpending, List.length_cons, Nat.succ_inj, List.length_eq_zero_iff]
      exact Iff.rfl
    · refine iff_of_true ?_ trivial
      rintro rfl w hmem
      obtain ⟨_, -, rfl⟩ := List.mem_map.mp hmem
      exact hs.last r (by rw [hpending]; rfl)

/-! ## Where the pending requests lead -/

/-- The target of the workers once all requests have succeeded; `none` when there are none. -/
def goal (s : State τ κ ρ) : Option τ :=
  match s.pending.getLast? with
  | some r => some r.target
  | none => s.workers.head?.map Worker.target

theorem goal_of_pending {s : State τ κ ρ} (hs : Coherent s) (h : s.pending ≠ []) :
    goal s = some s.shown := by
  rw [goal, List.getLast?_eq_getLast_of_ne_nil h]
  exact congrArg some (hs.last _ (List.getLast?_eq_getLast_of_ne_nil h))

theorem goal_of_workers {s : State τ κ ρ} (hs : Coherent s) (h : s.pending = [])
    {w : Worker τ κ ρ} (hw : w ∈ s.workers) : goal s = some w.target := by
  rw [goal, h]
  obtain ⟨v, rest, hv⟩ := List.exists_cons_of_ne_nil (List.ne_nil_of_mem hw)
  have hmem : v ∈ s.workers := by
    rw [hv]
    exact List.mem_cons_self
  rw [hs.uniform w hw v hmem, hv]
  rfl

theorem goal_step {s s' : State τ κ ρ} {places : List ρ} (hne : places ≠ [])
    (h : step s (.complete (some places)) = some s') : goal s' = goal s := by
  obtain ⟨r, rest, hpending, ⟨hnone, -⟩ | ⟨ps, hps, rfl⟩⟩ := step_complete h
  · cases hnone
  · obtain rfl := Option.some.inj hps
    rw [goal, goal, hpending, List.getLast?_cons]
    cases hrest : rest.getLast? with
    | some x => rfl
    | none =>
      obtain ⟨place, more, rfl⟩ := List.exists_cons_of_ne_nil hne
      rfl

/-- Once all requests have succeeded, the workers there are have the target `t`. -/
def LeadsTo (s : State τ κ ρ) (t : τ) : Prop := ∀ u, goal s = some u → u = t

/-- A new credential changes neither the shown target nor where the requests lead exactly when there
are workers, or it asks again for what is pending. -/
theorem leadsTo_credential [Nontrivial τ] {s s' : State τ κ ρ} {c : κ} {own : τ} (hs : Coherent s)
    (h : step s (.credential c own) = some s') :
    (s'.shown = s.shown ∧ ∀ t, LeadsTo s t → LeadsTo s' t) ↔
      s.workers ≠ [] ∨ (s.pending ≠ [] ∧ own = s.shown) := by
  obtain ⟨hw, rfl⟩ | ⟨hw, rfl⟩ := step_credential h
  · have hgoal : goal ({ s with credential := some c }.request own) = some own := by
      rw [goal, State.request, List.getLast?_concat]
    constructor
    · rintro ⟨hshown, hleads⟩
      refine Or.inr ⟨fun hnil => ?_, hshown⟩
      obtain ⟨t, ht⟩ := exists_ne own
      refine ht (hleads t (fun u hu => ?_) own hgoal).symm
      rw [goal, hnil, hw] at hu
      cases hu
    · rintro (hne | ⟨hne, rfl⟩)
      · exact absurd hw hne
      · refine ⟨rfl, fun t ht u hu => ?_⟩
        rw [hgoal, ← goal_of_pending hs hne] at hu
        exact ht u hu
  · have hgoal : goal (s.renew c) = goal s := by
      rw [goal, goal, State.renew]
      cases s.pending.getLast? with
      | some r => rfl
      | none =>
        cases s.workers with
        | nil => rfl
        | cons w ws => rfl
    refine iff_of_true ⟨rfl, fun t ht u hu => ?_⟩ (Or.inl hw)
    rw [hgoal] at hu
    exact ht u hu

end Handover
end Foundations
