import Mathlib.Data.List.Basic

/-! # Attempts in order

Alternatives are tried one after the other until one succeeds. The result is the first success, and the
failure of the last alternative when there is none. A probe is what is known of the alternatives
beforehand: where it finds something the attempt succeeds, elsewhere it fails. Then the first
alternative with a finding decides.
-/

namespace Foundations
set_option autoImplicit false
variable {α β γ ε : Type*}

/-- The result of trying the alternatives; without any it is the failure given at the start. -/
def attempts (attempt : α → Except ε β) : ε → List α → Except ε β
  | start, [] => .error start
  | _, a :: rest =>
    match attempt a with
    | .ok b => .ok b
    | .error failure => attempts attempt failure rest

variable {attempt : α → Except ε β}

theorem attempts_cons_of_ok {a : α} {b : β} (h : attempt a = .ok b) (start : ε) (rest : List α) :
    attempts attempt start (a :: rest) = .ok b := by
  rw [attempts, h]

theorem attempts_cons_of_error {a : α} {failure : ε} (h : attempt a = .error failure) (start : ε)
    (rest : List α) : attempts attempt start (a :: rest) = attempts attempt failure rest := by
  rw [attempts, h]

/-- The attempts succeed exactly where the probe finds something. -/
structure Foretold (probe : α → Option γ) (attempt : α → Except ε β) : Prop where
  fails : ∀ a, probe a = none → ∃ failure, attempt a = .error failure
  succeeds : ∀ a found, probe a = some found → ∃ b, attempt a = .ok b

variable {probe : α → Option γ}

theorem Foretold.attempts_of_found (h : Foretold probe attempt) {found : γ} {l : List α}
    (hfind : l.findSome? probe = some found) (start : ε) :
    ∃ a ∈ l, probe a = some found ∧ attempts attempt start l = attempt a := by
  induction l generalizing start with
  | nil => simp at hfind
  | cons a rest ih =>
    cases ha : probe a with
    | some first =>
      obtain ⟨b, hb⟩ := h.succeeds a first ha
      rw [List.findSome?_cons, ha] at hfind
      refine ⟨a, List.mem_cons_self, hfind ▸ ha, ?_⟩
      rw [attempts_cons_of_ok hb, hb]
    | none =>
      obtain ⟨failure, hfailure⟩ := h.fails a ha
      rw [List.findSome?_cons, ha] at hfind
      obtain ⟨c, hc, hfound, hresult⟩ := ih hfind failure
      refine ⟨c, List.mem_cons_of_mem _ hc, hfound, ?_⟩
      rw [attempts_cons_of_error hfailure, hresult]

theorem Foretold.attempts_of_none (h : Foretold probe attempt) {l : List α}
    (hfind : l.findSome? probe = none) (start : ε) : ∃ failure, attempts attempt start l = .error failure := by
  induction l generalizing start with
  | nil => exact ⟨start, rfl⟩
  | cons a rest ih =>
    rw [List.findSome?_eq_none_iff] at hfind ih
    obtain ⟨failure, hfailure⟩ := h.fails a (hfind a List.mem_cons_self)
    rw [attempts_cons_of_error hfailure]
    exact ih (fun c hc => hfind c (List.mem_cons_of_mem _ hc)) failure

/-- When nothing succeeds before it, the last alternative decides. -/
theorem Foretold.attempts_last (h : Foretold probe attempt) {l : List α} {a : α} {start : ε}
    (hfind : l.findSome? probe = none) : attempts attempt start (l ++ [a]) = attempt a := by
  induction l generalizing start with
  | nil =>
    show attempts attempt start [a] = attempt a
    cases ha : attempt a with
    | ok b => exact attempts_cons_of_ok ha start []
    | error failure => exact attempts_cons_of_error ha start []
  | cons first rest ih =>
    rw [List.findSome?_eq_none_iff] at hfind ih
    obtain ⟨failure, hfailure⟩ := h.fails first (hfind first List.mem_cons_self)
    rw [List.cons_append, attempts_cons_of_error hfailure]
    exact ih fun c hc => hfind c (List.mem_cons_of_mem _ hc)

end Foundations
