import Mathlib.Data.List.DropRight
import Mathlib.Logic.Function.Basic

/-! # Stores of independent records

A store has at most one record for each key. An operation either clears the store or makes a new record for
its key out of the one before. The record for a key is then what the operations for this key since the last
clearing make of it, whatever comes between them.
-/

namespace Foundations
set_option autoImplicit false
variable {κ ρ ω σ : Type*} [DecidableEq κ]

/-- What the operations of a store do. -/
structure KeyedOps (κ ρ ω : Type*) where
  /-- The key of an operation, `none` for one that clears the store. -/
  key : ω → Option κ
  /-- The record that an operation makes out of the one before, if there is one. -/
  record : ω → Option ρ → ρ

namespace KeyedOps
variable (K : KeyedOps κ ρ ω)

/-- The records after an operation. -/
def after (records : κ → Option ρ) (op : ω) : κ → Option ρ :=
  match K.key op with
  | none => fun _ => none
  | some k => Function.update records k (some (K.record op (records k)))

/-- The records after a log of operations on the empty store. -/
def replay (log : List ω) : κ → Option ρ := log.foldl K.after fun _ => none

/-- The operations since the last clearing. -/
def current (log : List ω) : List ω := log.rtakeWhile fun op => (K.key op).isSome

/-- Those of them that are for one key. -/
def own (k : κ) (log : List ω) : List ω := (K.current log).filter fun op => K.key op = some k

variable {K}

/-- A store whose steps act on its records as the operations do has the records of the log. -/
theorem replay_of_step {step : σ → ω → σ} {records : σ → κ → Option ρ}
    (hstep : ∀ s op, records (step s op) = K.after (records s) op) {s : σ}
    (hs : records s = fun _ => none) (log : List ω) :
    records (log.foldl step s) = K.replay log := by
  rw [replay, ← hs]
  exact (List.foldl_hom records (fun s op => (hstep s op).symm)).symm

theorem replay_concat (log : List ω) (op : ω) :
    K.replay (log ++ [op]) = K.after (K.replay log) op := by
  rw [replay, replay, List.foldl_append]
  rfl

theorem own_ne_nil {k : κ} {log : List ω} :
    K.own k log ≠ [] ↔ ∃ op ∈ K.current log, K.key op = some k := by
  rw [own, ne_eq, List.filter_eq_nil_iff]
  simp

theorem own_concat_of_clear {op : ω} (h : K.key op = none) (k : κ) (log : List ω) :
    K.own k (log ++ [op]) = [] := by
  rw [own, current, List.rtakeWhile_concat_neg _ _ _ (by simp [h])]
  rfl

theorem own_concat_of_key {op : ω} {k : κ} (h : K.key op = some k) (k' : κ) (log : List ω) :
    K.own k' (log ++ [op]) = if k = k' then K.own k' log ++ [op] else K.own k' log := by
  rw [own, current, List.rtakeWhile_concat_pos _ _ _ (by simp [h]), List.filter_append, own, current]
  by_cases hk : k = k' <;> simp [h, hk]

/-- The record for a key is made by the operations for it. -/
theorem replay_eq_own (log : List ω) (k : κ) :
    K.replay log k = (K.own k log).foldl (fun record op => some (K.record op record)) none := by
  induction log using List.reverseRecOn with
  | nil => rfl
  | append_singleton log op ih =>
    rw [replay_concat, after]
    cases hkey : K.key op with
    | none => rw [own_concat_of_clear hkey, List.foldl_nil]
    | some k' =>
      rw [own_concat_of_key hkey]
      by_cases hk : k' = k
      · subst hk
        rw [if_pos rfl, List.foldl_append, ← ih]
        exact Function.update_self ..
      · rw [if_neg hk, ← ih]
        exact Function.update_of_ne (Ne.symm hk) ..

/-- Operations on one key change its record only. -/
theorem foldl_after_of_key {k : κ} {ops : List ω} (h : ∀ op ∈ ops, K.key op = some k)
    (records : κ → Option ρ) :
    ops.foldl K.after records = Function.update records k
      (ops.foldl (fun record op => some (K.record op record)) (records k)) := by
  induction ops generalizing records with
  | nil => exact (Function.update_eq_self k records).symm
  | cons op ops ih =>
    have hafter : K.after records op = Function.update records k (some (K.record op (records k))) := by
      rw [after, h op List.mem_cons_self]
    rw [List.foldl_cons, ih fun op hop => h op (List.mem_cons_of_mem _ hop), hafter,
      Function.update_idem, Function.update_self, List.foldl_cons]

/-- Operations on different keys commute. -/
theorem after_comm {op op' : ω} {k k' : κ} (h : K.key op = some k) (h' : K.key op' = some k')
    (hne : k ≠ k') (records : κ → Option ρ) :
    K.after (K.after records op) op' = K.after (K.after records op') op := by
  rw [after, after, h, h', after, after, h, h']
  dsimp only
  rw [Function.update_of_ne hne.symm, Function.update_of_ne hne, Function.update_comm hne]

theorem replay_swap {op op' : ω} {k k' : κ} (h : K.key op = some k) (h' : K.key op' = some k')
    (hne : k ≠ k') (before after : List ω) :
    K.replay (before ++ op :: op' :: after) = K.replay (before ++ op' :: op :: after) := by
  rw [replay, replay, List.foldl_append, List.foldl_append, List.foldl_cons, List.foldl_cons,
    List.foldl_cons, List.foldl_cons, after_comm h h' hne]

end KeyedOps
end Foundations
