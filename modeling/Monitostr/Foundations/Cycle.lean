import Mathlib.Data.List.Iterate
import Mathlib.Data.List.Nodup
import Mathlib.Data.List.Perm.Subperm
import Mathlib.Data.Nat.ModEq

/-! # Going round a cycle

The places of a cycle are numbered from zero. A stride goes on by a fixed number of places; when this number
and that of all places have no factor in common, it comes to every place before it is back.
-/

namespace Foundations
set_option autoImplicit false

/-- The place that is `count` places on. -/
def stride (places count i : ℕ) : ℕ := (i + count) % places

section Strides
variable {places count i : ℕ}

theorem stride_lt (h : 0 < places) : stride places count i < places := Nat.mod_lt _ h

theorem stride_stride (other : ℕ) :
    stride places other (stride places count i) = stride places (count + other) i := by
  rw [stride, stride, stride, Nat.mod_add_mod, Nat.add_assoc]

/-- A stride and the rest of the way round. -/
theorem stride_back {other : ℕ} (h : places ∣ count + other) (hi : i < places) :
    stride places other (stride places count i) = i := by
  rw [stride_stride, stride]
  obtain ⟨rounds, hrounds⟩ := h
  rw [hrounds, Nat.add_mul_mod_self_left]
  exact Nat.mod_eq_of_lt hi

theorem iterate_stride (k : ℕ) :
    (stride places count)^[k] (stride places count i) = (i + (k + 1) * count) % places := by
  induction k with
  | zero =>
    rw [Nat.zero_add, Nat.one_mul]
    rfl
  | succ k ih =>
    rw [Function.iterate_succ_apply', ih, stride, Nat.mod_add_mod, Nat.add_assoc,
      Nat.succ_mul (k + 1) count]

/-- **Once round**: as many strides as there are places come to each place once. -/
theorem iterate_stride_perm (hpos : 0 < places) (hcount : Nat.Coprime places count) (i : ℕ) :
    (List.iterate (stride places count) (stride places count i) places).Perm (List.range places) := by
  have hnodup : (List.iterate (stride places count) (stride places count i) places).Nodup := by
    rw [← List.range_map_iterate]
    refine List.Nodup.map_on (fun a ha b hb heq => ?_) List.nodup_range
    rw [iterate_stride, iterate_stride] at heq
    -- The strides between two visits of one place make up whole rounds.
    have hmul : (a + 1) * count ≡ (b + 1) * count [MOD places] := Nat.ModEq.add_left_cancel' i heq
    have hmod : a + 1 ≡ b + 1 [MOD places] := hmul.cancel_right_of_coprime hcount
    exact (hmod.add_right_cancel' 1).eq_of_lt_of_lt (List.mem_range.mp ha) (List.mem_range.mp hb)
  have hsub : ∀ j ∈ List.iterate (stride places count) (stride places count i) places,
      j ∈ List.range places := by
    intro j hj
    obtain ⟨k, -, rfl⟩ := List.mem_iterate.mp hj
    rw [iterate_stride]
    exact List.mem_range.mpr (Nat.mod_lt _ hpos)
  refine (hnodup.subperm hsub).perm_of_length_le ?_
  rw [List.length_range, List.length_iterate]

end Strides

/-- The items at the places that strides come to. -/
theorem iterate_stride_items {α : Type*} {l : List α} {count : ℕ} (hpos : 0 < l.length)
    (hcount : Nat.Coprime l.length count) (i : ℕ) :
    ((List.iterate (stride l.length count) (stride l.length count i) l.length).map fun j => l[j]?).Perm
      (l.map some) := by
  have hall : ((List.range l.length).map fun j => l[j]?) = l.map some := by
    refine List.ext_getElem (by simp) fun j hj hj' => ?_
    simp only [List.getElem_map, List.getElem_range]
    exact List.getElem?_eq_getElem (by simpa using hj)
  exact hall ▸ (iterate_stride_perm hpos hcount i).map fun j => l[j]?

section Steps
variable {σ α : Type*} {Inv : σ → Prop} {step : σ → σ}

theorem iterate_inv (hkeep : ∀ s, Inv s → Inv (step s)) {s : σ} (hs : Inv s) (k : ℕ) :
    Inv (step^[k] s) := by
  induction k with
  | zero => exact hs
  | succ k ih =>
    rw [Function.iterate_succ_apply']
    exact hkeep _ ih

/-- The places of the states after a number of steps, when each step goes on to the next place. -/
theorem map_iterate_of_step {place : σ → α} {next : α → α} (hkeep : ∀ s, Inv s → Inv (step s))
    (hplace : ∀ s, Inv s → place (step s) = next (place s)) {s : σ} (hs : Inv s) (n : ℕ) :
    (List.iterate step s n).map place = List.iterate next (place s) n := by
  induction n generalizing s with
  | zero => rfl
  | succ n ih =>
    show place s :: (List.iterate step (step s) n).map place =
      place s :: List.iterate next (next (place s)) n
    rw [ih (hkeep s hs), hplace s hs]

end Steps
end Foundations
