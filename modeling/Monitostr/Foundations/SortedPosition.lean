import Mathlib.Data.List.Nodup
import Mathlib.Data.List.Perm.Basic

/-! # Positions in a sorted list

In a list that is strictly sorted by a relation, an item stands behind as many others as are less than it. So
when the list grows, an item moves down by the number of new items that are less than it.
-/

namespace Foundations
set_option autoImplicit false

section SortedPosition
variable {α : Type*} {r : α → α → Prop}

theorem nodup_of_sorted (hasymm : ∀ a b, r a b → ¬ r b a) {l : List α} (h : l.Pairwise r) : l.Nodup := by
  refine h.imp fun {a b} hab heq => ?_
  subst heq
  exact hasymm a a hab hab

/-- The number of items that are less than `a`. -/
def countBelow (r : α → α → Prop) [DecidableRel r] (a : α) (l : List α) : ℕ :=
  l.countP fun b => decide (r b a)

variable [DecidableRel r] (hasymm : ∀ a b, r a b → ¬ r b a)
include hasymm

theorem getElem?_eq_some_iff_countBelow {l : List α} (hsorted : l.Pairwise r) {a : α} (ha : a ∈ l) {i : ℕ} :
    l[i]? = some a ↔ i = countBelow r a l := by
  have hirrefl : ¬ r a a := fun h => hasymm a a h h
  induction l generalizing i with
  | nil => cases ha
  | cons b l ih =>
    obtain ⟨hb, hl⟩ := List.pairwise_cons.mp hsorted
    unfold countBelow at ih ⊢
    rw [List.countP_cons]
    by_cases heq : b = a
    · -- The item is the head: nothing behind it is less.
      subst heq
      have hbelow : l.countP (fun c => decide (r c b)) = 0 :=
        List.countP_eq_zero.mpr fun c hc => by simp [hasymm b c (hb c hc)]
      have hnot : b ∉ l := fun hmem => hirrefl (hb b hmem)
      cases i with
      | zero => simp [hbelow, hirrefl]
      | succ i =>
        have hne : l[i]? ≠ some b := fun h => hnot (List.mem_of_getElem? h)
        simp [hbelow, hirrefl, hne]
    · have hmem : a ∈ l := (List.mem_cons.mp ha).resolve_left (Ne.symm heq)
      have hless : r b a := hb a hmem
      cases i with
      | zero => simp [heq, hless]
      | succ i => simp [hless, ih hl hmem]

variable [DecidableEq α]

/-- The items less than `a` of a longer list: those of the shorter one, and the new ones. -/
theorem countBelow_eq_add {l l' : List α} (hsorted : l.Pairwise r) (hsorted' : l'.Pairwise r)
    (hsub : l ⊆ l') (a : α) :
    countBelow r a l' = countBelow r a l + countBelow r a (l'.filter (· ∉ l)) := by
  have hold : (l'.filter (· ∈ l)).Perm l := by
    refine (List.perm_ext_iff_of_nodup ((nodup_of_sorted hasymm hsorted').filter _)
      (nodup_of_sorted hasymm hsorted)).mpr fun b => ?_
    simp only [List.mem_filter, decide_eq_true_eq]
    exact ⟨And.right, fun h => ⟨hsub h, h⟩⟩
  unfold countBelow
  rw [List.countP_eq_countP_filter_add l' _ (fun b => decide (b ∈ l)), hold.countP_eq]
  simp only [decide_not]

/-- **An item moves down** by the number of new items that are less than it. -/
theorem getElem?_add_countBelow {l l' : List α} (hsorted : l.Pairwise r) (hsorted' : l'.Pairwise r)
    (hsub : l ⊆ l') {i : ℕ} {a : α} (h : l[i]? = some a) :
    l'[i + countBelow r a (l'.filter (· ∉ l))]? = some a := by
  have ha : a ∈ l := List.mem_of_getElem? h
  obtain rfl := (getElem?_eq_some_iff_countBelow hasymm hsorted ha).mp h
  refine (getElem?_eq_some_iff_countBelow hasymm hsorted' (hsub ha)).mpr ?_
  exact (countBelow_eq_add hasymm hsorted hsorted' hsub a).symm

/-- An item keeps its position exactly when no new item is less than it. -/
theorem getElem?_kept_iff {l l' : List α} (hsorted : l.Pairwise r) (hsorted' : l'.Pairwise r)
    (hsub : l ⊆ l') {i : ℕ} {a : α} (h : l[i]? = some a) :
    l'[i]? = some a ↔ ∀ b ∈ l', r b a → b ∈ l := by
  have ha : a ∈ l := List.mem_of_getElem? h
  have hplace := (getElem?_eq_some_iff_countBelow hasymm hsorted ha).mp h
  have hcount : i = countBelow r a l' ↔ countBelow r a (l'.filter (· ∉ l)) = 0 := by
    rw [countBelow_eq_add hasymm hsorted hsorted' hsub a]
    omega
  rw [getElem?_eq_some_iff_countBelow hasymm hsorted' (hsub ha), hcount, countBelow, List.countP_eq_zero]
  simp only [List.mem_filter, decide_eq_true_eq, and_imp]
  exact ⟨fun hnone b hb hless => by_contra fun hnot => hnone b hb hnot hless,
    fun hall b hb hnot hless => hnot (hall b hb hless)⟩

end SortedPosition
end Foundations
