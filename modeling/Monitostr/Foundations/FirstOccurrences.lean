import Mathlib.Data.List.Nodup

/-! # First occurrences

`List.eraseDups` keeps each element at its first occurrence, in order. A loop that appends to its output
what is wanted and not yet in it computes the first occurrences of what is wanted.
-/

namespace Foundations
set_option autoImplicit false
variable {α : Type*} [BEq α] [LawfulBEq α]

omit [LawfulBEq α] in
/-- Induction as `eraseDups` goes: to a list from what remains of its tail without its head. -/
theorem eraseDups_induction {motive : List α → Prop} (hnil : motive [])
    (hcons : ∀ a l, motive (l.filter fun b => !b == a) → motive (a :: l)) : ∀ l, motive l
  | [] => hnil
  | a :: l => hcons a l (eraseDups_induction hnil hcons _)
termination_by l => l.length
decreasing_by exact Nat.lt_succ_of_le (List.length_filter_le _ _)

theorem nodup_eraseDups (l : List α) : l.eraseDups.Nodup := by
  induction l using eraseDups_induction with
  | hnil => exact List.nodup_nil
  | hcons a l ih =>
    rw [List.eraseDups_cons, List.nodup_cons, List.mem_eraseDups, List.mem_filter]
    exact ⟨by simp, ih⟩

theorem eraseDups_of_nodup {l : List α} (h : l.Nodup) : l.eraseDups = l := by
  induction l with
  | nil => rfl
  | cons a l ih =>
    obtain ⟨ha, hl⟩ := List.nodup_cons.mp h
    have hfilter : (l.filter fun b => !b == a) = l := by
      refine List.filter_eq_self.mpr fun b hb => ?_
      have hne : b ≠ a := fun h => ha (h ▸ hb)
      simp [hne]
    rw [List.eraseDups_cons, hfilter, ih hl]

theorem filter_eraseDups (p : α → Bool) (l : List α) :
    l.eraseDups.filter p = (l.filter p).eraseDups := by
  induction l using eraseDups_induction with
  | hnil => rfl
  | hcons a l ih =>
    rw [List.filter_filter] at ih
    cases ha : p a with
    | true =>
      rw [List.eraseDups_cons, List.filter_cons_of_pos ha, List.filter_cons_of_pos ha,
        List.eraseDups_cons, ih, List.filter_filter]
      simp only [Bool.and_comm]
    | false =>
      -- An `a` that `p` rejects is in neither list.
      have hrest : (l.filter fun b => p b && !b == a) = l.filter p := by
        refine List.filter_congr fun b _ => ?_
        by_cases h : b = a
        · subst h
          simp [ha]
        · simp [h]
      rw [List.eraseDups_cons, List.filter_cons_of_neg (by simp [ha]),
        List.filter_cons_of_neg (by simp [ha]), ih, hrest]

/-- The loop that appends the wanted elements that its output does not have yet. -/
theorem foldl_collect (wanted : α → Prop) [DecidablePred wanted] (l : List α) :
    l.foldl (fun out a => if wanted a ∧ a ∉ out then out ++ [a] else out) [] =
      (l.filter fun a => wanted a).eraseDups := by
  have hgeneral : ∀ (l out : List α),
      l.foldl (fun out a => if wanted a ∧ a ∉ out then out ++ [a] else out) out =
        out ++ (l.filter fun a => wanted a ∧ a ∉ out).eraseDups := by
    intro l
    induction l with
    | nil => intro out; simp
    | cons a l ih =>
      intro out
      rw [List.foldl_cons, ih]
      by_cases ha : wanted a ∧ a ∉ out
      · rw [if_pos ha, List.filter_cons_of_pos (p := fun a => decide (wanted a ∧ a ∉ out))
          (decide_eq_true ha), List.eraseDups_cons, List.append_assoc, List.singleton_append,
          List.filter_filter]
        congr 3
        refine List.filter_congr fun b _ => ?_
        by_cases hb : b = a <;> simp [hb]
      · rw [if_neg ha, List.filter_cons_of_neg (p := fun a => decide (wanted a ∧ a ∉ out))
          (by simpa using ha)]
  rw [hgeneral l [], List.nil_append]
  simp

end Foundations
