import Monitostr.Utils.Text

/-! # Trimming and words

What `TrimCopy` cuts off is white space, so it cuts off no part of a text without white space.
-/

namespace Monitostr
set_option autoImplicit false

/-- The bytes before the first white space. -/
def firstWord (s : Str) : Str := s.takeWhile fun c => !isSpace c

def afterFirstWord (s : Str) : Str := s.dropWhile fun c => !isSpace c

theorem isSpace_iff {c : UInt8} :
    isSpace c = true ↔ c.toNat = 32 ∨ 9 ≤ c.toNat ∧ c.toNat ≤ 13 := by
  rw [isSpace, Bool.or_eq_true, Bool.and_eq_true, beq_iff_eq, decide_eq_true_eq, decide_eq_true_eq,
    UInt8.le_iff_toNat_le, UInt8.le_iff_toNat_le, ← UInt8.toNat_inj]
  rfl

@[simp] theorem isSpace_toLower (c : UInt8) : isSpace (toLower c) = isSpace c := by
  rw [Bool.eq_iff_iff, isSpace_iff, isSpace_iff]
  cases hupper : isUpper c with
  | false => rw [toLower_of_not_isUpper hupper]
  | true =>
    have hbounds := isUpper_iff.mp hupper
    rw [toLower, if_pos hupper, UInt8.toNat_add]
    have hmod : (c.toNat + (32 : UInt8).toNat) % 2 ^ 8 = c.toNat + 32 := Nat.mod_eq_of_lt (by
      have : (32 : UInt8).toNat = 32 := rfl
      omega)
    rw [hmod]
    omega

theorem isSpace_comp_toLower : isSpace ∘ toLower = isSpace := funext isSpace_toLower

/-! ## `TrimCopy` -/

theorem toLowerCopy_trimCopy (s : Str) : toLowerCopy (trimCopy s) = trimCopy (toLowerCopy s) := by
  unfold toLowerCopy trimCopy List.rdropWhile
  rw [List.dropWhile_map, isSpace_comp_toLower, ← List.map_reverse, List.dropWhile_map,
    isSpace_comp_toLower, ← List.map_reverse]

theorem trimCopy_append_left {pre s : Str} (h : ∀ c ∈ pre, isSpace c = true) :
    trimCopy (pre ++ s) = trimCopy s := by
  rw [trimCopy, List.dropWhile_append_of_pos h, trimCopy]

theorem trimCopy_append_right {s post : Str} (h : ∀ c ∈ post, isSpace c = true) :
    trimCopy (s ++ post) = trimCopy s := by
  unfold trimCopy
  rw [List.dropWhile_append]
  split
  next hempty =>
    have hpost : post.dropWhile isSpace = [] := List.dropWhile_eq_nil_iff.mpr h
    rw [hpost, List.isEmpty_iff.mp hempty]
  next =>
    rw [List.rdropWhile, List.reverse_append,
      List.dropWhile_append_of_pos (by simpa using h), List.rdropWhile]

/-- A text is not cut by taking away a start that does not have its first byte. -/
theorem infix_of_append {t pre s : Str} (ht : t ≠ []) (hpre : ∀ c ∈ pre, t.head? ≠ some c)
    (h : t <:+: pre ++ s) : t <:+: s := by
  induction pre with
  | nil => exact h
  | cons c pre ih =>
    rcases List.infix_cons_iff.mp h with hstart | htail
    · cases t with
      | nil => exact absurd rfl ht
      | cons d t =>
        obtain ⟨rfl, -⟩ := List.cons_prefix_cons.mp hstart
        exact absurd rfl (hpre d List.mem_cons_self)
    · exact ih (fun d hd => hpre d (List.mem_cons_of_mem c hd)) htail

section Infix
variable {t : Str} {p : UInt8 → Bool} (ht : t ≠ []) (hp : ∀ c ∈ t, p c = false)
include ht hp

theorem infix_dropWhile {s : Str} (h : t <:+: s) : t <:+: s.dropWhile p := by
  rw [← List.takeWhile_append_dropWhile (p := p) (l := s)] at h
  refine infix_of_append ht (fun c hc hhead => ?_) h
  have hmem := hp c (List.mem_of_mem_head? hhead)
  rw [List.mem_takeWhile_imp hc] at hmem
  exact Bool.false_ne_true hmem.symm

theorem infix_rdropWhile {s : Str} (h : t <:+: s) : t <:+: s.rdropWhile p := by
  rw [List.rdropWhile, ← List.reverse_infix, List.reverse_reverse]
  exact infix_dropWhile (by simpa using ht) (by simpa using hp) (List.reverse_infix.mpr h)

end Infix

/-- A text without white space stays in what is trimmed. -/
theorem infix_trimCopy {t s : Str} (ht : t ≠ []) (hspace : ∀ c ∈ t, isSpace c = false)
    (h : t <:+: s) : t <:+: trimCopy s :=
  infix_rdropWhile ht hspace (infix_dropWhile ht hspace h)

theorem trimCopy_ne_nil {s : Str} {c : UInt8} (hmem : c ∈ s) (hspace : isSpace c = false) :
    trimCopy s ≠ [] := by
  intro hnil
  have hinfix : [c] <:+: trimCopy s :=
    infix_trimCopy (List.cons_ne_nil c []) (by simpa using hspace) (by
      obtain ⟨before, after, rfl⟩ := List.append_of_mem hmem
      exact ⟨before, after, by simp⟩)
  rw [hnil] at hinfix
  exact List.cons_ne_nil c [] (List.infix_nil.mp hinfix)

/-! ## The first word -/

theorem firstWord_append_afterFirstWord (s : Str) : firstWord s ++ afterFirstWord s = s :=
  List.takeWhile_append_dropWhile

theorem drop_eq_of_le {s : Str} {n : ℕ} (h : n ≤ (firstWord s).length) :
    s.drop n = (firstWord s).drop n ++ afterFirstWord s := by
  rw [← List.drop_append_of_le_length h, firstWord_append_afterFirstWord]

theorem firstWord_toLowerCopy (s : Str) : firstWord (toLowerCopy s) = toLowerCopy (firstWord s) := by
  unfold firstWord toLowerCopy
  rw [List.takeWhile_map]
  congr 2
  funext c
  simp

theorem isSpace_of_mem_firstWord {s : Str} {c : UInt8} (h : c ∈ firstWord s) : isSpace c = false := by
  have := List.mem_takeWhile_imp h
  simpa using this

/-- A start without white space is a start of the first word. -/
theorem prefix_firstWord_iff {pre s : Str} (h : ∀ c ∈ pre, isSpace c = false) :
    pre <+: firstWord s ↔ pre <+: s := by
  constructor
  · exact fun hpre => hpre.trans (List.takeWhile_prefix _)
  · induction pre generalizing s with
    | nil => exact fun _ => List.nil_prefix
    | cons c pre ih =>
      intro hpre
      obtain ⟨rest, rfl⟩ := hpre
      have hc := h c List.mem_cons_self
      rw [List.cons_append, firstWord, List.takeWhile_cons_of_pos (by simpa using hc)]
      refine List.cons_prefix_cons.mpr ⟨rfl, ?_⟩
      exact ih (fun d hd => h d (List.mem_cons_of_mem c hd)) (List.prefix_append pre rest)

end Monitostr
