import Mathlib.Algebra.Order.Ring.Nat
import Mathlib.Data.List.Basic
import Mathlib.Data.List.DropRight

/-! # UTF-8 text as bytes

A byte sequence is UTF-8 text when it is the concatenation of the encodings of characters. The first byte of
an encoding tells its length and the others are continuation bytes, so text has as many bytes as its first
bytes tell: that is what cutting off one continuation byte breaks.
-/

namespace Foundations
set_option autoImplicit false

/-- The bytes are the UTF-8 encoding of some characters. -/
def IsUtf8 (s : List UInt8) : Prop := ∃ chars : List Char, s = chars.flatMap String.utf8EncodeChar

/-- The bytes are the UTF-8 encoding of one character. -/
def IsUtf8Char (s : List UInt8) : Prop := ∃ c : Char, s = String.utf8EncodeChar c

/-- The length that a first byte tells; none of a continuation byte. -/
def toldLength (b : UInt8) : ℕ :=
  if b.toNat < 128 then 1
  else if b.toNat < 192 then 0
  else if b.toNat < 224 then 2
  else if b.toNat < 240 then 3
  else 4

theorem isUtf8_nil : IsUtf8 [] := ⟨[], rfl⟩

theorem IsUtf8.append {s t : List UInt8} (hs : IsUtf8 s) (ht : IsUtf8 t) : IsUtf8 (s ++ t) := by
  obtain ⟨cs, rfl⟩ := hs
  obtain ⟨ds, rfl⟩ := ht
  exact ⟨cs ++ ds, List.flatMap_append.symm⟩

theorem IsUtf8Char.isUtf8 {s : List UInt8} (h : IsUtf8Char s) : IsUtf8 s := by
  obtain ⟨c, rfl⟩ := h
  exact ⟨[c], by simp⟩

theorem IsUtf8Char.length_bounds {s : List UInt8} (h : IsUtf8Char s) : 1 ≤ s.length ∧ s.length ≤ 4 := by
  obtain ⟨c, rfl⟩ := h
  rw [String.length_utf8EncodeChar]
  exact ⟨c.utf8Size_pos, c.utf8Size_le_four⟩

/-! ## Encodings of one character -/

theorem toNat_ofNat_of_lt {n : ℕ} (h : n < 256) : (UInt8.ofNat n).toNat = n := by
  rw [UInt8.toNat_ofNat']
  exact Nat.mod_eq_of_lt h

theorem val_lt (c : Char) : c.val.toNat < 1114112 := by
  rcases c.valid with h | h
  · exact Nat.lt_trans h (by decide)
  · exact h.2

/-- An encoding is one byte below 128, or a longer sequence that neither starts nor ends with such a byte. -/
theorem encode_cases (c : Char) :
    (∃ b : UInt8, String.utf8EncodeChar c = [b] ∧ b.toNat < 128) ∨
      ∃ (first : UInt8) (middle : List UInt8) (last : UInt8),
        String.utf8EncodeChar c = first :: middle ++ [last] ∧ 128 ≤ first.toNat ∧
          128 ≤ last.toNat := by
  have hc := val_lt c
  rw [String.utf8EncodeChar]
  split
  next h => exact .inl ⟨_, rfl, by rw [toNat_ofNat_of_lt] <;> omega⟩
  next =>
    right
    split
    next => exact ⟨_, [], _, rfl, by rw [toNat_ofNat_of_lt] <;> omega,
      by rw [toNat_ofNat_of_lt] <;> omega⟩
    next =>
      split
      next => exact ⟨_, [_], _, rfl, by rw [toNat_ofNat_of_lt] <;> omega,
        by rw [toNat_ofNat_of_lt] <;> omega⟩
      next => exact ⟨_, [_, _], _, rfl, by rw [toNat_ofNat_of_lt] <;> omega,
        by rw [toNat_ofNat_of_lt] <;> omega⟩

/-- The bytes of an encoding tell its length. -/
theorem toldLength_encode (c : Char) :
    ((String.utf8EncodeChar c).map toldLength).sum = (String.utf8EncodeChar c).length := by
  have hc := val_lt c
  have htail : ∀ n : ℕ, toldLength (UInt8.ofNat (n % 64 + 128)) = 0 := by
    intro n
    rw [toldLength, toNat_ofNat_of_lt (by omega), if_neg (by omega), if_pos (by omega)]
  rw [String.utf8EncodeChar]
  split
  next h =>
    simp only [List.map_cons, List.map_nil, List.sum_cons, List.sum_nil, List.length_cons,
      List.length_nil, Nat.add_zero, Nat.zero_add]
    rw [toldLength, toNat_ofNat_of_lt (by omega), if_pos (by omega)]
  next =>
    split
    next =>
      simp only [List.map_cons, List.map_nil, List.sum_cons, List.sum_nil, List.length_cons,
        List.length_nil, htail, Nat.add_zero, Nat.zero_add, Nat.reduceAdd]
      rw [toldLength, toNat_ofNat_of_lt (by omega), if_neg (by omega), if_neg (by omega),
        if_pos (by omega)]
    next =>
      split
      next =>
        simp only [List.map_cons, List.map_nil, List.sum_cons, List.sum_nil, List.length_cons,
          List.length_nil, htail, Nat.add_zero, Nat.zero_add, Nat.reduceAdd]
        rw [toldLength, toNat_ofNat_of_lt (by omega), if_neg (by omega), if_neg (by omega),
          if_neg (by omega), if_pos (by omega)]
      next =>
        simp only [List.map_cons, List.map_nil, List.sum_cons, List.sum_nil, List.length_cons,
          List.length_nil, htail, Nat.add_zero, Nat.zero_add, Nat.reduceAdd]
        rw [toldLength, toNat_ofNat_of_lt (by omega), if_neg (by omega), if_neg (by omega),
          if_neg (by omega), if_neg (by omega)]

/-! ## Text -/

theorem IsUtf8.toldLength_sum {s : List UInt8} (h : IsUtf8 s) : (s.map toldLength).sum = s.length := by
  obtain ⟨cs, rfl⟩ := h
  induction cs with
  | nil => rfl
  | cons c cs ih =>
    rw [List.flatMap_cons, List.map_append, List.sum_append, List.length_append, toldLength_encode, ih]

/-- A text that starts with an ASCII character goes on as text. -/
theorem IsUtf8.tail {b : UInt8} {s : List UInt8} (h : IsUtf8 (b :: s)) (hb : b.toNat < 128) :
    IsUtf8 s := by
  obtain ⟨cs, hcs⟩ := h
  cases cs with
  | nil => cases hcs
  | cons c cs =>
    rw [List.flatMap_cons] at hcs
    rcases encode_cases c with ⟨b', hc, -⟩ | ⟨first, middle, last, hc, hfirst, -⟩
    · rw [hc] at hcs
      exact ⟨cs, (List.cons.inj hcs).2⟩
    · rw [hc] at hcs
      obtain ⟨rfl, -⟩ := List.cons.inj hcs
      omega

/-- A text without its last byte is text exactly when this byte is an ASCII character. -/
theorem isUtf8_concat_iff {s : List UInt8} {b : UInt8} (h : IsUtf8 (s ++ [b])) :
    IsUtf8 s ↔ b.toNat < 128 := by
  constructor
  · intro hs
    have hlength := h.toldLength_sum
    rw [List.map_append, List.sum_append, hs.toldLength_sum, List.length_append] at hlength
    have hone : toldLength b = 1 := by simpa using hlength
    rw [toldLength] at hone
    by_contra hge
    rw [if_neg hge] at hone
    split at hone
    · omega
    · split at hone
      · omega
      · split at hone <;> omega
  · intro hb
    obtain ⟨cs, hcs⟩ := h
    rcases List.eq_nil_or_concat cs with rfl | ⟨cs, c, rfl⟩
    · simp at hcs
    · rw [List.concat_eq_append, List.flatMap_append, List.flatMap_singleton] at hcs
      rcases encode_cases c with ⟨b', hc, -⟩ | ⟨first, middle, last, hc, -, hlast⟩
      · rw [hc] at hcs
        exact ⟨cs, List.append_inj_left' hcs rfl⟩
      · rw [hc, ← List.append_assoc] at hcs
        have heq := List.append_inj_right' hcs rfl
        obtain rfl : b = last := by simpa using heq
        omega

/-- ASCII characters are text. -/
theorem isUtf8_of_ascii {s : List UInt8} (h : ∀ b ∈ s, b.toNat < 128) : IsUtf8 s := by
  induction s with
  | nil => exact isUtf8_nil
  | cons b s ih =>
    have hb := h b List.mem_cons_self
    have hchar : IsUtf8Char [b] := by
      have hvalid : b.toNat.isValidChar := .inl (by omega)
      refine ⟨Char.ofNat b.toNat, ?_⟩
      have hval : (Char.ofNat b.toNat).val.toNat = b.toNat := by
        rw [Char.ofNat, dif_pos hvalid]
        exact UInt32.toNat_ofNatLT
      rw [String.utf8EncodeChar]
      rw [hval, if_pos (by omega), UInt8.ofNat_toNat]
    exact hchar.isUtf8.append (ih fun x hx => h x (List.mem_cons_of_mem b hx))

theorem IsUtf8.dropWhile {s : List UInt8} (h : IsUtf8 s) {p : UInt8 → Bool}
    (hp : ∀ b, p b = true → b.toNat < 128) : IsUtf8 (s.dropWhile p) := by
  induction s with
  | nil => exact h
  | cons b s ih =>
    rw [List.dropWhile_cons]
    split
    next hb => exact ih (h.tail (hp b hb))
    next => exact h

theorem IsUtf8.rdropWhile {s : List UInt8} (h : IsUtf8 s) {p : UInt8 → Bool}
    (hp : ∀ b, p b = true → b.toNat < 128) : IsUtf8 (s.rdropWhile p) := by
  induction s using List.reverseRecOn with
  | nil => exact h
  | append_singleton s b ih =>
    rw [List.rdropWhile_concat]
    split
    next hb => exact ih ((isUtf8_concat_iff h).mpr (hp b hb))
    next => exact h

theorem IsUtf8.drop {s : List UInt8} (h : IsUtf8 s) :
    ∀ n : ℕ, (∀ b ∈ s.take n, b.toNat < 128) → IsUtf8 (s.drop n)
  | 0, _ => h
  | n + 1, hascii => by
      cases s with
      | nil => exact h
      | cons b s =>
        rw [List.take_succ_cons, List.forall_mem_cons] at hascii
        exact (h.tail hascii.1).drop n hascii.2

end Foundations
