import Mathlib.Data.FinEnum
import Mathlib.Data.List.Basic
import Mathlib.Data.List.DropRight

/-! # Strings as byte sequences

Definitions that stand for functions, types and constants of the source have their names, in camel
case. `std::string` and `std::string_view` are sequences of bytes without any promise about their
encoding, so a string is a list of bytes. The character classes are those of `<cctype>` in the "C"
locale, which the program never changes: bytes from 128 on are in none of them.
-/

namespace Monitostr
set_option autoImplicit false

/-- `std::string`. -/
abbrev Str := List UInt8

/-- The bytes of a string literal of the source. -/
def lit (s : String) : Str := s.toByteArray.data.toList

def stdToString (n : ℕ) : Str := lit (Nat.repr n)

def stdToStringInt (n : ℤ) : Str := lit (Int.repr n)

/-! ## `<cctype>` -/

def isLower (c : UInt8) : Bool := 97 ≤ c && c ≤ 122
def isUpper (c : UInt8) : Bool := 65 ≤ c && c ≤ 90
def toLower (c : UInt8) : UInt8 := if isUpper c then c + 32 else c
def toUpper (c : UInt8) : UInt8 := if isLower c then c - 32 else c
def isSpace (c : UInt8) : Bool := c == 32 || (9 ≤ c && c ≤ 13)
def isDigit (c : UInt8) : Bool := 48 ≤ c && c ≤ 57

/-- `std::isxdigit`. -/
def isHexDigit (c : UInt8) : Bool := isDigit c || (97 ≤ c && c ≤ 102) || (65 ≤ c && c ≤ 70)

def toLowerCopy (s : Str) : Str := s.map toLower

def toUpperCopy (s : Str) : Str := s.map toUpper

def trimCopy (s : Str) : Str := (s.dropWhile isSpace).rdropWhile isSpace

theorem isLower_iff {c : UInt8} : isLower c = true ↔ 97 ≤ c.toNat ∧ c.toNat ≤ 122 := by
  simp [isLower, UInt8.le_iff_toNat_le]

theorem isUpper_iff {c : UInt8} : isUpper c = true ↔ 65 ≤ c.toNat ∧ c.toNat ≤ 90 := by
  simp [isUpper, UInt8.le_iff_toNat_le]

theorem isUpper_toUpper {c : UInt8} (h : isLower c = true) :
    isUpper (toUpper c) = true ∧ toUpper c + 32 = c := by
  rw [toUpper, if_pos h]
  rw [isLower_iff] at h
  rw [isUpper_iff]
  have hle : (32 : UInt8) ≤ c :=
    UInt8.le_iff_toNat_le.mpr (Nat.le_trans (by decide : (32 : UInt8).toNat ≤ 97) h.1)
  have hsub : (c - 32).toNat = c.toNat - 32 := UInt8.toNat_sub_of_le c 32 hle
  rw [hsub]
  exact ⟨by omega, UInt8.sub_add_cancel c 32⟩

theorem not_isLower_of_isUpper {c : UInt8} (h : isUpper c = true) : isLower c = false := by
  rw [isUpper_iff] at h
  rw [← Bool.not_eq_true, isLower_iff]
  omega

@[simp] theorem isLower_toUpper (c : UInt8) : isLower (toUpper c) = false := by
  cases h : isLower c with
  | true => exact not_isLower_of_isUpper (isUpper_toUpper h).1
  | false => rw [toUpper, h]; exact h

@[simp] theorem toLower_toUpper (c : UInt8) : toLower (toUpper c) = toLower c := by
  cases h : isLower c with
  | true =>
    obtain ⟨hupper, hback⟩ := isUpper_toUpper h
    have hnot : isUpper c = false := by
      rw [← Bool.not_eq_true]
      exact fun hc => absurd h (by rw [not_isLower_of_isUpper hc]; decide)
    rw [toLower, if_pos hupper, hback, toLower, hnot]
    rfl
  | false =>
    rw [toUpper, h]
    rfl

theorem toLower_of_not_isUpper {c : UInt8} (h : isUpper c = false) : toLower c = c := by
  rw [toLower, h]
  rfl

theorem toLowerCopy_of_no_upper {s : Str} (h : ∀ c ∈ s, isUpper c = false) : toLowerCopy s = s := by
  conv_rhs => rw [← List.map_id s]
  exact List.map_congr_left fun c hc => toLower_of_not_isUpper (h c hc)

@[simp] theorem toLowerCopy_toUpperCopy (s : Str) : toLowerCopy (toUpperCopy s) = toLowerCopy s := by
  rw [toLowerCopy, toUpperCopy, List.map_map]
  exact List.map_congr_left fun c _ => toLower_toUpper c

/-! ## Searching -/

def matchesAt (eq : UInt8 → UInt8 → Bool) : Str → Str → Bool
  | _, [] => true
  | [], _ :: _ => false
  | c :: s, d :: pattern => eq c d && matchesAt eq s pattern

/-- `std::search` with a comparison: the first position of the pattern, if there is one. -/
def stdSearch (eq : UInt8 → UInt8 → Bool) : Str → Str → Option ℕ
  | [], pattern => if pattern.isEmpty then some 0 else none
  | c :: s, pattern =>
    if matchesAt eq (c :: s) pattern then some 0 else (stdSearch eq s pattern).map (· + 1)

/-- `std::string::find`. -/
def stdFind (s pattern : Str) : Option ℕ := stdSearch (· == ·) s pattern

/-- Comparing what a function makes of the bytes is searching in what it makes of the strings. -/
theorem stdSearch_map (f : UInt8 → UInt8) (s pattern : Str) :
    stdSearch (fun a b => f a == f b) s pattern = stdFind (s.map f) (pattern.map f) := by
  have hmatches : ∀ s pattern : Str, matchesAt (fun a b => f a == f b) s pattern =
      matchesAt (· == ·) (s.map f) (pattern.map f) := by
    intro s pattern
    induction s generalizing pattern with
    | nil => cases pattern <;> rfl
    | cons c s ih =>
      cases pattern with
      | nil => rfl
      | cons d pattern => exact congrArg _ (ih pattern)
  rw [stdFind]
  induction s with
  | nil => cases pattern <;> rfl
  | cons c s ih => rw [stdSearch, hmatches, ih, List.map_cons, stdSearch]

end Monitostr
