import Mathlib.Algebra.Order.Ring.Nat
import Mathlib.Data.List.Induction
import Mathlib.Tactic.Ring

/-! # Numbers as digit lists in a radix that is a power of two

`radixValue w ds` reads `w`-bit digits, most significant first; `radixDigits w n x` writes the low
`n` digits of `x`. Regrouping a bit string from one digit width to another is the same number
written in the other radix, so its losslessness is arithmetic.
-/

namespace Foundations
set_option autoImplicit false

/-- The number whose `w`-bit digits are `ds`, most significant first. -/
def radixValue (w : ℕ) (ds : List ℕ) : ℕ := ds.foldl (fun acc d => acc * 2 ^ w + d) 0

/-- The low `n` digits of `x`, each of `w` bits, most significant first. -/
def radixDigits (w : ℕ) : ℕ → ℕ → List ℕ
  | 0, _ => []
  | n + 1, x => radixDigits w n (x / 2 ^ w) ++ [x % 2 ^ w]

/-! ## Reading -/

@[simp] theorem radixValue_nil (w : ℕ) : radixValue w [] = 0 := rfl

theorem radixValue_concat (w : ℕ) (ds : List ℕ) (d : ℕ) :
    radixValue w (ds ++ [d]) = radixValue w ds * 2 ^ w + d := by
  simp [radixValue]

theorem radixValue_lt {w : ℕ} {ds : List ℕ} (h : ∀ d ∈ ds, d < 2 ^ w) :
    radixValue w ds < 2 ^ (w * ds.length) := by
  induction ds using List.reverseRecOn with
  | nil => simp
  | append_singleton ds d ih =>
    have hd : d < 2 ^ w := h d (by simp)
    have hds := ih fun e he => h e (List.mem_append_left _ he)
    rw [radixValue_concat, List.length_append, List.length_singleton, Nat.mul_add, Nat.mul_one,
      Nat.pow_add]
    calc radixValue w ds * 2 ^ w + d < radixValue w ds * 2 ^ w + 2 ^ w := by omega
      _ = (radixValue w ds + 1) * 2 ^ w := by ring
      _ ≤ 2 ^ (w * ds.length) * 2 ^ w := Nat.mul_le_mul_right _ hds

/-! ## Writing -/

@[simp] theorem radixDigits_length (w n x : ℕ) : (radixDigits w n x).length = n := by
  induction n generalizing x with
  | zero => rfl
  | succ n ih => rw [radixDigits, List.length_append, ih, List.length_singleton]

theorem radixDigits_lt {w n x d : ℕ} (h : d ∈ radixDigits w n x) : d < 2 ^ w := by
  induction n generalizing x with
  | zero => simp [radixDigits] at h
  | succ n ih =>
    rw [radixDigits, List.mem_append, List.mem_singleton] at h
    rcases h with h | rfl
    · exact ih h
    · exact Nat.mod_lt _ (Nat.two_pow_pos w)

theorem radixDigits_mod (w n x k : ℕ) (hk : w * n ≤ k) :
    radixDigits w n (x % 2 ^ k) = radixDigits w n x := by
  induction n generalizing x k with
  | zero => rfl
  | succ n ih =>
    rw [Nat.mul_add, Nat.mul_one] at hk
    obtain ⟨m, rfl⟩ : ∃ m, k = w + m := ⟨k - w, by omega⟩
    have hmod : x % 2 ^ (w + m) % 2 ^ w = x % 2 ^ w :=
      Nat.mod_mod_of_dvd _ (Nat.pow_dvd_pow 2 (Nat.le_add_right w m))
    have hdiv : x % 2 ^ (w + m) / 2 ^ w = x / 2 ^ w % 2 ^ m := by
      rw [Nat.pow_add, Nat.mod_mul_right_div_self]
    rw [radixDigits, radixDigits, hmod, hdiv, ih _ _ (by omega)]

/-- A digit of a number is that of its low bits, when they have the digit in them. -/
theorem digit_mod {w j k : ℕ} (h : j + w ≤ k) (x : ℕ) :
    x % 2 ^ k / 2 ^ j % 2 ^ w = x / 2 ^ j % 2 ^ w := by
  obtain ⟨m, rfl⟩ : ∃ m, k = j + m := ⟨k - j, by omega⟩
  rw [Nat.pow_add, Nat.mod_mul_right_div_self]
  exact Nat.mod_mod_of_dvd _ (Nat.pow_dvd_pow 2 (by omega))

theorem radixDigits_append (w m n x : ℕ) :
    radixDigits w (m + n) x = radixDigits w m (x / 2 ^ (w * n)) ++ radixDigits w n x := by
  induction n generalizing x with
  | zero => simp [radixDigits]
  | succ n ih =>
    rw [← Nat.add_assoc, radixDigits, ih, radixDigits, List.append_assoc, Nat.div_div_eq_div_mul,
      ← Nat.pow_add, Nat.mul_add, Nat.mul_one, Nat.add_comm w]

theorem radixDigits_succ_left (w n x : ℕ) :
    radixDigits w (n + 1) x = (x / 2 ^ (w * n) % 2 ^ w) :: radixDigits w n x := by
  rw [Nat.add_comm, radixDigits_append]
  rfl

theorem radixDigits_eq_map (w n x : ℕ) :
    radixDigits w n x = (List.range n).map fun i => x / 2 ^ (w * (n - 1 - i)) % 2 ^ w := by
  induction n with
  | zero => rfl
  | succ n ih =>
    rw [radixDigits_succ_left, ih, List.range_succ_eq_map, List.map_cons, List.map_map]
    congr 1
    refine List.map_congr_left fun i _ => ?_
    simp only [Function.comp_apply, Nat.succ_eq_add_one]
    rw [Nat.sub_sub, Nat.add_comm 1 i, Nat.add_sub_cancel]

/-! ## The two are inverse -/

theorem radixDigits_value {w : ℕ} {ds : List ℕ} (h : ∀ d ∈ ds, d < 2 ^ w) :
    radixDigits w ds.length (radixValue w ds) = ds := by
  induction ds using List.reverseRecOn with
  | nil => rfl
  | append_singleton ds d ih =>
    have hd : d < 2 ^ w := h d (by simp)
    have hdiv : (radixValue w ds * 2 ^ w + d) / 2 ^ w = radixValue w ds := by
      rw [Nat.add_comm, Nat.add_mul_div_right _ _ (Nat.two_pow_pos w), Nat.div_eq_of_lt hd,
        Nat.zero_add]
    have hmod : (radixValue w ds * 2 ^ w + d) % 2 ^ w = d := by
      rw [Nat.add_comm, Nat.add_mul_mod_self_right, Nat.mod_eq_of_lt hd]
    rw [List.length_append, List.length_singleton, radixDigits, radixValue_concat, hdiv, hmod,
      ih fun e he => h e (List.mem_append_left _ he)]

theorem radixValue_digits (w n x : ℕ) : radixValue w (radixDigits w n x) = x % 2 ^ (w * n) := by
  induction n generalizing x with
  | zero => simp [radixDigits, Nat.mod_one]
  | succ n ih =>
    rw [radixDigits, radixValue_concat, ih, Nat.mul_add, Nat.mul_one, Nat.add_comm (w * n),
      Nat.pow_add, Nat.mod_mul, Nat.mul_comm, Nat.add_comm]

theorem two_pow_mul_xor_of_lt {w d : ℕ} (hd : d < 2 ^ w) (x : ℕ) :
    2 ^ w * x ^^^ d = 2 ^ w * x + d := by
  apply Nat.eq_of_testBit_eq
  intro j
  have hx := Nat.testBit_two_pow_mul_add x (Nat.two_pow_pos w) j
  rw [Nat.add_zero, Nat.zero_testBit] at hx
  rw [Nat.testBit_xor, Nat.testBit_two_pow_mul_add x hd, hx]
  by_cases hj : j < w
  · simp [hj]
  · have hhigh : d.testBit j = false :=
      Nat.testBit_lt_two_pow (hd.trans_le (Nat.pow_le_pow_right (by decide) (by omega)))
    simp [hj, hhigh]

/-! ## Regrouping -/

/-- The number of zero bits that fill `n` digits of `v` bits up to whole digits of `w` bits. -/
def padBits (v w n : ℕ) : ℕ := (w - v * n % w) % w

/-- `v`-bit digits regrouped into `w`-bit digits, filled up with zero bits at the end. -/
def regroupPad (v w : ℕ) (ds : List ℕ) : List ℕ :=
  radixDigits w ((v * ds.length + padBits v w ds.length) / w)
    (radixValue v ds * 2 ^ padBits v w ds.length)

def regroupDrop (v w : ℕ) (ds : List ℕ) : List ℕ :=
  radixDigits w (v * ds.length / w) (radixValue v ds / 2 ^ (v * ds.length % w))

def leftover (v w : ℕ) (ds : List ℕ) : ℕ := radixValue v ds % 2 ^ (v * ds.length % w)

theorem padBits_lt (v n : ℕ) {w : ℕ} (hw : 0 < w) : padBits v w n < w := Nat.mod_lt _ hw

theorem dvd_add_padBits (v n : ℕ) {w : ℕ} (hw : 0 < w) : w ∣ v * n + padBits v w n := by
  have hlt := Nat.mod_lt (v * n) hw
  have hdm := Nat.div_add_mod (v * n) w
  unfold padBits
  by_cases hz : v * n % w = 0
  · rw [hz, Nat.sub_zero, Nat.mod_self, Nat.add_zero]
    exact Nat.dvd_of_mod_eq_zero hz
  · rw [Nat.mod_eq_of_lt (by omega)]
    exact ⟨v * n / w + 1, by rw [Nat.mul_add, Nat.mul_one]; omega⟩

/-- One more digit: what was left over and the digit are regrouped after what was regrouped, and
`v + w - 1` bits of the number are enough for that. -/
theorem regroupDrop_concat {v w : ℕ} (hw0 : 0 < w) {xs : List ℕ} {x b : ℕ} (hx : x < 2 ^ v)
    (hb : b = v * xs.length % w) :
    regroupDrop v w (xs ++ [x]) = regroupDrop v w xs ++ radixDigits w ((b + v) / w)
      (radixValue v (xs ++ [x]) % 2 ^ (v + w - 1) / 2 ^ ((b + v) % w)) := by
  have hblt : b < w := hb ▸ Nat.mod_lt _ hw0
  have hdm := Nat.div_add_mod (b + v) w
  have hdm' := Nat.div_add_mod (v * xs.length) w
  have hlen : v * (xs ++ [x]).length = v * xs.length + v := by
    rw [List.length_append, List.length_singleton, Nat.mul_add, Nat.mul_one]
  have htotal : v * xs.length + v = w * (v * xs.length / w) + (b + v) := by omega
  have hmod : v * (xs ++ [x]).length % w = (b + v) % w := by
    rw [hlen, htotal, Nat.mul_add_mod]
  have hdiv : v * (xs ++ [x]).length / w = v * xs.length / w + (b + v) / w := by
    rw [hlen, htotal, Nat.mul_add_div hw0]
  have hhigh : radixValue v (xs ++ [x]) / 2 ^ ((b + v) % w) / 2 ^ (w * ((b + v) / w)) =
      radixValue v xs / 2 ^ (v * xs.length % w) := by
    have hsum : (b + v) % w + w * ((b + v) / w) = v + b := by omega
    rw [Nat.div_div_eq_div_mul, ← Nat.pow_add, hsum, Nat.pow_add, ← Nat.div_div_eq_div_mul,
      radixValue_concat, Nat.add_comm, Nat.add_mul_div_right _ _ (Nat.two_pow_pos v),
      Nat.div_eq_of_lt hx, Nat.zero_add, ← hb]
  have hlow : radixDigits w ((b + v) / w)
      (radixValue v (xs ++ [x]) % 2 ^ (v + w - 1) / 2 ^ ((b + v) % w)) =
        radixDigits w ((b + v) / w) (radixValue v (xs ++ [x]) / 2 ^ ((b + v) % w)) := by
    have hsplit : v + w - 1 = (b + v) % w + (v + w - 1 - (b + v) % w) := by omega
    rw [hsplit, Nat.pow_add, Nat.mod_mul_right_div_self]
    exact radixDigits_mod _ _ _ _ (by omega)
  rw [hlow, regroupDrop, hmod, hdiv, radixDigits_append, hhigh]
  rfl

theorem regroupPad_of_dvd {v w : ℕ} {ds : List ℕ} (hz : v * ds.length % w = 0) :
    regroupPad v w ds = regroupDrop v w ds := by
  have hpad : padBits v w ds.length = 0 := by rw [padBits, hz, Nat.sub_zero, Nat.mod_self]
  rw [regroupPad, regroupDrop, hpad, hz, Nat.pow_zero, Nat.mul_one, Nat.div_one, Nat.add_zero]

theorem regroupPad_of_rest {v w : ℕ} {ds : List ℕ} (hw : 0 < w) (hz : v * ds.length % w ≠ 0) :
    regroupPad v w ds = regroupDrop v w ds ++
      [leftover v w ds * 2 ^ (w - v * ds.length % w)] := by
  have hlt := Nat.mod_lt (v * ds.length) hw
  have hdm := Nat.div_add_mod (v * ds.length) w
  have hpad : padBits v w ds.length = w - v * ds.length % w := Nat.mod_eq_of_lt (by omega)
  have hcount : (v * ds.length + (w - v * ds.length % w)) / w = v * ds.length / w + 1 := by
    have htotal : v * ds.length + (w - v * ds.length % w) = w * (v * ds.length / w + 1) := by
      rw [Nat.mul_add, Nat.mul_one]
      omega
    rw [htotal, Nat.mul_div_cancel_left _ hw]
  have hsplit : (2 : ℕ) ^ w = 2 ^ (v * ds.length % w) * 2 ^ (w - v * ds.length % w) := by
    rw [← Nat.pow_add]
    congr 1
    omega
  rw [regroupPad, hpad, hcount, radixDigits, regroupDrop, leftover]
  conv_lhs => rw [hsplit]
  rw [Nat.mul_div_mul_right _ _ (Nat.two_pow_pos _), Nat.mul_mod_mul_right]

theorem regroupPad_length (v w : ℕ) (ds : List ℕ) :
    (regroupPad v w ds).length = (v * ds.length + padBits v w ds.length) / w :=
  radixDigits_length _ _ _

/-- Regrouping with filling and back without loses nothing, when the fill is less than a digit of
either width. -/
theorem regroupDrop_regroupPad {v w : ℕ} {ds : List ℕ} (hw : 0 < w) (hwv : w ≤ v)
    (h : ∀ d ∈ ds, d < 2 ^ v) :
    w * (regroupPad v w ds).length % v = padBits v w ds.length ∧
      leftover w v (regroupPad v w ds) = 0 ∧ regroupDrop w v (regroupPad v w ds) = ds := by
  have hp := padBits_lt v ds.length hw
  have hlen : w * (regroupPad v w ds).length = v * ds.length + padBits v w ds.length := by
    rw [regroupPad_length]
    exact Nat.mul_div_cancel' (dvd_add_padBits v ds.length hw)
  have hmod : w * (regroupPad v w ds).length % v = padBits v w ds.length := by
    rw [hlen, Nat.mul_add_mod, Nat.mod_eq_of_lt (by omega)]
  have hdiv : w * (regroupPad v w ds).length / v = ds.length := by
    rw [hlen, Nat.mul_add_div (by omega), Nat.div_eq_of_lt (by omega), Nat.add_zero]
  have hval : radixValue w (regroupPad v w ds) = radixValue v ds * 2 ^ padBits v w ds.length := by
    have hw' : w * ((v * ds.length + padBits v w ds.length) / w) =
        v * ds.length + padBits v w ds.length :=
      Nat.mul_div_cancel' (dvd_add_padBits v ds.length hw)
    rw [regroupPad, radixValue_digits, hw', Nat.mod_eq_of_lt]
    rw [Nat.pow_add]
    exact Nat.mul_lt_mul_of_pos_right (radixValue_lt h) (Nat.two_pow_pos _)
  refine ⟨hmod, ?_, ?_⟩
  · rw [leftover, hmod, hval, Nat.mul_mod_left]
  · rw [regroupDrop, hmod, hdiv, hval, Nat.mul_div_cancel _ (Nat.two_pow_pos _),
      radixDigits_value h]

/-- Digits whose dropped bits are zero, and fewer than one digit, are the filled regrouping of what
they regroup to. -/
theorem regroupPad_regroupDrop {v w : ℕ} {ds : List ℕ} (hw : 0 < w)
    (h : ∀ d ∈ ds, d < 2 ^ w) (hfew : w * ds.length % v < w) (hzero : leftover w v ds = 0) :
    regroupPad v w (regroupDrop w v ds) = ds := by
  have hlen : (regroupDrop w v ds).length = w * ds.length / v := radixDigits_length _ _ _
  have hdm := Nat.div_add_mod (w * ds.length) v
  have hpad : padBits v w (w * ds.length / v) = w * ds.length % v := by
    have hrest : v * (w * ds.length / v) = w * ds.length - w * ds.length % v := by omega
    unfold padBits
    by_cases hz : w * ds.length % v = 0
    · rw [hrest, hz, Nat.sub_zero, Nat.mul_mod_right, Nat.sub_zero, Nat.mod_self]
    · have hpos : 0 < ds.length := by
        rcases Nat.eq_zero_or_pos ds.length with h0 | h0
        · rw [h0] at hz; simp at hz
        · exact h0
      have hsplit : w * ds.length - w * ds.length % v =
          w * (ds.length - 1) + (w - w * ds.length % v) := by
        have : w * ds.length = w * (ds.length - 1) + w := by
          rw [← Nat.mul_succ, Nat.succ_eq_add_one, Nat.sub_add_cancel hpos]
        omega
      have hsub : w - w * ds.length % v < w := by omega
      rw [hrest, hsplit, Nat.mul_add_mod, Nat.mod_eq_of_lt hsub, Nat.sub_sub_self hfew.le,
        Nat.mod_eq_of_lt hfew]
  have hval : radixValue v (regroupDrop w v ds) * 2 ^ (w * ds.length % v) = radixValue w ds := by
    have hlt : radixValue w ds / 2 ^ (w * ds.length % v) < 2 ^ (v * (w * ds.length / v)) := by
      rw [Nat.div_lt_iff_lt_mul (Nat.two_pow_pos _), ← Nat.pow_add, hdm]
      exact radixValue_lt h
    rw [regroupDrop, radixValue_digits, Nat.mod_eq_of_lt hlt]
    exact Nat.div_mul_cancel (Nat.dvd_of_mod_eq_zero hzero)
  rw [regroupPad, hlen, hpad, hval, hdm, Nat.mul_div_cancel_left _ hw, radixDigits_value h]

end Foundations
