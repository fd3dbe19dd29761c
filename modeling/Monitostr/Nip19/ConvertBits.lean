import Monitostr.Foundations.Radix
import Monitostr.Nip19.Bech32
import Mathlib.Data.Nat.ModEq

/-! # Bit regrouping is regrouping of a number's digits

After any prefix of the input, the accumulator of `ConvertBits` holds the prefix read as a number,
up to the mask; `bits` is what the prefix has beyond whole output groups; and the output is the
prefix regrouped. The mask keeps every bit that is still to be emitted, so for every input the
result is `regroupPad` or `regroupDrop` of the digits.
-/

namespace Monitostr.Nip19
open Foundations
set_option autoImplicit false

section ConvertBits
variable {v w : ℕ}

theorem ones_toNat {k : ℕ} (hk : k < 32) :
    ((1 <<< UInt32.ofNat k : UInt32) - 1).toNat = 2 ^ k - 1 := by
  have hpow : (2 : ℕ) ^ k < 2 ^ 32 := Nat.pow_lt_pow_right (by decide) hk
  have hshift : (1 <<< UInt32.ofNat k : UInt32).toNat = 2 ^ k := by
    rw [UInt32.toNat_shiftLeft, UInt32.toNat_one, UInt32.toNat_ofNat_of_lt' (by
      change k < 2 ^ 32
      omega), Nat.mod_eq_of_lt hk, Nat.shiftLeft_eq, Nat.one_mul, Nat.mod_eq_of_lt hpow]
  have hle : (1 : UInt32) ≤ 1 <<< UInt32.ofNat k := by
    rw [UInt32.le_iff_toNat_le, hshift, UInt32.toNat_one]
    exact Nat.one_le_two_pow
  rw [UInt32.toNat_sub_of_le _ _ hle, hshift, UInt32.toNat_one]

theorem shiftRight_toNat (acc : UInt32) {k : ℕ} (hk : k < 32) :
    (acc >>> UInt32.ofNat k).toNat = acc.toNat / 2 ^ k := by
  rw [UInt32.toNat_shiftRight, UInt32.toNat_ofNat_of_lt' (by
    change k < 2 ^ 32
    omega), Nat.mod_eq_of_lt hk, Nat.shiftRight_eq_div_pow]

theorem shiftLeft_toNat (acc : UInt32) {k : ℕ} (hk : k < 32) :
    (acc <<< UInt32.ofNat k).toNat = acc.toNat * 2 ^ k % 2 ^ 32 := by
  rw [UInt32.toNat_shiftLeft, UInt32.toNat_ofNat_of_lt' (by
    change k < 2 ^ 32
    omega), Nat.mod_eq_of_lt hk, Nat.shiftLeft_eq]

theorem group_toNat (x : UInt32) (hw : w ≤ 8) :
    (x &&& ((1 <<< UInt32.ofNat w : UInt32) - 1)).toUInt8.toNat = x.toNat % 2 ^ w := by
  have hpow : (2 : ℕ) ^ w ≤ 2 ^ 8 := Nat.pow_le_pow_right (by decide) hw
  have hmod := Nat.mod_lt x.toNat (Nat.two_pow_pos w)
  rw [UInt32.toNat_toUInt8, UInt32.toNat_and, ones_toNat (by omega),
    Nat.and_two_pow_sub_one_eq_mod, Nat.mod_eq_of_lt (by omega)]

/-! ## The inner loop -/

theorem emitGroups_spec (hw0 : 0 < w) (hw : w ≤ 8) (acc : UInt32) :
    ∀ (fuel bits : ℕ) (out : List UInt8), bits ≤ fuel → bits < 32 →
      ∃ groups, emitGroups w ((1 <<< UInt32.ofNat w) - 1) acc fuel bits out =
          (bits % w, out ++ groups) ∧
        groups.map UInt8.toNat = radixDigits w (bits / w) (acc.toNat / 2 ^ (bits % w))
  | 0, bits, out, hf, _ => by
      obtain rfl : bits = 0 := by omega
      exact ⟨[], by simp [emitGroups], by simp [radixDigits]⟩
  | fuel + 1, bits, out, hf, hb => by
      rw [emitGroups]
      by_cases hle : w ≤ bits
      · obtain ⟨groups, hemit, hgroups⟩ := emitGroups_spec hw0 hw acc fuel (bits - w)
          (out ++ [((acc >>> UInt32.ofNat (bits - w)) &&& ((1 <<< UInt32.ofNat w) - 1)).toUInt8])
          (by omega) (by omega)
        have hmod : (bits - w) % w = bits % w := (Nat.mod_eq_sub_mod hle).symm
        have hdiv : bits / w = (bits - w) / w + 1 := Nat.div_eq_sub_div hw0 hle
        have hdm := Nat.div_add_mod (bits - w) w
        rw [if_pos hle, hemit, hmod]
        refine ⟨_ :: groups, by rw [List.append_assoc, List.singleton_append], ?_⟩
        rw [List.map_cons, group_toNat _ hw, shiftRight_toNat _ (by omega), hgroups, hdiv,
          radixDigits_succ_left, Nat.div_div_eq_div_mul, ← Nat.pow_add, hmod]
        congr 4
        omega
      · rw [if_neg hle]
        refine ⟨[], ?_, ?_⟩
        · rw [Nat.mod_eq_of_lt (by omega), List.append_nil]
        · rw [Nat.div_eq_of_lt (by omega)]
          rfl

/-! ## The outer loop -/

/-- What the loop knows after the input `xs`. -/
structure Converted (v w : ℕ) (xs : List UInt8) (st : ConvertState) : Prop where
  acc : st.acc.toNat = radixValue v (xs.map UInt8.toNat) % 2 ^ (v + w - 1)
  bits : st.bits = v * xs.length % w
  out : st.out.map UInt8.toNat = regroupDrop v w (xs.map UInt8.toNat)

theorem Converted.start : Converted v w [] {} := by
  constructor
  · rw [List.map_nil, radixValue_nil, Nat.zero_mod]
    rfl
  · simp
  · simp [regroupDrop, radixDigits]

/-- The test of the loop finds the values that do not fit. -/
theorem shiftRight_eq_zero_iff (hv : v ≤ 8) (x : UInt8) :
    (x.toUInt32 >>> UInt32.ofNat v) = 0 ↔ x.toNat < 2 ^ v := by
  rw [← UInt32.toNat_inj, shiftRight_toNat _ (by omega), UInt8.toNat_toUInt32, UInt32.toNat_zero]
  exact Nat.div_eq_zero_iff_lt (Nat.two_pow_pos v)

theorem convertStep_none (hv : v ≤ 8) (st : ConvertState) {x : UInt8} (hx : ¬ x.toNat < 2 ^ v) :
    convertStep v w st x = none := by
  rw [← shiftRight_eq_zero_iff hv] at hx
  rw [convertStep, if_pos (by simpa using hx)]

/-- The accumulator with a value put in is the window on the number with the value put in. -/
theorem window_toNat (hv0 : 0 < v) (hv : v ≤ 8) (hw0 : 0 < w) (hw : w ≤ 8) {acc : UInt32} {N : ℕ}
    (hacc : acc.toNat = N % 2 ^ (v + w - 1)) {x : UInt8} (hx : x.toNat < 2 ^ v) :
    (((acc <<< UInt32.ofNat v) ||| x.toUInt32) &&& ((1 <<< UInt32.ofNat (v + w - 1)) - 1)).toNat =
      (N * 2 ^ v + x.toNat) % 2 ^ (v + w - 1) := by
  -- The shifted accumulator and the value overlap nowhere; what the mask and the machine word cut
  -- off lies above the low `v + w - 1` bits.
  have hlow : acc.toNat * 2 ^ v % 2 ^ 32 = 2 ^ v * (acc.toNat % 2 ^ (32 - v)) := by
    rw [Nat.mul_comm, show (2 : ℕ) ^ 32 = 2 ^ v * 2 ^ (32 - v) by
      rw [← Nat.pow_add]
      congr 1
      omega, Nat.mul_mod_mul_left]
  rw [UInt32.toNat_and, ones_toNat (by omega), Nat.and_two_pow_sub_one_eq_mod, UInt32.toNat_or,
    shiftLeft_toNat _ (by omega), UInt8.toNat_toUInt32, hlow, ← Nat.two_pow_add_eq_or_of_lt hx,
    Nat.mul_comm N]
  have hsplit : (2 : ℕ) ^ (v + w - 1) = 2 ^ v * 2 ^ (w - 1) := by
    rw [← Nat.pow_add]
    congr 1
    omega
  have hmod : acc.toNat % 2 ^ (32 - v) ≡ N [MOD 2 ^ (w - 1)] := by
    rw [Nat.ModEq, Nat.mod_mod_of_dvd _ (Nat.pow_dvd_pow 2 (by omega)), hacc,
      Nat.mod_mod_of_dvd _ (Nat.pow_dvd_pow 2 (by omega))]
  rw [hsplit]
  exact (hmod.mul_left' (2 ^ v)).add_right x.toNat

theorem Converted.step (hv0 : 0 < v) (hv : v ≤ 8) (hw0 : 0 < w) (hw : w ≤ 8) {xs : List UInt8}
    {st : ConvertState} (h : Converted v w xs st) {x : UInt8} (hx : x.toNat < 2 ^ v) :
    ∃ st', convertStep v w st x = some st' ∧ Converted v w (xs ++ [x]) st' := by
  have hbits := Nat.mod_lt (v * xs.length) hw0
  rw [← h.bits] at hbits
  have hz := (shiftRight_eq_zero_iff hv x).mpr hx
  have hnew : radixValue v ((xs ++ [x]).map UInt8.toNat) =
      radixValue v (xs.map UInt8.toNat) * 2 ^ v + x.toNat := by
    rw [List.map_append, List.map_singleton, radixValue_concat]
  have hacc : (((st.acc <<< UInt32.ofNat v) ||| x.toUInt32) &&&
      ((1 <<< UInt32.ofNat (v + w - 1)) - 1)).toNat =
        radixValue v ((xs ++ [x]).map UInt8.toNat) % 2 ^ (v + w - 1) := by
    rw [hnew]
    exact window_toNat hv0 hv hw0 hw h.acc hx
  obtain ⟨groups, hemit, hgroups⟩ := emitGroups_spec hw0 hw
    (((st.acc <<< UInt32.ofNat v) ||| x.toUInt32) &&& ((1 <<< UInt32.ofNat (v + w - 1)) - 1))
    (st.bits + v) (st.bits + v) st.out (le_refl _) (by omega)
  have hrest : (st.bits + v) % w = v * (xs ++ [x]).length % w := by
    rw [h.bits, List.length_append, List.length_singleton, Nat.mul_add, Nat.mul_one, Nat.mod_add_mod]
  refine ⟨_, by rw [convertStep, if_neg (by simpa using hz)], hacc, ?_, ?_⟩
  · rw [hemit]
    exact hrest
  dsimp only
  rw [hemit, List.map_append, h.out, hgroups, hacc, List.map_append, List.map_singleton]
  exact (regroupDrop_concat hw0 hx (by rw [h.bits, List.length_map])).symm

theorem foldlM_convertStep (hv0 : 0 < v) (hv : v ≤ 8) (hw0 : 0 < w) (hw : w ≤ 8)
    {xs : List UInt8} (h : ∀ x ∈ xs, x.toNat < 2 ^ v) :
    ∃ st, xs.foldlM (convertStep v w) {} = some st ∧ Converted v w xs st := by
  induction xs using List.reverseRecOn with
  | nil => exact ⟨{}, rfl, Converted.start⟩
  | append_singleton xs x ih =>
    obtain ⟨st, hrun, hst⟩ := ih fun y hy => h y (List.mem_append_left _ hy)
    obtain ⟨st', hstep, hst'⟩ := hst.step hv0 hv hw0 hw (h x (by simp))
    refine ⟨st', ?_, hst'⟩
    rw [List.foldlM_append, hrun]
    simp [hstep]

theorem foldlM_convertStep_none (hv : v ≤ 8) {xs : List UInt8} (h : ¬ ∀ x ∈ xs, x.toNat < 2 ^ v)
    (st : ConvertState) : xs.foldlM (convertStep v w) st = none := by
  induction xs generalizing st with
  | nil => simp at h
  | cons x xs ih =>
    rw [List.foldlM_cons]
    by_cases hx : x.toNat < 2 ^ v
    · have hxs : ¬ ∀ y ∈ xs, y.toNat < 2 ^ v := by
        intro hall
        exact h (by simpa [hx] using hall)
      cases hstep : convertStep v w st x with
      | none => rfl
      | some st' => exact ih hxs st'
    · rw [convertStep_none hv st hx]
      rfl

theorem map_toNat_eq_iff {out out' : List UInt8} :
    out.map UInt8.toNat = out'.map UInt8.toNat ↔ out = out' :=
  (List.map_injective_iff.mpr fun _ _ => UInt8.toNat_inj.mp).eq_iff

theorem Converted.last (hw0 : 0 < w) (hw : w ≤ 8) (hv0 : 0 < v) {xs : List UInt8}
    {st : ConvertState} (h : Converted v w xs st) :
    (st.acc <<< UInt32.ofNat (w - st.bits)).toNat % 2 ^ w =
      leftover v w (xs.map UInt8.toNat) * 2 ^ (w - st.bits) := by
  have hlt : st.bits < w := h.bits ▸ Nat.mod_lt _ hw0
  have hsplit : (2 : ℕ) ^ w = 2 ^ st.bits * 2 ^ (w - st.bits) := by
    rw [← Nat.pow_add]
    congr 1
    omega
  rw [shiftLeft_toNat _ (by omega), Nat.mod_mod_of_dvd _ (Nat.pow_dvd_pow 2 (by omega))]
  conv_lhs => rw [hsplit]
  rw [Nat.mul_mod_mul_right, h.acc, Nat.mod_mod_of_dvd _ (Nat.pow_dvd_pow 2 (by omega)), leftover,
    List.length_map, ← h.bits]

/-- `ConvertBits` with filling succeeds exactly on values that fit, with their regrouping. -/
theorem convertBits_pad (hv0 : 0 < v) (hv : v ≤ 8) (hw0 : 0 < w) (hw : w ≤ 8)
    (xs out : List UInt8) :
    convertBits xs v w true = some out ↔ (∀ x ∈ xs, x.toNat < 2 ^ v) ∧
      out.map UInt8.toNat = regroupPad v w (xs.map UInt8.toNat) := by
  by_cases h : ∀ x ∈ xs, x.toNat < 2 ^ v
  swap
  · simp [convertBits, foldlM_convertStep_none hv h, h]
  obtain ⟨st, hrun, hst⟩ := foldlM_convertStep hv0 hv hw0 hw h
  have hlen : (xs.map UInt8.toNat).length = xs.length := List.length_map _
  obtain ⟨res, hres, hval⟩ : ∃ res, convertBits xs v w true = some res ∧
      res.map UInt8.toNat = regroupPad v w (xs.map UInt8.toNat) := by
    by_cases hz : st.bits = 0
    · refine ⟨st.out, by simp [convertBits, hrun, hz], ?_⟩
      rw [hst.out, regroupPad_of_dvd (by rw [hlen, ← hst.bits, hz])]
    · refine ⟨st.out ++ [((st.acc <<< UInt32.ofNat (w - st.bits)) &&&
        ((1 <<< UInt32.ofNat w) - 1)).toUInt8], by
          simp [convertBits, hrun, Nat.pos_of_ne_zero hz], ?_⟩
      rw [List.map_append, List.map_singleton, hst.out, group_toNat _ hw, hst.last hw0 hw hv0,
        regroupPad_of_rest hw0 (by rw [hlen, ← hst.bits]; exact hz), hlen, ← hst.bits]
  rw [hres, ← hval, map_toNat_eq_iff, Option.some.injEq]
  exact ⟨fun he => ⟨h, he.symm⟩, fun he => he.2.symm⟩

/-- `ConvertBits` without filling succeeds exactly on values that fit, whose bits beyond the last
whole group are fewer than one value and zero. -/
theorem convertBits_drop (hv0 : 0 < v) (hv : v ≤ 8) (hw0 : 0 < w) (hw : w ≤ 8)
    (xs out : List UInt8) :
    convertBits xs v w false = some out ↔ (∀ x ∈ xs, x.toNat < 2 ^ v) ∧ v * xs.length % w < v ∧
      leftover v w (xs.map UInt8.toNat) = 0 ∧
      out.map UInt8.toNat = regroupDrop v w (xs.map UInt8.toNat) := by
  by_cases h : ∀ x ∈ xs, x.toNat < 2 ^ v
  swap
  · simp [convertBits, foldlM_convertStep_none hv h, h]
  obtain ⟨st, hrun, hst⟩ := foldlM_convertStep hv0 hv hw0 hw h
  have hlast : ((st.acc <<< UInt32.ofNat (w - st.bits)) &&& ((1 <<< UInt32.ofNat w) - 1)) = 0 ↔
      leftover v w (xs.map UInt8.toNat) = 0 := by
    rw [← UInt32.toNat_inj, UInt32.toNat_and, ones_toNat (by omega), Nat.and_two_pow_sub_one_eq_mod,
      hst.last hw0 hw hv0, UInt32.toNat_zero, Nat.mul_eq_zero]
    exact or_iff_left (Nat.two_pow_pos _).ne'
  have hconv : convertBits xs v w false =
      if v * xs.length % w < v ∧ leftover v w (xs.map UInt8.toNat) = 0 then some st.out
      else none := by
    have hbranch : (decide (st.bits ≥ v) || ((st.acc <<< UInt32.ofNat (w - st.bits)) &&&
        ((1 <<< UInt32.ofNat w) - 1)) != 0) = true ↔
          ¬ (v * xs.length % w < v ∧ leftover v w (xs.map UInt8.toNat) = 0) := by
      rw [Bool.or_eq_true, decide_eq_true_iff, bne_iff_ne, ne_eq, hlast, ← hst.bits, not_and_or,
        Nat.not_lt]
    simp only [convertBits, hrun, Option.bind_eq_bind, Option.bind_some, Bool.false_eq_true,
      if_false, hbranch, ite_not]
  rw [hconv, ← hst.out, map_toNat_eq_iff]
  split
  · next hc =>
    rw [Option.some.injEq]
    exact ⟨fun he => ⟨h, hc.1, hc.2, he.symm⟩, fun he => he.2.2.2.symm⟩
  · next hc =>
    exact ⟨fun he => (by cases he), fun he => absurd ⟨he.2.1, he.2.2.1⟩ hc⟩

end ConvertBits
end Monitostr.Nip19
