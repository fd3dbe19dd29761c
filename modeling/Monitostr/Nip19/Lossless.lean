import Monitostr.Foundations.Simulation
import Monitostr.Nip19.Codec

/-! # Bit regrouping loses nothing

`ConvertBits` keeps a masked window of the bits it has read. The same loop on a number without a bound keeps
all bits, and puts out the same groups: what the mask drops was put out before.
-/

namespace Monitostr.Nip19
open Foundations
set_option autoImplicit false

/-! ## The loop without a mask -/

/-- The inner loop on a number. -/
def emitWhole (toBits acc : ℕ) : ℕ → ℕ → List UInt8 → ℕ × List UInt8
  | 0, bits, out => (bits, out)
  | fuel + 1, bits, out =>
    if toBits ≤ bits then
      emitWhole toBits acc fuel (bits - toBits)
        (out ++ [UInt8.ofNat (acc / 2 ^ (bits - toBits) % 2 ^ toBits)])
    else (bits, out)

/-- All bits read so far, the number of them not emitted yet, and the output. -/
structure WholeState where
  acc : ℕ := 0
  bits : ℕ := 0
  out : List UInt8 := []

def wholeStep (fromBits toBits : ℕ) (st : WholeState) (value : UInt8) : Option WholeState :=
  if value.toNat < 2 ^ fromBits then
    let acc := st.acc * 2 ^ fromBits + value.toNat
    let bits := st.bits + fromBits
    let emitted := emitWhole toBits acc bits bits st.out
    some { acc := acc, bits := emitted.1, out := emitted.2 }
  else none

def convertWhole (input : List UInt8) (fromBits toBits : ℕ) (pad : Bool) : Option (List UInt8) := do
  let st ← input.foldlM (wholeStep fromBits toBits) {}
  let last := st.acc * 2 ^ (toBits - st.bits) % 2 ^ toBits
  if pad then
    if st.bits > 0 then some (st.out ++ [UInt8.ofNat last]) else some st.out
  else if st.bits ≥ fromBits || last != 0 then none
  else some st.out

/-! ## The two loops side by side -/

section Loops
variable {v w : ℕ}

/-- The window on the bits read, with fewer bits to emit than a group has. -/
structure Masked (v w : ℕ) (st : ConvertState) (whole : WholeState) : Prop where
  acc : st.acc.toNat = whole.acc % 2 ^ (v + w - 1)
  bits : st.bits = whole.bits
  out : st.out = whole.out
  few : st.bits < w

theorem emitGroups_eq_emitWhole (hw : w ≤ 8) {acc : UInt32} {N k : ℕ} (hacc : acc.toNat = N % 2 ^ k)
    (hk : k < 32) (fuel bits : ℕ) (out : List UInt8) (hbits : bits ≤ k) :
    emitGroups w ((1 <<< UInt32.ofNat w) - 1) acc fuel bits out = emitWhole w N fuel bits out := by
  induction fuel generalizing bits out with
  | zero => rfl
  | succ fuel ih =>
    rw [emitGroups, emitWhole]
    by_cases hle : w ≤ bits
    · have hgroup : ((acc >>> UInt32.ofNat (bits - w)) &&& ((1 <<< UInt32.ofNat w) - 1)).toUInt8 =
          UInt8.ofNat (N / 2 ^ (bits - w) % 2 ^ w) := by
        rw [← UInt8.toNat_inj, group_toNat _ hw, shiftRight_toNat _ (by omega), hacc,
          digit_mod (by omega), UInt8.toNat_ofNat_of_lt']
        exact Nat.lt_of_lt_of_le (Nat.mod_lt _ (Nat.two_pow_pos w)) (Nat.pow_le_pow_right (by decide) hw)
      rw [if_pos hle, if_pos hle, hgroup]
      exact ih (bits - w) _ (by omega)
    · rw [if_neg hle, if_neg hle]

theorem Masked.step (hv0 : 0 < v) (hv : v ≤ 8) (hw0 : 0 < w) (hw : w ≤ 8) (st : ConvertState)
    (whole : WholeState) (x : UInt8) (h : Masked v w st whole) :
    Option.Rel (Masked v w) (convertStep v w st x) (wholeStep v w whole x) := by
  by_cases hx : x.toNat < 2 ^ v
  · have hz := (shiftRight_eq_zero_iff hv x).mpr hx
    have hfew := h.few
    have hacc := window_toNat hv0 hv hw0 hw h.acc hx
    have hemit := emitGroups_eq_emitWhole hw hacc (by omega) (st.bits + v) (st.bits + v) st.out (by omega)
    obtain ⟨groups, hgroups, -⟩ := emitGroups_spec hw0 hw
      (((st.acc <<< UInt32.ofNat v) ||| x.toUInt32) &&& ((1 <<< UInt32.ofNat (v + w - 1)) - 1))
      (st.bits + v) (st.bits + v) st.out (le_refl _) (by omega)
    rw [convertStep, if_neg (by simpa using hz), wholeStep, if_pos hx]
    dsimp only
    rw [← h.bits, ← h.out, ← hemit, hgroups]
    exact .some ⟨hacc, rfl, rfl, Nat.mod_lt _ hw0⟩
  · rw [convertStep_none hv st hx, wholeStep, if_neg hx]
    exact .none

/-- The bits left over are those of the number. -/
theorem Masked.last (hv0 : 0 < v) (hw : w ≤ 8) {st : ConvertState} {whole : WholeState}
    (h : Masked v w st whole) :
    ((st.acc <<< UInt32.ofNat (w - st.bits)) &&& ((1 <<< UInt32.ofNat w) - 1)).toNat =
      whole.acc * 2 ^ (w - whole.bits) % 2 ^ w := by
  rw [UInt32.toNat_and, ones_toNat (by omega), Nat.and_two_pow_sub_one_eq_mod,
    shiftLeft_toNat _ (by omega), Nat.mod_mod_of_dvd _ (Nat.pow_dvd_pow 2 (by omega)), h.acc, ← h.bits]
  have hlow : whole.acc % 2 ^ (v + w - 1) ≡ whole.acc [MOD 2 ^ w] :=
    Nat.mod_mod_of_dvd _ (Nat.pow_dvd_pow 2 (by omega))
  exact hlow.mul_right _

end Loops

/-! ## Nothing is lost -/

/-- The mask costs nothing: after any input the window shows the bits of the number, fewer than a group of them
still to be emitted, and the output is that of the loop without a mask. -/
structure KeepsBits (v w : ℕ) : Prop where
  window : ∀ input : List UInt8,
    Option.Rel (Masked v w) (input.foldlM (convertStep v w) {}) (input.foldlM (wholeStep v w) {})
  result : ∀ (input : List UInt8) (pad : Bool), convertBits input v w pad = convertWhole input v w pad

theorem keepsBits {v w : ℕ} (hv0 : 0 < v) (hv : v ≤ 8) (hw0 : 0 < w) (hw : w ≤ 8) : KeepsBits v w := by
  have hwindow : ∀ input : List UInt8,
      Option.Rel (Masked v w) (input.foldlM (convertStep v w) {}) (input.foldlM (wholeStep v w) {}) :=
    fun input => foldlM_rel (Masked.step hv0 hv hw0 hw) input ⟨(Nat.zero_mod _).symm, rfl, rfl, hw0⟩
  refine ⟨hwindow, fun input pad => ?_⟩
  rw [convertBits, convertWhole]
  have hrel := hwindow input
  generalize input.foldlM (convertStep v w) {} = st at hrel ⊢
  generalize input.foldlM (wholeStep v w) {} = whole at hrel ⊢
  cases hrel with
  | none => rfl
  | @some st whole h =>
    have hlast := h.last hv0 hw
    rw [h.bits] at hlast
    have hchar : ((st.acc <<< UInt32.ofNat (w - whole.bits)) &&& ((1 <<< UInt32.ofNat w) - 1)).toUInt8 =
        UInt8.ofNat (whole.acc * 2 ^ (w - whole.bits) % 2 ^ w) := by
      rw [← hlast]
      rfl
    have hzero : (((st.acc <<< UInt32.ofNat (w - whole.bits)) &&& ((1 <<< UInt32.ofNat w) - 1)) != 0) =
        (whole.acc * 2 ^ (w - whole.bits) % 2 ^ w != 0) := by
      rw [← hlast, Bool.eq_iff_iff, bne_iff_ne, bne_iff_ne, ne_eq, ← UInt32.toNat_inj]
      rfl
    simp only [Option.bind_eq_bind, Option.bind_some, hchar, hzero, h.bits, h.out]

/-- **Bits are regrouped without loss**, for byte lists of all lengths and in both directions. The number of
symbols is `8 / 5` of the number of bytes, rounded up. -/
theorem convertBits_lossless :
    (∀ bytes : List UInt8, ∃ data, convertBits bytes 8 5 true = some data ∧ (∀ d ∈ data, d.toNat < 32) ∧
      data.length = (8 * bytes.length + 4) / 5 ∧ convertBits data 5 8 false = some bytes) ∧
    (∀ data bytes : List UInt8,
      convertBits data 5 8 false = some bytes ↔ convertBits bytes 8 5 true = some data) ∧
    KeepsBits 8 5 ∧ KeepsBits 5 8 := by
  refine ⟨fun bytes => ?_, fun data bytes => convertBits_inverse,
    keepsBits (by decide) (by decide) (by decide) (by decide),
    keepsBits (by decide) (by decide) (by decide) (by decide)⟩
  obtain ⟨data, hdata, hlt⟩ := convertBits_symbols bytes
  refine ⟨data, hdata, hlt, ?_, convertBits_inverse.mpr hdata⟩
  have hregroup := ((convertBits_pad (by decide) (by decide) (by decide) (by decide) bytes data).mp hdata).2
  have hlength := congrArg List.length hregroup
  rw [List.length_map, regroupPad_length, List.length_map] at hlength
  have hpad := padBits_lt 8 bytes.length (by decide : 0 < 5)
  have hdvd := dvd_add_padBits 8 bytes.length (by decide : 0 < 5)
  omega

end Monitostr.Nip19
