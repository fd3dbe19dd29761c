import Monitostr.Foundations.FeedbackRegister
import Monitostr.Foundations.Radix
import Monitostr.Nip19.Bech32
import Mathlib.Tactic.IntervalCases

/-! # The checksum register as a linear feedback register

The 32-bit variable `chk` of `Polymod` never leaves the low 30 bits, and one turn of the loop is the
linear map `shiftIn` on them followed by the exclusive or of the symbol. `CreateChecksum` and
`VerifyChecksum` then meet: the six symbols that make the register 1 are exactly the created ones.
-/

namespace Monitostr.Nip19
open Foundations
set_option autoImplicit false

/-! ## One turn of the loop on 30 bits -/

/-- The generator constants that the top five bits of the register switch on. -/
def foldBack (r : BitVec 30) : BitVec 30 :=
  (if r.getLsbD 25 then 0x3b6a57b2#30 else 0) ^^^ (if r.getLsbD 26 then 0x26508e6d#30 else 0) ^^^
  (if r.getLsbD 27 then 0x1ea119fa#30 else 0) ^^^ (if r.getLsbD 28 then 0x3d4233dd#30 else 0) ^^^
  (if r.getLsbD 29 then 0x2a1462b3#30 else 0)

def shiftIn (r : BitVec 30) : BitVec 30 := (r <<< 5) ^^^ foldBack r

def symbol (v : UInt8) : BitVec 30 := v.toBitVec.setWidth 30

theorem bit_select_linear (i : ℕ) (g : BitVec 30) :
    XorLinear (fun r : BitVec 30 => if r.getLsbD i then g else 0) := by
  intro a b
  dsimp only
  rw [BitVec.getLsbD_xor]
  cases a.getLsbD i <;> cases b.getLsbD i <;> simp

theorem foldBack_linear : XorLinear foldBack :=
  ((((bit_select_linear 25 _).xor (bit_select_linear 26 _)).xor (bit_select_linear 27 _)).xor
    (bit_select_linear 28 _)).xor (bit_select_linear 29 _)

theorem shiftIn_linear : XorLinear shiftIn := by
  have hshift : XorLinear (fun r : BitVec 30 => r <<< 5) := fun a b =>
    BitVec.shiftLeft_xor_distrib a b 5
  exact hshift.xor foldBack_linear

/-- The test of the loop of `Polymod` reads bit `25 + i` of the register. -/
theorem topBit (chk : UInt32) {i : ℕ} (hi : i < 5) :
    ((((chk >>> 25).toUInt8 >>> UInt8.ofNat i) &&& 1) != 0) = chk.toBitVec.getLsbD (25 + i) := by
  have hsmall : i < UInt8.size := by
    change i < 256
    omega
  have hbit : chk.toBitVec.getLsbD (25 + i) = decide (chk.toNat / 2 ^ (25 + i) % 2 = 1) :=
    Nat.testBit_eq_decide_div_mod_eq
  rw [hbit]
  apply Bool.eq_iff_iff.mpr
  have h25 : UInt32.toNat 25 = 25 := rfl
  simp only [bne_iff_ne, ne_eq, ← UInt8.toNat_inj, UInt8.toNat_and, UInt8.toNat_shiftRight,
    UInt8.toNat_ofNat_of_lt' hsmall, Nat.mod_eq_of_lt (by omega : i < 8), UInt8.toNat_one,
    UInt8.toNat_zero, UInt32.toNat_toUInt8, UInt32.toNat_shiftRight, h25, Nat.and_one_is_mod,
    Nat.shiftRight_eq_div_pow, decide_eq_true_eq]
  interval_cases i <;> simp only [Nat.reduceAdd, Nat.reducePow, Nat.reduceMod] <;> omega

/-- The masked and shifted variable is the shifted register. -/
theorem shifted_register (r : BitVec 30) :
    (((⟨r.setWidth 32⟩ : UInt32) &&& 0x1ffffff) <<< 5).toBitVec = (r <<< 5).setWidth 32 := by
  apply BitVec.eq_of_getLsbD_eq
  intro i hi
  have hmask : (0x1ffffff#32).getLsbD (i - 5) = decide (i - 5 < 25) := by
    rw [show (0x1ffffff#32) = BitVec.ofNat 32 (2 ^ 25 - 1) from rfl, BitVec.getLsbD_ofNat,
      Nat.testBit_two_pow_sub_one, decide_eq_true (by omega : i - 5 < 32), Bool.true_and]
  change (((r.setWidth 32) &&& 0x1ffffff#32) <<< 5).getLsbD i = _
  rw [BitVec.getLsbD_shiftLeft, BitVec.getLsbD_and, hmask, BitVec.getLsbD_setWidth,
    BitVec.getLsbD_setWidth, BitVec.getLsbD_shiftLeft]
  by_cases h5 : i < 5
  · simp [h5]
  · by_cases h30 : i < 30
    · simp [hi, h5, h30, (by omega : i - 5 < 32), (by omega : i - 5 < 25)]
    · simp [h30, (by omega : 25 ≤ i - 5)]

/-- A generator constant that a bit of the variable switches on. -/
theorem selected_register (r : BitVec 30) {i : ℕ} (g : UInt32) (g' : BitVec 30) (hi : i < 30)
    (hg : g.toBitVec = g'.setWidth 32) :
    (if (r.setWidth 32).getLsbD i = true then g else 0).toBitVec =
      (if r.getLsbD i then g' else 0).setWidth 32 := by
  rw [BitVec.getLsbD_setWidth, decide_eq_true (by omega : i < 32), Bool.true_and]
  cases r.getLsbD i
  · rfl
  · exact hg

theorem symbol_register (v : UInt8) : v.toUInt32.toBitVec = (symbol v).setWidth 32 := by
  apply BitVec.eq_of_toNat_eq
  simp [symbol]

theorem polymodStep_register (r : BitVec 30) (v : UInt8) :
    (polymodStep ⟨r.setWidth 32⟩ v).toBitVec = (shiftIn r ^^^ symbol v).setWidth 32 := by
  have hite : ∀ (c : Bool) (x g : UInt32),
      (if c = true then x ^^^ g else x) = x ^^^ (if c = true then g else 0) := by
    intro c x g
    cases c <;> simp
  simp only [polymodStep, hite, kBech32Gen, List.zipIdx_cons, List.zipIdx_nil, List.foldl_cons,
    List.foldl_nil, topBit _ (by decide : 0 < 5), topBit _ (by decide : 0 + 1 < 5),
    topBit _ (by decide : 0 + 1 + 1 < 5), topBit _ (by decide : 0 + 1 + 1 + 1 < 5),
    topBit _ (by decide : 0 + 1 + 1 + 1 + 1 < 5), UInt32.toBitVec_xor]
  rw [shifted_register, selected_register r 0x3b6a57b2 0x3b6a57b2#30 (by decide) rfl,
    selected_register r 0x26508e6d 0x26508e6d#30 (by decide) rfl,
    selected_register r 0x1ea119fa 0x1ea119fa#30 (by decide) rfl,
    selected_register r 0x3d4233dd 0x3d4233dd#30 (by decide) rfl,
    selected_register r 0x2a1462b3 0x2a1462b3#30 (by decide) rfl, symbol_register, shiftIn, foldBack]
  simp only [BitVec.setWidth_xor, Nat.reduceAdd]
  ac_rfl

/-- `Polymod` is the 30-bit register fed with the values. -/
theorem polymod_eq_feed (values : List UInt8) :
    (polymod values).toBitVec = (feed shiftIn 1 (values.map symbol)).setWidth 32 := by
  have hstep : ∀ (values : List UInt8) (r : BitVec 30),
      (values.foldl polymodStep ⟨r.setWidth 32⟩).toBitVec =
        (feed shiftIn r (values.map symbol)).setWidth 32 := by
    intro values
    induction values with
    | nil => intro r; rfl
    | cons v values ih =>
      intro r
      rw [List.foldl_cons, List.map_cons, feed_cons, ← ih]
      congr 2
      exact UInt32.toBitVec_inj.mp (polymodStep_register r v)
  exact hstep values 1

def register (hrp : Str) (data : List UInt8) : BitVec 30 :=
  feed shiftIn 1 ((hrpExpand hrp ++ data).map symbol)

theorem polymod_hrpExpand (hrp : Str) (data : List UInt8) :
    (polymod (hrpExpand hrp ++ data)).toBitVec = (register hrp data).setWidth 32 :=
  polymod_eq_feed _

theorem register_append (hrp : Str) (xs ys : List UInt8) :
    register hrp (xs ++ ys) = feed shiftIn (register hrp xs) (ys.map symbol) := by
  rw [register, ← List.append_assoc, List.map_append, feed_append]
  rfl

theorem setWidth_eq_one {r : BitVec 30} : r.setWidth 32 = 1#32 ↔ r = 1 := by
  rw [← BitVec.toNat_inj, ← BitVec.toNat_inj, BitVec.toNat_setWidth_of_le (by decide)]
  rfl

theorem verifyChecksum_iff (hrp : Str) (data : List UInt8) :
    verifyChecksum hrp data = true ↔ register hrp data = 1 := by
  rw [verifyChecksum, beq_iff_eq, ← UInt32.toBitVec_inj, polymod_hrpExpand]
  exact setWidth_eq_one

/-! ## Six checksum symbols -/

theorem shiftIn_small {r : BitVec 30} (hr : r.toNat < 2 ^ 25) {d : UInt8} (hd : d.toNat < 32) :
    (shiftIn r ^^^ symbol d).toNat = r.toNat * 2 ^ 5 + d.toNat := by
  have hclear : ∀ i, 25 ≤ i → r.getLsbD i = false := fun i hi =>
    Nat.testBit_lt_two_pow (hr.trans_le (Nat.pow_le_pow_right (by decide) hi))
  have hfold : foldBack r = 0 := by
    rw [foldBack, hclear 25 (by decide), hclear 26 (by decide), hclear 27 (by decide),
      hclear 28 (by decide), hclear 29 (by decide)]
    rfl
  have hmove : (r <<< 5).toNat = r.toNat <<< 5 := by
    rw [BitVec.toNat_shiftLeft, Nat.mod_eq_of_lt]
    rw [Nat.shiftLeft_eq]
    omega
  have hsym : (symbol d).toNat = d.toNat := by
    have h8 := d.toNat_lt
    rw [symbol, BitVec.toNat_setWidth, UInt8.toNat_toBitVec, Nat.mod_eq_of_lt (by omega)]
  rw [shiftIn, hfold, xor_zero, BitVec.toNat_xor, hmove, hsym, Nat.shiftLeft_eq]
  rw [Nat.mul_comm]
  exact two_pow_mul_xor_of_lt hd _

theorem feed_symbols {cs : List UInt8} (hc : ∀ c ∈ cs, c.toNat < 32) (hlen : cs.length ≤ 6) :
    (feed shiftIn 0 (cs.map symbol)).toNat = radixValue 5 (cs.map UInt8.toNat) := by
  induction cs using List.reverseRecOn with
  | nil => rfl
  | append_singleton cs c ih =>
    rw [List.length_append, List.length_singleton] at hlen
    have hcs : ∀ c ∈ cs, c.toNat < 32 := fun c h => hc c (List.mem_append_left _ h)
    have hval := ih hcs (by omega)
    have hlt : radixValue 5 (cs.map UInt8.toNat) < 2 ^ (5 * cs.length) := by
      have hds : ∀ d ∈ cs.map UInt8.toNat, d < 2 ^ 5 := by simpa using hcs
      have h := radixValue_lt hds
      rwa [List.length_map] at h
    have hsmall : (feed shiftIn 0 (cs.map symbol)).toNat < 2 ^ 25 := by
      rw [hval]
      exact hlt.trans_le (Nat.pow_le_pow_right (by decide) (by omega))
    rw [List.map_append, List.map_append, List.map_singleton, List.map_singleton, feed_append,
      radixValue_concat, ← hval]
    exact shiftIn_small hsmall (hc c (by simp))

def checksumTarget (hrp : Str) (data : List UInt8) : BitVec 30 := shiftIn^[6] (register hrp data) ^^^ 1

theorem createChecksum_toNat (hrp : Str) (data : List UInt8) :
    (createChecksum hrp data).map UInt8.toNat = radixDigits 5 6 (checksumTarget hrp data).toNat := by
  have hpoly : (polymod (hrpExpand hrp ++ data ++ List.replicate 6 0) ^^^ 1).toNat =
      (checksumTarget hrp data).toNat := by
    have hfeed : (polymod (hrpExpand hrp ++ data ++ List.replicate 6 0)).toBitVec =
        (shiftIn^[6] (register hrp data)).setWidth 32 := by
      rw [List.append_assoc, polymod_hrpExpand, register_append, List.map_replicate]
      exact congrArg _ (feed_replicate_zero _ 6)
    have hone : (UInt32.toBitVec 1) = (1#30).setWidth 32 := rfl
    rw [← UInt32.toNat_toBitVec, UInt32.toBitVec_xor, hfeed, hone, ← BitVec.setWidth_xor,
      BitVec.toNat_setWidth_of_le (by decide)]
    rfl
  have hdigit : ∀ (p k : UInt32), k.toNat < 32 →
      ((p >>> k) &&& 0x1f).toUInt8.toNat = p.toNat / 2 ^ k.toNat % 2 ^ 5 := by
    intro p k hk
    rw [UInt32.toNat_toUInt8, UInt32.toNat_and, UInt32.toNat_shiftRight, Nat.mod_eq_of_lt hk,
      Nat.shiftRight_eq_div_pow, show UInt32.toNat 0x1f = 2 ^ 5 - 1 from rfl,
      Nat.and_two_pow_sub_one_eq_mod]
    omega
  rw [createChecksum, ← hpoly]
  generalize polymod (hrpExpand hrp ++ data ++ List.replicate 6 0) ^^^ 1 = poly
  rw [radixDigits_eq_map, List.map_map]
  refine List.map_congr_left fun i hi => ?_
  have hi' : i < 6 := List.mem_range.mp hi
  have hk : (5 * (5 - UInt32.ofNat i)).toNat = 5 * (6 - 1 - i) := by
    interval_cases i <;> rfl
  rw [Function.comp_apply, hdigit _ _ (by omega), hk]

theorem createChecksum_length (hrp : Str) (data : List UInt8) :
    (createChecksum hrp data).length = 6 := by
  rw [createChecksum, List.length_map, List.length_range]

theorem createChecksum_lt {hrp : Str} {data : List UInt8} {c : UInt8}
    (h : c ∈ createChecksum hrp data) : c.toNat < 32 := by
  have hc : c.toNat ∈ (createChecksum hrp data).map UInt8.toNat := List.mem_map_of_mem h
  rw [createChecksum_toNat] at hc
  exact radixDigits_lt hc

/-- **Created and verified checksums agree**: after any data, six symbols pass the check exactly
when they are the created ones. -/
theorem verifyChecksum_append (hrp : Str) (data : List UInt8) {cs : List UInt8}
    (hlen : cs.length = 6) (hc : ∀ c ∈ cs, c.toNat < 32) :
    verifyChecksum hrp (data ++ cs) = true ↔ cs = createChecksum hrp data := by
  have hsplit : register hrp (data ++ cs) =
      shiftIn^[6] (register hrp data) ^^^ feed shiftIn 0 (cs.map symbol) := by
    rw [register_append, feed_eq shiftIn_linear, List.length_map, hlen]
  have htarget : register hrp (data ++ cs) = 1 ↔
      feed shiftIn 0 (cs.map symbol) = checksumTarget hrp data := by
    rw [hsplit, xor_eq_iff_right_eq]
    rfl
  rw [verifyChecksum_iff, htarget, ← BitVec.toNat_inj, feed_symbols hc hlen.le]
  constructor
  · intro h
    apply List.map_injective_iff.mpr fun a b => UInt8.toNat_inj.mp
    have hds : ∀ d ∈ cs.map UInt8.toNat, d < 2 ^ 5 := by simpa using hc
    have hdig := radixDigits_value hds
    rw [List.length_map, hlen, h] at hdig
    rw [createChecksum_toNat, hdig]
  · rintro rfl
    rw [createChecksum_toNat, radixValue_digits, Nat.mod_eq_of_lt (BitVec.isLt _)]

/-! ## The register in the loop -/

/-- The values of `chk` in one turn of the loop of `Polymod`: shifted, with the symbol in it, and after each
generator constant. -/
def polymodTurn (chk : UInt32) (v : UInt8) : List UInt32 :=
  let top : UInt8 := (chk >>> 25).toUInt8
  let shifted := (chk &&& 0x1ffffff) <<< 5
  shifted :: kBech32Gen.zipIdx.scanl
    (fun chk (gen, i) => if ((top >>> UInt8.ofNat i) &&& 1) != 0 then chk ^^^ gen else chk)
    (shifted ^^^ v.toUInt32)

/-- All values of `chk` from a start value on. -/
def polymodTrace (chk : UInt32) : List UInt8 → List UInt32
  | [] => [chk]
  | v :: values => chk :: polymodTurn chk v ++ polymodTrace (polymodStep chk v) values

theorem getLast?_polymodTurn (chk : UInt32) (v : UInt8) :
    (polymodTurn chk v).getLast? = some (polymodStep chk v) := by
  rw [polymodTurn, List.getLast?_cons, List.getLast?_scanl]
  rfl

theorem getLast?_polymodTrace (chk : UInt32) (values : List UInt8) :
    (polymodTrace chk values).getLast? = some (values.foldl polymodStep chk) := by
  induction values generalizing chk with
  | nil => rfl
  | cons v values ih =>
    rw [polymodTrace, List.getLast?_append, ih]
    rfl

theorem xor_lt {a b : UInt32} (ha : a.toNat < 2 ^ 30) (hb : b.toNat < 2 ^ 30) :
    (a ^^^ b).toNat < 2 ^ 30 := by
  rw [UInt32.toNat_xor]
  exact Nat.xor_lt_two_pow ha hb

theorem shifted_lt (chk : UInt32) : ((chk &&& 0x1ffffff) <<< 5).toNat < 2 ^ 30 := by
  have hmask : (chk &&& 0x1ffffff).toNat < 2 ^ 25 := by
    rw [UInt32.toNat_and]
    exact Nat.lt_of_le_of_lt Nat.and_le_right (by decide)
  rw [UInt32.toNat_shiftLeft, show UInt32.toNat 5 % 32 = 5 from rfl, Nat.shiftLeft_eq]
  omega

/-- No value of a turn leaves the low 30 bits. -/
theorem polymodTurn_lt {chk : UInt32} {v : UInt8} : ∀ x ∈ polymodTurn chk v, x.toNat < 2 ^ 30 := by
  have hsymbol : ((chk &&& 0x1ffffff) <<< 5 ^^^ v.toUInt32).toNat < 2 ^ 30 := by
    refine xor_lt (shifted_lt chk) ?_
    rw [UInt8.toNat_toUInt32]
    exact Nat.lt_trans v.toNat_lt (by decide)
  have hgen : ∀ entry ∈ kBech32Gen.zipIdx, entry.1.toNat < 2 ^ 30 := by decide
  rw [polymodTurn, List.forall_mem_cons]
  refine ⟨shifted_lt chk, forall_mem_scanl hsymbol ?_⟩
  rintro x entry hentry hx
  dsimp only
  split
  · exact xor_lt hx (hgen entry hentry)
  · exact hx

theorem polymodTrace_lt {chk : UInt32} (h : chk.toNat < 2 ^ 30) (values : List UInt8) :
    ∀ x ∈ polymodTrace chk values, x.toNat < 2 ^ 30 := by
  induction values generalizing chk with
  | nil => simpa [polymodTrace] using h
  | cons v values ih =>
    rw [polymodTrace, List.cons_append, List.forall_mem_cons, List.forall_mem_append]
    exact ⟨h, polymodTurn_lt, ih (polymodTurn_lt _ (List.mem_of_getLast? (getLast?_polymodTurn chk v)))⟩

/-- The cast of the top bits of a small register keeps them all. -/
theorem top_exact {chk : UInt32} (h : chk.toNat < 2 ^ 30) : (chk >>> 25).toUInt8.toNat = chk.toNat / 2 ^ 25 := by
  rw [UInt32.toNat_toUInt8, UInt32.toNat_shiftRight, show UInt32.toNat 25 % 32 = 25 from rfl,
    Nat.shiftRight_eq_div_pow]
  omega

/-- What the codec relies on: the created checksum is the one that passes the check, and no value of the
register is too large for the cast of its top bits. -/
structure ChecksumsAgree (hrp : Str) (data : List UInt8) : Prop where
  created : (createChecksum hrp data).length = 6 ∧ ∀ c ∈ createChecksum hrp data, c.toNat < 32
  verified : ∀ cs : List UInt8, cs.length = 6 → (∀ c ∈ cs, c.toNat < 32) →
    (verifyChecksum hrp (data ++ cs) = true ↔ cs = createChecksum hrp data)
  traced : ∀ values : List UInt8, (polymodTrace 1 values).getLast? = some (polymod values)
  registers : ∀ values : List UInt8, ∀ chk ∈ polymodTrace 1 values,
    chk.toNat < 2 ^ 30 ∧ (chk >>> 25).toUInt8.toNat = chk.toNat / 2 ^ 25

/-- **Checksums of all lengths** are created as they are verified, in a register of 30 bits. -/
theorem checksumsAgree (hrp : Str) (data : List UInt8) : ChecksumsAgree hrp data where
  created := ⟨createChecksum_length hrp data, fun _ => createChecksum_lt⟩
  verified _ hlen hc := verifyChecksum_append hrp data hlen hc
  traced := getLast?_polymodTrace 1
  registers _ chk hchk :=
    have hlt := polymodTrace_lt (by decide) _ chk hchk
    ⟨hlt, top_exact hlt⟩

end Monitostr.Nip19
