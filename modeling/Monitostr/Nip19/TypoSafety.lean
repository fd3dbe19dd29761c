import Monitostr.Foundations.ErrorDetection
import Monitostr.Nip19.Codec

/-! # Up to four mistyped characters are detected

The symbols of five bits are the field with 32 elements, and the checksum register is a vector of
six of them. Multiplication by a generator of the field, symbol by symbol, commutes with the
register's own map, so the elimination test for columns applies: with the lowest symbol forgotten
and one column eliminated, the columns of a word of 58 symbols have different normal forms. That
last fact is checked by evaluation; it is where the five generator constants enter.
-/

namespace Monitostr.Nip19
open Foundations
set_option autoImplicit false

/-! ## Multiplication by the generator of the field -/

/-- Every symbol of the register multiplied by `α`, where `α ^ 5 = α ^ 3 + 1`. -/
def alpha (r : BitVec 30) : BitVec 30 :=
  let top := (r >>> 4) &&& 0x02108421
  ((r &&& 0x1ef7bdef) <<< 1) ^^^ top ^^^ (top <<< 3)

def alphaSymbol (s : BitVec 5) : BitVec 5 := ((s &&& 15) <<< 1) ^^^ (if s.getLsbD 4 then 9 else 0)

def symbolAt (q : ℕ) (r : BitVec 30) : BitVec 5 := (r >>> (5 * q)).setWidth 5

def scale (s : BitVec 5) (r : BitVec 30) : BitVec 30 :=
  (if s.getLsbD 0 then r else 0) ^^^ (if s.getLsbD 1 then alpha r else 0) ^^^
  (if s.getLsbD 2 then alpha^[2] r else 0) ^^^ (if s.getLsbD 3 then alpha^[3] r else 0) ^^^
  (if s.getLsbD 4 then alpha^[4] r else 0)

def reciprocal (s : BitVec 5) : BitVec 5 :=
  [0, 1, 20, 24, 10, 8, 12, 29, 5, 11, 4, 9, 6, 28, 26, 31, 22, 18, 17, 23, 2, 25, 16, 19, 3, 21,
    14, 30, 13, 7, 27, 15].getD s.toNat 0

theorem shiftRight_linear {w : ℕ} (k : ℕ) : XorLinear (fun r : BitVec w => r >>> k) := fun a b =>
  BitVec.ushiftRight_xor_distrib a b k

theorem shiftLeft_linear {w : ℕ} (k : ℕ) : XorLinear (fun r : BitVec w => r <<< k) := fun a b =>
  BitVec.shiftLeft_xor_distrib a b k

theorem and_linear {w : ℕ} (m : BitVec w) : XorLinear (fun r : BitVec w => r &&& m) := by
  intro a b
  apply BitVec.eq_of_getLsbD_eq
  intro i _
  simp only [BitVec.getLsbD_and, BitVec.getLsbD_xor, Bool.and_xor_distrib_right]

theorem setWidth_linear {v w : ℕ} : XorLinear (fun r : BitVec v => r.setWidth w) := fun _ _ =>
  BitVec.setWidth_xor

theorem select_linear {v w : ℕ} (i : ℕ) (g : BitVec v) :
    XorLinear (fun s : BitVec w => if s.getLsbD i then g else 0) := by
  intro a b
  dsimp only
  rw [BitVec.getLsbD_xor]
  cases a.getLsbD i <;> cases b.getLsbD i <;> simp

theorem alpha_linear : XorLinear alpha := by
  have htop : XorLinear fun r : BitVec 30 => (r >>> 4) &&& 0x02108421 :=
    (and_linear _).comp (shiftRight_linear 4)
  exact (((shiftLeft_linear 1).comp (and_linear _)).xor htop).xor ((shiftLeft_linear 3).comp htop)

theorem alphaSymbol_linear : XorLinear alphaSymbol :=
  ((shiftLeft_linear 1).comp (and_linear _)).xor (select_linear 4 9)

theorem symbolAt_linear (q : ℕ) : XorLinear (symbolAt q) :=
  setWidth_linear.comp (shiftRight_linear (5 * q))

theorem scale_linear_symbol (r : BitVec 30) : XorLinear fun s => scale s r :=
  ((((select_linear 0 _).xor (select_linear 1 _)).xor (select_linear 2 _)).xor
    (select_linear 3 _)).xor (select_linear 4 _)

theorem scale_alpha (s : BitVec 5) (r : BitVec 30) : scale s (alpha r) = alpha (scale s r) := by
  have hsel : ∀ (c : Bool) (x : BitVec 30),
      (if c = true then alpha x else 0) = alpha (if c = true then x else 0) := by
    intro c x
    cases c
    · exact alpha_linear.map_zero.symm
    · rfl
  have hiter : ∀ k, alpha^[k] (alpha r) = alpha (alpha^[k] r) := fun k =>
    (Function.Commute.refl alpha).iterate_left k r
  simp only [scale, hiter, hsel, alpha_linear _ _]

theorem alpha_five (r : BitVec 30) : alpha^[5] r = alpha^[3] r ^^^ r :=
  XorLinear.ext_twoPow (g := fun r => alpha^[3] r ^^^ r) (alpha_linear.iterate 5)
    ((alpha_linear.iterate 3).xor fun _ _ => rfl) (by decide) r

theorem scale_twoPow (r : BitVec 30) {i : ℕ} (hi : i < 5) :
    scale (BitVec.twoPow 5 i) r = alpha^[i] r := by
  interval_cases i <;> simp [scale]

theorem scale_alphaSymbol (s : BitVec 5) (r : BitVec 30) :
    scale (alphaSymbol s) r = alpha (scale s r) := by
  refine XorLinear.ext_twoPow ((scale_linear_symbol r).comp alphaSymbol_linear)
    (alpha_linear.comp (scale_linear_symbol r)) ?_ s
  intro i hi
  rw [scale_twoPow r hi]
  by_cases h4 : i = 4
  · have hfold : alphaSymbol (BitVec.twoPow 5 4) = 9 := by decide
    have hnine : scale 9 r = r ^^^ alpha^[3] r := by simp [scale]
    rw [h4, hfold, hnine, BitVec.xor_comm, ← alpha_five]
    rfl
  · have hnext : ∀ i < 4, alphaSymbol (BitVec.twoPow 5 i) = BitVec.twoPow 5 (i + 1) := by decide
    rw [hnext i (by omega), scale_twoPow r (by omega), Function.iterate_succ_apply']

theorem alpha_order (r : BitVec 30) : alpha^[31] r = r :=
  XorLinear.ext_twoPow (g := id) (alpha_linear.iterate 31) (fun _ _ => rfl) (by decide +kernel) r

theorem alpha_eq_zero (r : BitVec 30) (h : alpha r = 0) : r = 0 := by
  rw [← alpha_order r, Function.iterate_succ_apply, h, (alpha_linear.iterate 30).map_zero]

theorem symbolAt_alpha {q : ℕ} (hq : q < 6) (r : BitVec 30) :
    symbolAt q (alpha r) = alphaSymbol (symbolAt q r) := by
  refine XorLinear.ext_twoPow ((symbolAt_linear q).comp alpha_linear)
    (alphaSymbol_linear.comp (symbolAt_linear q)) ?_ r
  revert q
  decide

theorem alpha_shiftIn (r : BitVec 30) : alpha (shiftIn r) = shiftIn (alpha r) :=
  XorLinear.ext_twoPow (alpha_linear.comp shiftIn_linear) (shiftIn_linear.comp alpha_linear)
    (by decide) r

/-- The register's own map loses nothing: the low symbol of what is folded back tells the top one. -/
theorem shiftIn_eq_zero (r : BitVec 30) (h : shiftIn r = 0) : r = 0 := by
  have hfold : r <<< 5 = foldBack r := xor_eq_zero_iff.mp h
  have hlow : (foldBack r).setWidth 5 = 0 := by
    rw [← hfold]
    apply BitVec.eq_of_getLsbD_eq
    intro i hi
    simp [hi]
  have htop : r.getLsbD 25 = false ∧ r.getLsbD 26 = false ∧ r.getLsbD 27 = false ∧
      r.getLsbD 28 = false ∧ r.getLsbD 29 = false := by
    have key : ∀ a b c d e : Bool,
        ((if a then 0x3b6a57b2#30 else 0) ^^^ (if b then 0x26508e6d#30 else 0) ^^^
          (if c then 0x1ea119fa#30 else 0) ^^^ (if d then 0x3d4233dd#30 else 0) ^^^
          (if e then 0x2a1462b3#30 else 0)).setWidth 5 = 0#5 →
        a = false ∧ b = false ∧ c = false ∧ d = false ∧ e = false := by
      decide
    exact key _ _ _ _ _ hlow
  obtain ⟨h25, h26, h27, h28, h29⟩ := htop
  have hzero : r <<< 5 = 0 := by
    rw [hfold, foldBack, h25, h26, h27, h28, h29]
    rfl
  apply BitVec.eq_of_getLsbD_eq
  intro i hi
  by_cases hi25 : i < 25
  · have hbit : (r <<< 5).getLsbD (i + 5) = (0 : BitVec 30).getLsbD (i + 5) := by rw [hzero]
    rw [BitVec.getLsbD_shiftLeft, Nat.add_sub_cancel] at hbit
    simpa [(by omega : i + 5 < 30)] using hbit
  · interval_cases i <;> assumption

def scalars : Set (BitVec 30 → BitVec 30) := {g | ∃ e, g = alpha^[e]}

theorem scalars_shiftIn : Scalars shiftIn scalars where
  linear := by
    rintro g ⟨e, rfl⟩
    exact alpha_linear.iterate e
  comm := by
    rintro g ⟨e, rfl⟩ r
    exact Function.Commute.iterate_left (f := alpha) (g := shiftIn) alpha_shiftIn e r
  faithful := by
    rintro g ⟨e, rfl⟩ r h
    exact iterate_eq_zero alpha_eq_zero e r h

theorem map_scalar {f : BitVec 30 → BitVec 30} (hf : ∀ r, f (alpha r) = alpha (f r)) :
    ∀ g ∈ scalars, ∀ r, f (g r) = g (f r) := by
  rintro g ⟨e, rfl⟩ r
  exact Function.Commute.iterate_right (f := f) (g := alpha) hf e r

/-! ## Normal forms -/

/-- The lowest symbol that is not zero. -/
def pivot (r : BitVec 30) : ℕ := ((List.range 6).find? fun q => symbolAt q r != 0).getD 0

/-- The multiple whose pivot symbol is 1. -/
def normalize (r : BitVec 30) : BitVec 30 := scale (reciprocal (symbolAt (pivot r) r)) r

/-- `r` less the multiple of `w` that has the same symbol at the pivot of `w`. -/
def reduceBy (w r : BitVec 30) : BitVec 30 := r ^^^ scale (symbolAt (pivot w) r) (normalize w)

theorem reciprocal_alphaSymbol :
    ∀ s : BitVec 5, alphaSymbol (reciprocal (alphaSymbol s)) = reciprocal s := by
  decide

theorem alphaSymbol_ne_zero : ∀ s : BitVec 5, (alphaSymbol s != 0) = (s != 0) := by
  decide

theorem pivot_lt (r : BitVec 30) : pivot r < 6 := by
  rw [pivot]
  cases h : (List.range 6).find? fun q => symbolAt q r != 0 with
  | none => decide
  | some q => exact List.mem_range.mp (List.mem_of_find?_eq_some h)

theorem pivot_alpha (r : BitVec 30) : pivot (alpha r) = pivot r := by
  have hsame : (List.range 6).find? (fun q => symbolAt q (alpha r) != 0) =
      (List.range 6).find? fun q => symbolAt q r != 0 := by
    have hgen : ∀ qs : List ℕ, (∀ q ∈ qs, q < 6) →
        qs.find? (fun q => symbolAt q (alpha r) != 0) = qs.find? fun q => symbolAt q r != 0 := by
      intro qs
      induction qs with
      | nil => intro _; rfl
      | cons q qs ih =>
        intro hqs
        rw [List.find?_cons, List.find?_cons, symbolAt_alpha (hqs q (by simp)), alphaSymbol_ne_zero,
          ih fun x hx => hqs x (by simp [hx])]
    exact hgen _ fun q hq => List.mem_range.mp hq
  rw [pivot, hsame, pivot]

theorem normalize_alpha (r : BitVec 30) : normalize (alpha r) = normalize r := by
  rw [normalize, pivot_alpha, symbolAt_alpha (pivot_lt r), scale_alpha, ← scale_alphaSymbol,
    reciprocal_alphaSymbol, normalize]

theorem normalize_scalar : ∀ g ∈ scalars, ∀ r, normalize (g r) = normalize r := by
  rintro g ⟨e, rfl⟩ r
  induction e with
  | zero => rfl
  | succ e ih => rw [Function.iterate_succ_apply', normalize_alpha, ih]

theorem reduceBy_linear (w : BitVec 30) : XorLinear (reduceBy w) :=
  XorLinear.xor (fun _ _ => rfl) ((scale_linear_symbol (normalize w)).comp (symbolAt_linear _))

theorem reduceBy_alpha (w r : BitVec 30) : reduceBy w (alpha r) = alpha (reduceBy w r) := by
  rw [reduceBy, symbolAt_alpha (pivot_lt w), scale_alphaSymbol, ← alpha_linear, reduceBy]

/-! ## Differences of characters -/

theorem symbol_power : ∀ v : UInt8, v.toNat < 32 → v ≠ 0 →
    symbol v ≠ 0 ∧ ∃ e < 31, symbol v = alpha^[e] 1 := by
  decide +kernel

theorem valueOf_charset (c : UInt8) (hc : c ∈ kCharset) :
    charOfValue (valueOf c) = c ∧ (valueOf c).toNat < 32 := by
  obtain ⟨p, hp⟩ := List.getElem?_of_mem hc
  exact valueOf_spec c (charToValue_of_getElem? hp ▸ Int.natCast_nonneg p) (kCharset_spec c hc).2.2

def differenceSymbol (c d : UInt8) : BitVec 30 := symbol (valueOf c) ^^^ symbol (valueOf d)

theorem differenceSymbol_spec {c d : UInt8} (hc : c ∈ kCharset) (hd : d ∈ kCharset) :
    (differenceSymbol c d = 0 ↔ c = d) ∧
      (differenceSymbol c d ≠ 0 → ∃ g ∈ scalars, differenceSymbol c d = g 1) := by
  obtain ⟨hcc, hc32⟩ := valueOf_charset c hc
  obtain ⟨hdd, hd32⟩ := valueOf_charset d hd
  have hxor : differenceSymbol c d = symbol (valueOf c ^^^ valueOf d) := BitVec.setWidth_xor.symm
  have hlt : (valueOf c ^^^ valueOf d).toNat < 32 := by
    rw [UInt8.toNat_xor]
    exact Nat.xor_lt_two_pow (n := 5) hc32 hd32
  by_cases heq : valueOf c ^^^ valueOf d = 0
  · have hcd : c = d := by rw [← hcc, ← hdd, UInt8.xor_eq_zero_iff.mp heq]
    have hzero : differenceSymbol c d = 0 := by
      rw [hxor, heq]
      rfl
    exact ⟨⟨fun _ => hcd, fun _ => hzero⟩, fun h => absurd hzero h⟩
  · obtain ⟨hne, e, -, he⟩ := symbol_power _ hlt heq
    rw [← hxor] at hne he
    refine ⟨⟨fun h => absurd h hne, ?_⟩, fun _ => ⟨_, ⟨e, rfl⟩, he⟩⟩
    rintro rfl
    exact absurd (UInt8.xor_self) heq

/-! ## The columns -/

def forget (r : BitVec 30) : BitVec 30 := r &&& 0x3fffffe0

theorem forget_alpha (r : BitVec 30) : forget (alpha r) = alpha (forget r) :=
  XorLinear.ext_twoPow ((and_linear _).comp alpha_linear) (alpha_linear.comp (and_linear _))
    (by decide) r

def columns : ℕ → BitVec 30 → List (BitVec 30)
  | 0, _ => []
  | n + 1, r => forget r :: columns n (shiftIn r)

theorem columns_getElem? {n l : ℕ} (hl : l < n) (r : BitVec 30) :
    (columns n r)[l]? = some (forget (shiftIn^[l] r)) := by
  induction n generalizing l r with
  | zero => omega
  | succ n ih =>
    cases l with
    | zero => rfl
    | succ l =>
      rw [columns, List.getElem?_cons_succ, ih (by omega), Function.iterate_succ_apply]

def allDistinct : List ℕ → Bool
  | [] => true
  | x :: xs => xs.all (fun y => !Nat.beq y x) && allDistinct xs

theorem allDistinct_ne {xs : List ℕ} (h : allDistinct xs = true) {j k x y : ℕ} (hjk : j < k)
    (hj : xs[j]? = some x) (hk : xs[k]? = some y) : y ≠ x := by
  induction xs generalizing j k with
  | nil => cases hj
  | cons z xs ih =>
    rw [allDistinct, Bool.and_eq_true, List.all_eq_true] at h
    obtain ⟨k, rfl⟩ : ∃ k', k = k' + 1 := ⟨k - 1, by omega⟩
    rw [List.getElem?_cons_succ] at hk
    cases j with
    | zero =>
      rw [List.getElem?_cons_zero, Option.some.injEq] at hj
      have hy := h.1 y (List.mem_of_getElem? hk)
      rw [Bool.not_eq_true', hj] at hy
      exact Nat.ne_of_beq_eq_false hy
    | succ j => exact ih h.2 (by omega) hj hk

theorem columns_reduced : ∀ l < 58, 0 < l → (columns 58 1).getD l 0 ≠ 0 ∧
    reduceBy ((columns 58 1).getD l 0) ((columns 58 1).getD l 0) = 0 := by
  decide

/-- The check by evaluation: the columns before column `l`, reduced by it, have different normal
forms, and so has the zero column at position 0. -/
theorem columns_distinct : ∀ l < 58, allDistinct (((columns 58 1).take l).map fun w =>
    (normalize (reduceBy ((columns 58 1).getD l 0) w)).toNat) = true := by
  decide +kernel

theorem columns_getD {l : ℕ} (hl : l < 58) : (columns 58 1).getD l 0 = forget (shiftIn^[l] 1) := by
  rw [List.getD_eq_getElem?_getD, columns_getElem? hl, Option.getD_some]

theorem normal_forms_ne {j k l : ℕ} (hjk : j < k) (hkl : k < l) (hl : l < 58) :
    (normalize (reduceBy (forget (shiftIn^[l] 1)) (forget (shiftIn^[k] 1)))).toNat ≠
      (normalize (reduceBy (forget (shiftIn^[l] 1)) (forget (shiftIn^[j] 1)))).toNat := by
  have hall := columns_distinct l hl
  rw [columns_getD hl] at hall
  have hget : ∀ i < l, (((columns 58 1).take l).map fun w =>
      (normalize (reduceBy (forget (shiftIn^[l] 1)) w)).toNat)[i]? =
        some (normalize (reduceBy (forget (shiftIn^[l] 1)) (forget (shiftIn^[i] 1)))).toNat := by
    intro i hi
    rw [List.getElem?_map, List.getElem?_take_of_lt hi, columns_getElem? (by omega), Option.map_some]
  exact allDistinct_ne hall hjk (hget j (by omega)) (hget k hkl)

theorem columnTest : ColumnTest shiftIn scalars 1 58 forget
    (fun l => reduceBy (forget (shiftIn^[l] 1))) fun r => (normalize r).toNat where
  forget_linear := and_linear _
  forget_scalar := map_scalar forget_alpha
  forget_symbol := by decide
  eliminate_linear := fun _ => reduceBy_linear _
  eliminate_scalar := fun _ => map_scalar (reduceBy_alpha _)
  eliminate_column := by
    intro l h0 hl
    have h := (columns_reduced l hl h0).2
    rwa [columns_getD hl] at h
  shape_scalar := fun g hg r => by rw [normalize_scalar g hg]
  one := by
    intro l h0 hl
    have h := (columns_reduced l hl h0).1
    rwa [columns_getD hl] at h
  two := by
    intro k l h0 hkl hl hz
    have hlow : forget (shiftIn^[0] 1) = 0 := by decide
    refine normal_forms_ne h0 hkl hl ?_
    rw [hz, hlow, (reduceBy_linear _).map_zero]
  three := fun _ _ _ _ hjk hkl hl => normal_forms_ne hjk hkl hl

/-! ## Mistyped strings -/

def differences (s s' : Str) : ℕ := (s.zip s').countP fun p => p.1 ≠ p.2

/-- `s'` is `s` with one to four of the characters after a separator at position 4 replaced by others
of the charset. -/
structure Mistyped (s s' : Str) : Prop where
  length : s'.length = s.length
  kept : s'.take 5 = s.take 5
  known : ∀ p ∈ s.zip s', p.1 ≠ p.2 → p.2 ∈ kCharset
  atLeastOne : 1 ≤ differences s s'
  atMostFour : differences s s' ≤ 4

theorem differences_append (p t t' : Str) : differences (p ++ t) (p ++ t') = differences t t' := by
  induction p with
  | nil => rfl
  | cons c p ih =>
    rw [← ih, differences, List.cons_append, List.cons_append, List.zip_cons_cons]
    simp [differences]

theorem not_both_verify {hrp t t' : Str} (hlen : t.length = t'.length) (h58 : t.length ≤ 58)
    (ht : ∀ c ∈ t, c ∈ kCharset) (ht' : ∀ c ∈ t', c ∈ kCharset) (hlow : 1 ≤ differences t t')
    (hhigh : differences t t' ≤ 4) (hv : verifyChecksum hrp (t.map valueOf) = true)
    (hv' : verifyChecksum hrp (t'.map valueOf) = true) : False := by
  have hword : List.zipWith (· ^^^ ·) ((t.map valueOf).map symbol) ((t'.map valueOf).map symbol) =
      (t.zip t').map fun p => differenceSymbol p.1 p.2 := by
    rw [List.map_map, List.map_map, List.zipWith_map, List.map_zip_eq_zipWith]
    rfl
  have hmem : ∀ p ∈ t.zip t', p.1 ∈ kCharset ∧ p.2 ∈ kCharset := fun p hp =>
    ⟨ht _ (List.of_mem_zip hp).1, ht' _ (List.of_mem_zip hp).2⟩
  have hcount : ((t.zip t').map fun p => differenceSymbol p.1 p.2).countP (· ≠ 0) =
      differences t t' := by
    rw [List.countP_map, differences]
    refine List.countP_congr fun p hp => ?_
    have h := (differenceSymbol_spec (hmem p hp).1 (hmem p hp).2).1
    rw [Function.comp_apply, decide_eq_true_iff, decide_eq_true_iff, ne_eq, ne_eq, h]
  -- Both registers are 1, so their difference is the zero register of the difference word.
  have hfeed : feed shiftIn 0 ((t.zip t').map fun p => differenceSymbol p.1 p.2) = 0 := by
    have h := verifyChecksum_iff hrp _ |>.mp hv
    have h' := verifyChecksum_iff hrp _ |>.mp hv'
    rw [← List.nil_append (t.map valueOf), register_append] at h
    rw [← List.nil_append (t'.map valueOf), register_append] at h'
    have hz := feed_zipWith shiftIn_linear ((t.map valueOf).map symbol) ((t'.map valueOf).map symbol)
      (register hrp []) (register hrp []) (by simpa using hlen)
    rwa [h, h', LawfulXor.xor_self, LawfulXor.xor_self, hword] at hz
  refine columnTest.feed_ne_zero shiftIn_linear shiftIn_eq_zero scalars_shiftIn ?_ ?_ ?_ ?_ hfeed
  · rw [List.length_map, List.length_zip]
    omega
  · intro v hv hne
    obtain ⟨p, hp, rfl⟩ := List.mem_map.mp hv
    exact (differenceSymbol_spec (hmem p hp).1 (hmem p hp).2).2 hne
  · rwa [hcount]
  · rwa [hcount]

theorem convertBits_symbols_length {bytes data : List UInt8} (hlen : bytes.length = 32)
    (h : convertBits bytes 8 5 true = some data) : data.length = 52 := by
  have hval := ((convertBits_pad (by decide) (by decide) (by decide) (by decide) _ _).mp h).2
  have hcount := congrArg List.length hval
  rw [List.length_map, regroupPad_length, List.length_map, hlen] at hcount
  exact hcount

/-- A mistyped word after a prefix of five characters is another word of the charset. -/
theorem Mistyped.word {start word s' : Str} (h5 : start.length = 5)
    (hword : ∀ c ∈ word, c ∈ kCharset) (h : Mistyped (start ++ word) s') :
    ∃ typed, s' = start ++ typed ∧ typed.length = word.length ∧ (∀ c ∈ typed, c ∈ kCharset) ∧
      differences word typed = differences (start ++ word) s' := by
  obtain ⟨hlen, hkept, hknown, -, -⟩ := h
  obtain ⟨typed, rfl⟩ : ∃ typed, s' = start ++ typed := by
    refine ⟨s'.drop 5, ?_⟩
    conv_lhs => rw [← List.take_append_drop 5 s', hkept]
    rw [List.take_append, h5, Nat.sub_self, List.take_zero, List.append_nil,
      List.take_of_length_le h5.le]
  rw [List.length_append, List.length_append, Nat.add_left_cancel_iff] at hlen
  refine ⟨typed, rfl, hlen, fun c hc => ?_, (differences_append _ _ _).symm⟩
  obtain ⟨i, hi, rfl⟩ := List.getElem_of_mem hc
  have hi' : i < word.length := hlen ▸ hi
  by_cases hsame : word[i] = typed[i]
  · rw [← hsame]
    exact hword _ (List.getElem_mem hi')
  · refine hknown (word[i], typed[i]) ?_ hsame
    rw [List.zip_append rfl]
    refine List.mem_append_right _ ?_
    rw [← List.getElem_zip (h := by rw [List.length_zip]; omega)]
    exact List.getElem_mem _

/-- **Typo safety**: a key in text with one to four characters mistyped is rejected. -/
theorem mistyped_rejected {hrp : Str} (hhrp : hrp = lit "npub" ∨ hrp = lit "nsec")
    {bytes : List UInt8} (hlen : bytes.length = 32) {s' : Str}
    (h : Mistyped (encodeBech32_32Bytes hrp bytes) s') (payload : List UInt8) :
    decodeBech32_32Bytes s' hrp ≠ .ok payload := by
  have hstart : (hrp ++ [49]).length = 5 ∧ (hrp ++ [49]).all (fun c => !isUpper c) = true := by
    rcases hhrp with rfl | rfl <;> exact ⟨rfl, rfl⟩
  obtain ⟨data, hconv, hdata⟩ := convertBits_symbols bytes
  have hsplit : ∀ t : Str, hrp ++ 49 :: t = (hrp ++ [49]) ++ t := fun t => by simp
  rw [encodeBech32_32Bytes_eq hlen hconv, hsplit] at h
  have hword : ∀ c ∈ wordChars hrp data, c ∈ kCharset := fun c hc => wordChars_mem hdata hc
  have h58 : (wordChars hrp data).length = 58 := by
    rw [wordChars_length, convertBits_symbols_length hlen hconv]
  obtain ⟨typed, rfl, htlen, htyped, hcount⟩ := h.word hstart.1 hword
  intro hdec
  obtain ⟨chars, hf, hsum, -⟩ := decodeBech32_32Bytes_ok_iff.mp hdec
  have hup : ∀ c ∈ hrp ++ [49] ++ typed, isUpper c = false :=
    List.forall_mem_append.mpr ⟨fun c hc => by simpa using List.all_eq_true.mp hstart.2 c hc,
      fun c hc => (kCharset_spec c (htyped c hc)).1⟩
  -- the decoder reads the typed characters, as none of them is changed by folding
  have hchars : chars = typed := by
    have hnormal := hf.normal
    rw [toLowerCopy_of_no_upper hup, hsplit chars] at hnormal
    exact (List.append_cancel_left hnormal).symm
  rw [hchars] at hsum
  exact not_both_verify htlen.symm h58.le hword htyped (hcount ▸ h.atLeastOne)
    (hcount ▸ h.atMostFour) (verifyChecksum_wordChars hdata) hsum

theorem mistyped_rejected_zero :
    decodeBech32_32Bytes (lit "npub1pqqqqqqqqqqqqqqqqqqqqqqqqqqqqqqqqqqqqqqqqqqqqqqqqqqqzqujmp")
      (lit "npub") ≠ .ok (List.replicate 32 0) := by
  have hknown : ((encodeBech32_32Bytes (lit "npub") (List.replicate 32 0)).zip
      (lit "npub1pqqqqqqqqqqqqqqqqqqqqqqqqqqqqqqqqqqqqqqqqqqqqqqqqqqqzqujmp")).all
        (fun p => p.1 == p.2 || kCharset.contains p.2) = true := by
    decide +kernel
  have hmistyped : Mistyped (encodeBech32_32Bytes (lit "npub") (List.replicate 32 0))
      (lit "npub1pqqqqqqqqqqqqqqqqqqqqqqqqqqqqqqqqqqqqqqqqqqqqqqqqqqqzqujmp") := by
    refine ⟨by decide +kernel, by decide +kernel, fun p hp hne => ?_, by decide +kernel,
      by decide +kernel⟩
    simpa [hne] using List.all_eq_true.mp hknown p hp
  exact mistyped_rejected (Or.inl rfl) (by decide +kernel) hmistyped _

end Monitostr.Nip19
