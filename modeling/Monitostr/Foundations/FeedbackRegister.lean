import Mathlib.Data.LawfulXor.Basic
import Mathlib.Logic.Function.Iterate
import Mathlib.Data.BitVec

/-! # Feedback registers that are linear over exclusive or

A checksum register is fed one symbol at a time: the register moves by a fixed map `T` and the
symbol is combined into it by exclusive or. When `T` itself respects exclusive or, the register
after a word splits into what the start value left and what the word contributes, and two words of
one length differ in their registers exactly by the register of their difference.
-/

namespace Foundations
set_option autoImplicit false

/-! ## Maps that respect exclusive or -/

section XorLinear
variable {U V W : Type*} [XorOp U] [XorOp V] [XorOp W]

def XorLinear (f : V → W) : Prop := ∀ a b, f (a ^^^ b) = f a ^^^ f b

theorem XorLinear.comp {g : V → W} {f : U → V} (hg : XorLinear g) (hf : XorLinear f) :
    XorLinear (fun x => g (f x)) := by
  intro a b
  dsimp only
  rw [hf, hg]

theorem XorLinear.iterate {f : V → V} (hf : XorLinear f) (n : ℕ) : XorLinear (f^[n]) := by
  induction n with
  | zero => intro a b; rfl
  | succ n ih =>
    intro a b
    rw [Function.iterate_succ_apply, Function.iterate_succ_apply, Function.iterate_succ_apply,
      hf, ih]

variable [Zero V] [LawfulXor V] [Zero W] [LawfulXor W]

theorem XorLinear.map_zero {f : V → W} (hf : XorLinear f) : f 0 = 0 := by
  have h := hf 0 0
  rw [xor_zero] at h
  exact xor_left_eq_self_iff.mp h.symm

omit [Zero V] [LawfulXor V] in
theorem XorLinear.xor {f g : V → W} (hf : XorLinear f) (hg : XorLinear g) :
    XorLinear (fun x => f x ^^^ g x) := by
  intro a b
  dsimp only
  rw [hf, hg, xor_assoc, xor_assoc]
  congr 1
  rw [← xor_assoc, ← xor_assoc, xor_comm (f b)]

end XorLinear

/-! ## Maps on bit vectors are determined by their values on single bits -/

section Bits
variable {w : ℕ} {W : Type*} [XorOp W] [Zero W] [LawfulXor W]

theorem BitVec.and_ones_succ (x : BitVec w) (k : ℕ) (hk : k < w) :
    x &&& BitVec.ofNat w (2 ^ (k + 1) - 1) =
      (x &&& BitVec.ofNat w (2 ^ k - 1)) ^^^
        (if x.getLsbD k then BitVec.twoPow w k else 0#w) := by
  apply BitVec.eq_of_getLsbD_eq
  intro i hi
  have hif : (if x.getLsbD k then BitVec.twoPow w k else 0#w).getLsbD i =
      (x.getLsbD k && decide (i = k)) := by
    cases x.getLsbD k <;> simp [hi, eq_comm]
  rw [BitVec.getLsbD_xor, BitVec.getLsbD_and, BitVec.getLsbD_and, hif, BitVec.getLsbD_ofNat,
    BitVec.getLsbD_ofNat, Nat.testBit_two_pow_sub_one, Nat.testBit_two_pow_sub_one]
  by_cases hik : i = k
  · subst hik
    simp [hi]
  · have hlt : decide (i < k + 1) = decide (i < k) := by
      rw [decide_eq_decide]
      omega
    rw [hlt, decide_eq_false hik, Bool.and_false, Bool.xor_false]

theorem XorLinear.ext_twoPow {f g : BitVec w → W} (hf : XorLinear f) (hg : XorLinear g)
    (h : ∀ i < w, f (BitVec.twoPow w i) = g (BitVec.twoPow w i)) (x : BitVec w) : f x = g x := by
  have key : ∀ k ≤ w, f (x &&& BitVec.ofNat w (2 ^ k - 1)) =
      g (x &&& BitVec.ofNat w (2 ^ k - 1)) := by
    intro k
    induction k with
    | zero =>
      intro _
      have hz : x &&& BitVec.ofNat w (2 ^ 0 - 1) = 0 := by simp
      rw [hz, hf.map_zero, hg.map_zero]
    | succ k ih =>
      intro hk
      have hbit : f (if x.getLsbD k then BitVec.twoPow w k else 0#w) =
          g (if x.getLsbD k then BitVec.twoPow w k else 0#w) := by
        cases x.getLsbD k
        · exact hf.map_zero.trans hg.map_zero.symm
        · exact h k (by omega)
      rw [BitVec.and_ones_succ x k (by omega), hf, hg, ih (by omega), hbit]
  have hall : x &&& BitVec.ofNat w (2 ^ w - 1) = x := by
    apply BitVec.eq_of_getLsbD_eq
    intro i hi
    rw [BitVec.getLsbD_and, BitVec.getLsbD_ofNat, Nat.testBit_two_pow_sub_one]
    simp [hi]
  have hw := key w (le_refl w)
  rwa [hall] at hw

end Bits

/-! ## Feeding a word into a register -/

section Feed
variable {V : Type*} [XorOp V]

/-- The register after the symbols of a word: it moves by `T`, then takes in the symbol. -/
def feed (T : V → V) (r : V) (word : List V) : V := word.foldl (fun r v => T r ^^^ v) r

variable {T : V → V}

@[simp] theorem feed_nil (r : V) : feed T r [] = r := rfl

@[simp] theorem feed_cons (r v : V) (word : List V) :
    feed T r (v :: word) = feed T (T r ^^^ v) word := rfl

theorem feed_append (r : V) (xs ys : List V) : feed T r (xs ++ ys) = feed T (feed T r xs) ys :=
  List.foldl_append

variable [Zero V] [LawfulXor V]

/-- Two words of one length: the register of the symbolwise difference is the difference of the
registers. -/
theorem feed_zipWith (hT : XorLinear T) :
    ∀ (xs ys : List V) (r s : V), xs.length = ys.length →
      feed T (r ^^^ s) (List.zipWith (· ^^^ ·) xs ys) = feed T r xs ^^^ feed T s ys
  | [], [], r, s, _ => by simp
  | x :: xs, y :: ys, r, s, h => by
      have hmix : T (r ^^^ s) ^^^ (x ^^^ y) = (T r ^^^ x) ^^^ (T s ^^^ y) := by
        rw [hT, xor_assoc, xor_assoc, ← xor_assoc (T s), xor_comm (T s) x, xor_assoc x]
      rw [List.zipWith_cons_cons, feed_cons, feed_cons, feed_cons, hmix]
      exact feed_zipWith hT xs ys _ _ (by simpa using h)

/-- The start value and the word contribute independently. -/
theorem feed_eq (hT : XorLinear T) (r : V) (word : List V) :
    feed T r word = T^[word.length] r ^^^ feed T 0 word := by
  induction word generalizing r with
  | nil => simp
  | cons v word ih =>
    rw [feed_cons, ih, feed_cons, ih (T 0 ^^^ v), hT.iterate, hT.iterate, hT.map_zero,
      (hT.iterate word.length).map_zero, zero_xor, List.length_cons,
      Function.iterate_succ_apply, xor_assoc]

theorem feed_replicate_zero (r : V) (n : ℕ) : feed T r (List.replicate n 0) = T^[n] r := by
  induction n generalizing r with
  | zero => rfl
  | succ n ih =>
    rw [List.replicate_succ, feed_cons, xor_zero, ih, Function.iterate_succ_apply]

end Feed

/-- What every turn keeps holds of all values on the way. -/
theorem forall_mem_scanl {α β : Type*} {P : β → Prop} {f : β → α → β} {l : List α} {b : β} (hb : P b)
    (hf : ∀ x, ∀ a ∈ l, P x → P (f x a)) : ∀ x ∈ l.scanl f b, P x := by
  induction l generalizing b with
  | nil => simpa using hb
  | cons a l ih =>
    rw [List.scanl_cons, List.forall_mem_cons]
    exact ⟨hb, ih (hf b a List.mem_cons_self hb) fun x c hc => hf x c (List.mem_cons_of_mem _ hc)⟩

end Foundations
