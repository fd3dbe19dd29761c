import Monitostr.Foundations.FeedbackRegister

/-! # Which words leave a feedback register at zero

The register of a word, fed from zero, is the sum of one column per non-zero symbol: the symbol
moved by `T` once for every symbol after it. A word with at most four non-zero symbols is detected
(its register is not zero) when any four columns are independent. That is reduced here to a check
on columns alone: forget the lowest symbol, eliminate the highest column, and compare the shapes of
the two columns that are left, where the shape of a vector does not depend on a scalar factor.
-/

namespace Foundations
set_option autoImplicit false

variable {V : Type*} [Zero V]

/-! ## The non-zero symbols of a word -/

section Support
variable [DecidableEq V]

/-- The non-zero symbols of a word, each with the number of symbols that follow it. -/
def support : List V → List (ℕ × V)
  | [] => []
  | v :: word => if v = 0 then support word else (word.length, v) :: support word

def columnSum [XorOp V] (T : V → V) : List (ℕ × V) → V
  | [] => 0
  | (p, v) :: rest => T^[p] v ^^^ columnSum T rest

theorem support_lt_length {word : List V} {t : ℕ × V} (h : t ∈ support word) :
    t.1 < word.length := by
  induction word with
  | nil => simp [support] at h
  | cons v word ih =>
    rw [support] at h
    split at h
    · exact (ih h).trans (Nat.lt_succ_self _)
    · rcases List.mem_cons.mp h with rfl | h
      · exact Nat.lt_succ_self _
      · exact (ih h).trans (Nat.lt_succ_self _)

theorem support_symbol {word : List V} {t : ℕ × V} (h : t ∈ support word) :
    t.2 ∈ word ∧ t.2 ≠ 0 := by
  induction word with
  | nil => simp [support] at h
  | cons v word ih =>
    rw [support] at h
    split at h
    · exact ⟨List.mem_cons_of_mem _ (ih h).1, (ih h).2⟩
    · next hv =>
      rcases List.mem_cons.mp h with rfl | h
      · exact ⟨List.mem_cons_self, hv⟩
      · exact ⟨List.mem_cons_of_mem _ (ih h).1, (ih h).2⟩

theorem support_decreasing (word : List V) : (support word).Pairwise fun a b => b.1 < a.1 := by
  induction word with
  | nil => exact List.Pairwise.nil
  | cons v word ih =>
    rw [support]
    split
    · exact ih
    · exact List.pairwise_cons.mpr ⟨fun t ht => support_lt_length ht, ih⟩

theorem support_length (word : List V) : (support word).length = word.countP (· ≠ 0) := by
  induction word with
  | nil => rfl
  | cons v word ih =>
    rw [support, List.countP_cons]
    by_cases hv : v = 0
    · simp [hv, ih]
    · simp [hv, ih]

variable [XorOp V] [LawfulXor V] {T : V → V}

theorem feed_zero_eq_columnSum (hT : XorLinear T) (word : List V) :
    feed T 0 word = columnSum T (support word) := by
  induction word with
  | nil => rfl
  | cons v word ih =>
    rw [feed_cons, hT.map_zero, zero_xor, feed_eq hT, ih, support]
    split
    · next hv => rw [hv, (hT.iterate _).map_zero, zero_xor]
    · rfl

omit [DecidableEq V] in
theorem columnSum_shift (hT : XorLinear T) (d : ℕ) (ts : List (ℕ × V)) :
    columnSum T (ts.map fun t => (t.1 + d, t.2)) = T^[d] (columnSum T ts) := by
  induction ts with
  | nil => exact ((hT.iterate d).map_zero).symm
  | cons t ts ih =>
    rw [List.map_cons, columnSum, ih, columnSum, hT.iterate, Nat.add_comm,
      Function.iterate_add_apply]

end Support

/-! ## The elimination test -/

section Elimination
variable [XorOp V] {ι : Type*}

/-- Scalar factors: maps that respect exclusive or, commute with the register's own map, and do
not lose a non-zero vector. -/
structure Scalars (T : V → V) (G : Set (V → V)) : Prop where
  linear : ∀ g ∈ G, XorLinear g
  comm : ∀ g ∈ G, ∀ x, g (T x) = T (g x)
  faithful : ∀ g ∈ G, ∀ x, g x = 0 → x = 0

/-- The check on the columns `T^[p] u` below `n`. `P` forgets the lowest symbol, `E l` eliminates
column `l`, and `shape` does not see a scalar factor. -/
structure ColumnTest (T : V → V) (G : Set (V → V)) (u : V) (n : ℕ) (P : V → V) (E : ℕ → V → V)
    (shape : V → ι) : Prop where
  forget_linear : XorLinear P
  forget_scalar : ∀ g ∈ G, ∀ x, P (g x) = g (P x)
  forget_symbol : P u = 0
  eliminate_linear : ∀ l, XorLinear (E l)
  eliminate_scalar : ∀ l, ∀ g ∈ G, ∀ x, E l (g x) = g (E l x)
  eliminate_column : ∀ l, 0 < l → l < n → E l (P (T^[l] u)) = 0
  shape_scalar : ∀ g ∈ G, ∀ x, shape (g x) = shape x
  one : ∀ l, 0 < l → l < n → P (T^[l] u) ≠ 0
  two : ∀ k l, 0 < k → k < l → l < n → E l (P (T^[k] u)) ≠ 0
  three : ∀ j k l, 0 < j → j < k → k < l → l < n →
    shape (E l (P (T^[k] u))) ≠ shape (E l (P (T^[j] u)))

variable {T : V → V} {G : Set (V → V)} {u : V} {n : ℕ} {P : V → V} {E : ℕ → V → V} {shape : V → ι}

theorem Scalars.iterate (hG : Scalars T G) {g : V → V} (hg : g ∈ G) (p : ℕ) (x : V) :
    g (T^[p] x) = T^[p] (g x) := by
  induction p generalizing x with
  | zero => rfl
  | succ p ih =>
    rw [Function.iterate_succ_apply, Function.iterate_succ_apply, ih, hG.comm g hg]

variable [LawfulXor V]

/-- Up to three columns above the lowest position do not cancel, the lowest symbol forgotten. -/
theorem ColumnTest.forget_ne_zero (hG : Scalars T G) (h : ColumnTest T G u n P E shape)
    {ts : List (ℕ × V)} (hsym : ∀ t ∈ ts, ∃ g ∈ G, t.2 = g u) (hpos : ∀ t ∈ ts, 0 < t.1 ∧ t.1 < n)
    (hdec : ts.Pairwise fun a b => b.1 < a.1) (hne : ts ≠ []) (hlen : ts.length ≤ 3) :
    P (columnSum T ts) ≠ 0 := by
  have column : ∀ t ∈ ts, ∃ g ∈ G, P (T^[t.1] t.2) = g (P (T^[t.1] u)) := by
    intro t ht
    obtain ⟨g, hg, hs⟩ := hsym t ht
    exact ⟨g, hg, by rw [hs, ← hG.iterate hg, h.forget_scalar g hg]⟩
  match ts with
  | [] => exact absurd rfl hne
  | [c] =>
    obtain ⟨g, hg, hc⟩ := column c (by simp)
    obtain ⟨h0, hn⟩ := hpos c (by simp)
    intro hz
    rw [columnSum, columnSum, xor_zero, hc] at hz
    exact h.one c.1 h0 hn (hG.faithful g hg _ hz)
  | [d, c] =>
    obtain ⟨gd, hgd, hd⟩ := column d (by simp)
    obtain ⟨gc, hgc, hc⟩ := column c (by simp)
    have hcd : c.1 < d.1 := by simpa using hdec
    intro hz
    rw [columnSum, columnSum, columnSum, xor_zero, h.forget_linear, hd, hc] at hz
    have he := congrArg (E d.1) hz
    rw [h.eliminate_linear, h.eliminate_scalar _ gd hgd, h.eliminate_scalar _ gc hgc,
      h.eliminate_column d.1 (hpos d (by simp)).1 (hpos d (by simp)).2,
      (hG.linear gd hgd).map_zero, zero_xor, (h.eliminate_linear d.1).map_zero] at he
    exact h.two c.1 d.1 (hpos c (by simp)).1 hcd (hpos d (by simp)).2 (hG.faithful gc hgc _ he)
  | [d, c, b] =>
    obtain ⟨gd, hgd, hd⟩ := column d (by simp)
    obtain ⟨gc, hgc, hc⟩ := column c (by simp)
    obtain ⟨gb, hgb, hb⟩ := column b (by simp)
    have hcd : c.1 < d.1 := by
      simp only [List.pairwise_cons, List.mem_cons] at hdec
      exact hdec.1 c (Or.inl rfl)
    have hbc : b.1 < c.1 := by
      simp only [List.pairwise_cons, List.mem_cons] at hdec
      exact hdec.2.1 b (Or.inl rfl)
    intro hz
    rw [columnSum, columnSum, columnSum, columnSum, xor_zero, h.forget_linear, h.forget_linear,
      hd, hc, hb] at hz
    have he := congrArg (E d.1) hz
    rw [h.eliminate_linear, h.eliminate_linear, h.eliminate_scalar _ gd hgd,
      h.eliminate_scalar _ gc hgc, h.eliminate_scalar _ gb hgb,
      h.eliminate_column d.1 (hpos d (by simp)).1 (hpos d (by simp)).2,
      (hG.linear gd hgd).map_zero, zero_xor, (h.eliminate_linear d.1).map_zero,
      xor_eq_zero_iff] at he
    have hshape := congrArg shape he
    rw [h.shape_scalar gc hgc, h.shape_scalar gb hgb] at hshape
    exact h.three b.1 c.1 d.1 (hpos b (by simp)).1 hbc hcd (hpos d (by simp)).2 hshape
  | _ :: _ :: _ :: _ :: _ => simp only [List.length_cons] at hlen; omega

omit [XorOp V] [LawfulXor V] in
theorem iterate_eq_zero (hinj : ∀ x, T x = 0 → x = 0) (d : ℕ) (x : V) (hx : T^[d] x = 0) : x = 0 := by
  induction d generalizing x with
  | zero => exact hx
  | succ d ih => exact hinj x (ih (T x) hx)

theorem columnSum_lowest (hT : XorLinear T) (ts : List (ℕ × V)) (b : ℕ × V)
    (habove : ∀ t ∈ ts, b.1 < t.1) :
    columnSum T (ts ++ [b]) =
      T^[b.1] (columnSum T (ts.map fun t => (t.1 - b.1, t.2)) ^^^ b.2) := by
  have hback : (ts.map fun t => (t.1 - b.1, t.2)).map (fun t : ℕ × V => (t.1 + b.1, t.2)) = ts := by
    rw [List.map_map]
    conv_rhs => rw [← List.map_id ts]
    refine List.map_congr_left fun t ht => ?_
    have hlt := habove t ht
    simp only [Function.comp_apply, id_eq]
    rw [Nat.sub_add_cancel hlt.le]
  have happ : ∀ xs : List (ℕ × V), columnSum T (xs ++ [b]) = columnSum T xs ^^^ T^[b.1] b.2 := by
    intro xs
    induction xs with
    | nil => rw [List.nil_append, columnSum, columnSum, columnSum, xor_zero, zero_xor]
    | cons x xs ih => rw [List.cons_append, columnSum, ih, columnSum, xor_assoc]
  rw [happ, hT.iterate, ← columnSum_shift hT, hback]

/-- **Four errors are detected**: a word of at most `n` symbols, one to four of them non-zero, does
not leave the register at zero. -/
theorem ColumnTest.feed_ne_zero [DecidableEq V] (hT : XorLinear T) (hinj : ∀ x, T x = 0 → x = 0)
    (hG : Scalars T G) (h : ColumnTest T G u n P E shape) {word : List V} (hlen : word.length ≤ n)
    (hsym : ∀ v ∈ word, v ≠ 0 → ∃ g ∈ G, v = g u)
    (hlow : 1 ≤ word.countP (· ≠ 0)) (hhigh : word.countP (· ≠ 0) ≤ 4) : feed T 0 word ≠ 0 := by
  rw [feed_zero_eq_columnSum hT]
  rw [← support_length] at hlow hhigh
  have hsupp : ∀ t ∈ support word, (∃ g ∈ G, t.2 = g u) ∧ t.1 < n ∧ t.2 ≠ 0 := fun t ht =>
    ⟨hsym t.2 (support_symbol ht).1 (support_symbol ht).2,
      lt_of_lt_of_le (support_lt_length ht) hlen, (support_symbol ht).2⟩
  have hdec := support_decreasing word
  -- Split off the lowest symbol `b`; the others lie above it.
  obtain ⟨ts, b, hts⟩ : ∃ ts b, support word = ts ++ [b] :=
    ⟨_, _, (List.dropLast_append_getLast (List.ne_nil_of_length_pos hlow)).symm⟩
  rw [hts] at hhigh hsupp hdec ⊢
  obtain ⟨hdts, -, hbelow⟩ := List.pairwise_append.mp hdec
  have habove : ∀ t ∈ ts, b.1 < t.1 := fun t ht => hbelow t ht b (by simp)
  obtain ⟨⟨g, hg, hbu⟩, -, hb0⟩ := hsupp b (by simp)
  rw [columnSum_lowest hT ts b habove]
  intro hz
  have hz := iterate_eq_zero hinj b.1 _ hz
  by_cases hnil : ts = []
  · subst hnil
    rw [List.map_nil, columnSum, zero_xor] at hz
    exact hb0 hz
  have hshifted : P (columnSum T (ts.map fun t => (t.1 - b.1, t.2))) = 0 := by
    have hp := congrArg P hz
    rwa [h.forget_linear, h.forget_linear.map_zero, hbu, h.forget_scalar g hg, h.forget_symbol,
      (hG.linear g hg).map_zero, xor_zero] at hp
  refine h.forget_ne_zero hG ?_ ?_ ?_ ?_ ?_ hshifted
  · intro t ht
    obtain ⟨s, hs, rfl⟩ := List.mem_map.mp ht
    exact (hsupp s (by simp [hs])).1
  · intro t ht
    obtain ⟨s, hs, rfl⟩ := List.mem_map.mp ht
    have h1 := habove s hs
    have h2 := (hsupp s (by simp [hs])).2.1
    dsimp only
    omega
  · rw [List.pairwise_map]
    refine hdts.imp_of_mem fun {a c} ha hc hac => ?_
    have h1 := habove a ha
    have h2 := habove c hc
    dsimp only
    omega
  · simpa using hnil
  · simp only [List.length_append, List.length_map, List.length_cons, List.length_nil] at hhigh ⊢
    omega

end Elimination
end Foundations
