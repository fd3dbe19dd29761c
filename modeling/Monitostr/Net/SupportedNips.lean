import Monitostr.Model.StatsLog
import Monitostr.Net.RelaySessionSupport
import Monitostr.Utils.JsonText

/-! # The NIPs of a relay

`ParseSupportedNipsFromNip11Body` keeps the low 32 bits of every integer in the list of the relay, without a
look at the others. So it also reports what a number that is too large leaves of itself.
-/

namespace Monitostr.Net
open Model
set_option autoImplicit false

/-- The elements of the array under `supported_nips`. -/
def supportedNipsOf (pf : Platform) (responseBody : Str) (values : List Json) : Prop :=
  (pf.parseJson responseBody).bind (Json.member? (lit "supported_nips")) = some (.array values)

/-- The integers of type `int`. -/
def IsInt (n : ℤ) : Prop := -2 ^ 31 ≤ n ∧ n < 2 ^ 31

/-- What a list of NIPs is for: it is strictly increasing, has the integers of type `int` that the relay lists,
and no others, and the store keeps it as it is. -/
structure ReportsListed (values : List Json) (nips : List Int32) : Prop where
  increasing : nips.Pairwise (· < ·)
  listed : ∀ n : ℤ, (∃ nip ∈ nips, nip.toInt = n) ↔ Json.integer n ∈ values ∧ IsInt n
  stored : ∀ (stats : RelayStats) (relayUrl : Str),
    ((stats.setSupportedNips relayUrl nips).lookup relayUrl).map RelayStat.supportedNips = some nips

/-! ## The store -/

theorem sortUnique_eq_self {nips : List Int32} (h : nips.Pairwise (· < ·)) :
    RelayStats.sortUnique nips = nips := by
  have hasymm : ∀ a b : Int32, a < b → b < a → a = b := fun a b hab hba =>
    absurd hba (Int32.lt_asymm hab)
  have hperm : (RelayStats.sortUnique nips).Perm nips := by
    have hnodup : ∀ {l : List Int32}, l.Pairwise (· < ·) → l.Nodup :=
      fun hl => hl.imp fun hab => Int32.ne_of_lt hab
    refine (List.perm_ext_iff_of_nodup (hnodup (sortUnique_pairwise nips)) (hnodup h)).mpr ?_
    exact fun nip => mem_sortUnique
  exact hperm.eq_of_pairwise (fun a b _ _ => hasymm a b) (sortUnique_pairwise nips) h

theorem setSupportedNips_stored {nips : List Int32} (h : nips.Pairwise (· < ·)) (stats : RelayStats)
    (relayUrl : Str) :
    ((stats.setSupportedNips relayUrl nips).lookup relayUrl).map RelayStat.supportedNips =
      some nips := by
  unfold RelayStats.setSupportedNips
  rw [RelayStats.lookup_update, Function.update_self]
  show some (RelayStats.sortUnique nips) = some nips
  rw [sortUnique_eq_self h]

/-! ## The body -/

section Body
variable {pf : Platform} {responseBody : Str} {values : List Json}

/-- What is reported: the low 32 bits of every integer in the array. -/
theorem mem_parse (h : supportedNipsOf pf responseBody values) (nip : Int32) :
    nip ∈ parseSupportedNipsFromNip11Body pf responseBody ↔
      ∃ n, Json.integer n ∈ values ∧ Int32.ofInt n = nip := by
  unfold supportedNipsOf at h
  unfold parseSupportedNipsFromNip11Body
  rw [h]
  show nip ∈ RelayStats.sortUnique (values.filterMap _) ↔ _
  rw [mem_sortUnique, List.mem_filterMap]
  constructor
  · rintro ⟨value, hvalue, hsome⟩
    cases value with
    | integer n => exact ⟨n, hvalue, Option.some.inj hsome⟩
    | _ => cases hsome
  · rintro ⟨n, hn, rfl⟩
    exact ⟨_, hn, rfl⟩

theorem parse_increasing (pf : Platform) (responseBody : Str) :
    (parseSupportedNipsFromNip11Body pf responseBody).Pairwise (· < ·) := by
  unfold parseSupportedNipsFromNip11Body
  split
  · exact sortUnique_pairwise _
  · exact List.Pairwise.nil

theorem toInt_isInt (nip : Int32) : IsInt nip.toInt := ⟨nip.le_toInt, nip.toInt_lt⟩

/-- The low 32 bits of an integer, as an `int`, are the integer itself only when it is one. -/
theorem bmod_eq_self {n : ℤ} (h : IsInt n) : n.bmod (2 ^ 32) = n := by
  obtain ⟨hlow, hhigh⟩ := h
  exact Int.bmod_eq_of_le (by omega) (by omega)

theorem reported_iff (h : supportedNipsOf pf responseBody values) (n : ℤ) :
    (∃ nip ∈ parseSupportedNipsFromNip11Body pf responseBody, nip.toInt = n) ↔
      ∃ k, Json.integer k ∈ values ∧ k.bmod (2 ^ 32) = n := by
  simp only [mem_parse h]
  constructor
  · rintro ⟨_, ⟨k, hk, rfl⟩, rfl⟩
    exact ⟨k, hk, Int32.toInt_ofInt.symm⟩
  · rintro ⟨k, hk, rfl⟩
    exact ⟨_, ⟨k, hk, rfl⟩, Int32.toInt_ofInt⟩

theorem isInt_bmod (k : ℤ) : IsInt (k.bmod (2 ^ 32)) := by
  have h : (Int32.ofInt k).toInt = k.bmod (2 ^ 32) := Int32.toInt_ofInt
  exact h ▸ toInt_isInt _

/-- The list is what it is for, when it has no other numbers than the array. -/
theorem reportsListed_iff (h : supportedNipsOf pf responseBody values) :
    ReportsListed values (parseSupportedNipsFromNip11Body pf responseBody) ↔
      ∀ k, Json.integer k ∈ values → Json.integer (k.bmod (2 ^ 32)) ∈ values := by
  constructor
  · intro hreports k hk
    exact ((hreports.listed _).mp ((reported_iff h _).mpr ⟨k, hk, rfl⟩)).1
  · intro hall
    refine ⟨parse_increasing pf responseBody, fun n => ?_,
      setSupportedNips_stored (parse_increasing pf responseBody)⟩
    rw [reported_iff h]
    constructor
    · rintro ⟨k, hk, rfl⟩
      exact ⟨hall k hk, isInt_bmod k⟩
    · rintro ⟨hn, hint⟩
      exact ⟨n, hn, bmod_eq_self hint⟩

/-- **The NIPs of a relay** are reported as it lists them, exactly when every integer that is too large leaves a
number that is listed as well. -/
theorem supportedNips_iff (h : supportedNipsOf pf responseBody values) :
    ReportsListed values (parseSupportedNipsFromNip11Body pf responseBody) ↔
      ∀ k, Json.integer k ∈ values → ¬ IsInt k → Json.integer (k.bmod (2 ^ 32)) ∈ values := by
  rw [reportsListed_iff h]
  refine forall_congr' fun k => ⟨fun hall hk _ => hall hk, fun hall hk => ?_⟩
  by_cases hint : IsInt k
  · rwa [bmod_eq_self hint]
  · exact hall hk hint

end Body

/-! ## A number that is too large -/

/-- The response with a list of integers. -/
def nipsBody (ns : List ℤ) : Json :=
  .object [(lit "supported_nips", .array (ns.map Json.integer))]

theorem nipsBody_plain {ns : List ℤ} (h : ∀ n ∈ ns, -2 ^ 63 ≤ n ∧ n < 2 ^ 64) : (nipsBody ns).Plain := by
  refine .object (List.pairwise_singleton _ _) ?_ ?_
  · simp only [List.mem_singleton, forall_eq]
    exact isUtf8_of_all rfl
  · simp only [List.mem_singleton, forall_eq]
    exact .array (List.forall_mem_map.mpr fun n hn => .integer (h n hn).1 (h n hn).2)

theorem supportedNipsOf_nipsBody {ns : List ℤ} (h : ∀ n ∈ ns, -2 ^ 63 ≤ n ∧ n < 2 ^ 64) :
    supportedNipsOf textPlatform (nipsBody ns).text (ns.map Json.integer) := by
  show (readText (nipsBody ns).text).bind _ = _
  rw [readText_text (nipsBody_plain h)]
  rfl

/-- The list has `1` twice, and the number that is too large leaves it once more. -/
theorem supportedNips_iff_repeated :
    ReportsListed ([11, 1, 4294967297, 1].map Json.integer)
        (parseSupportedNipsFromNip11Body textPlatform (nipsBody [11, 1, 4294967297, 1]).text) := by
  refine (supportedNips_iff (supportedNipsOf_nipsBody (by decide))).mpr fun k hk hlarge => ?_
  obtain ⟨n, hn, heq⟩ := List.mem_map.mp hk
  obtain rfl : n = k := Json.integer.inj heq
  simp only [List.mem_cons, List.not_mem_nil, or_false] at hn
  rcases hn with rfl | rfl | rfl | rfl <;> simp [IsInt] at hlarge ⊢

/-- The list of `4294967297` is reported as that of NIP 1. -/
theorem large_number_reported :
    (nipsBody [4294967297]).text = lit "\x7b\"supported_nips\":[4294967297]\x7d" ∧
      ¬ ReportsListed [.integer 4294967297]
        (parseSupportedNipsFromNip11Body textPlatform (nipsBody [4294967297]).text) := by
  refine ⟨by decide, fun hreports => ?_⟩
  have hbody : supportedNipsOf textPlatform (nipsBody [4294967297]).text [.integer 4294967297] :=
    supportedNipsOf_nipsBody (by decide)
  have hlisted := (reportsListed_iff hbody).mp hreports 4294967297 List.mem_cons_self
  have heq := List.mem_singleton.mp hlisted
  rw [Json.integer.injEq] at heq
  exact absurd heq (by decide)

end Monitostr.Net
