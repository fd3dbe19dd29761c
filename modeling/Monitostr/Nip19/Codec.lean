import Monitostr.Nip19.Checksum
import Monitostr.Nip19.ConvertBits

/-! # Encoding and decoding of 32-byte payloads

`decodeBech32_32Bytes_ok_iff` says what the decoder accepts, stage by stage. Two regroupings undo
each other, six symbols pass the checksum only when they are the created ones, and the character map
is exact on the 32 characters of the charset. It maps one more byte to a value: `strchr` finds the
NUL that ends the charset. `ConvertBits` refuses the value 32 among the data symbols, nothing refuses
it among the six symbols of the checksum.
-/

namespace Monitostr.Nip19
open Foundations
set_option autoImplicit false

/-! ## Characters and their values -/

/-- The value that the decoder pushes for a character it finds in the charset. -/
def valueOf (c : UInt8) : UInt8 := UInt8.ofNat (charToValue c).toNat

theorem kCharset_bytes : kCharset = [113, 112, 122, 114, 121, 57, 120, 56, 103, 102, 50, 116, 118, 100,
    119, 48, 115, 51, 106, 110, 53, 52, 107, 104, 99, 101, 54, 109, 117, 97, 55, 108] := by
  decide

theorem kCharset_nodup : (kCharset ++ [0]).Nodup := by
  rw [kCharset_bytes]
  decide

theorem kCharset_length : kCharset.length = 32 := by
  rw [kCharset_bytes]
  rfl

theorem kCharset_spec : ∀ c ∈ kCharset, isUpper c = false ∧ c ≠ 49 ∧ c ≠ 0 := by
  have hall : kCharset.all (fun c => !isUpper c && (c != 49 && c != 0)) = true := by
    rw [kCharset_bytes]
    rfl
  simpa using hall

/-- In a string that has each byte once, `strchr` finds the place of the byte. -/
theorem strchr_eq_some {s : Str} (hs : (s ++ [0]).Nodup) {c : UInt8} {p : ℕ} :
    strchr s c = some p ↔ (s ++ [0])[p]? = some c := by
  rw [strchr, List.findIdx?_eq_some_iff_getElem, List.getElem?_eq_some_iff]
  constructor
  · rintro ⟨hp, hc, -⟩
    exact ⟨hp, eq_of_beq hc⟩
  · rintro ⟨hp, rfl⟩
    refine ⟨hp, beq_self_eq_true _, fun j hj hjp => ?_⟩
    have heq := (hs.getElem_inj_iff).mp (eq_of_beq hjp)
    omega

theorem charToValue_of_getElem? {p : ℕ} {c : UInt8} (h : kCharset[p]? = some c) :
    charToValue c = p := by
  have hplace : (kCharset ++ [0])[p]? = some c := by
    rw [List.getElem?_append_left (List.getElem?_eq_some_iff.mp h).1, h]
  rw [charToValue, (strchr_eq_some kCharset_nodup).mpr hplace]

/-- A character that has a value is at its place in the charset, or is NUL. -/
theorem getElem?_of_charToValue {c : UInt8} (h : 0 ≤ charToValue c) (h0 : c ≠ 0) :
    ∃ p < 32, kCharset[p]? = some c := by
  rw [charToValue] at h
  cases hplace : strchr kCharset c with
  | none =>
    rw [hplace] at h
    exact absurd h (by decide)
  | some p =>
    rw [strchr_eq_some kCharset_nodup] at hplace
    have hp := (List.getElem?_eq_some_iff.mp hplace).1
    rw [List.length_append, kCharset_length, List.length_singleton] at hp
    rcases Nat.lt_or_ge p 32 with hlt | hge
    · rw [List.getElem?_append_left (kCharset_length ▸ hlt)] at hplace
      exact ⟨p, hlt, hplace⟩
    · obtain rfl : p = 32 := by omega
      rw [List.getElem?_append_right kCharset_length.le, kCharset_length] at hplace
      exact absurd (Option.some.inj hplace).symm h0

theorem charOfValue_of_getElem? {p : ℕ} {c : UInt8} (hp : p < 32) (h : kCharset[p]? = some c) :
    charOfValue (UInt8.ofNat p) = c := by
  have hplace : (UInt8.ofNat p &&& 0x1f).toNat = p := by
    have hmod : p % 2 ^ 8 = p := Nat.mod_eq_of_lt (by omega)
    rw [UInt8.toNat_and, UInt8.toNat_ofNat', hmod]
    exact (Nat.and_two_pow_sub_one_eq_mod p 5).trans (Nat.mod_eq_of_lt hp)
  rw [charOfValue, hplace, List.getD_eq_getElem?_getD, h, Option.getD_some]

theorem charOfValue_spec (v : UInt8) (hv : v.toNat < 32) :
    0 ≤ charToValue (charOfValue v) ∧ valueOf (charOfValue v) = v ∧ charOfValue v ∈ kCharset := by
  have hplace := List.getElem?_eq_getElem (kCharset_length ▸ hv : v.toNat < kCharset.length)
  have hchar := charOfValue_of_getElem? hv hplace
  rw [UInt8.ofNat_toNat] at hchar
  rw [← hchar] at hplace
  have hvalue := charToValue_of_getElem? hplace
  refine ⟨hvalue ▸ Int.natCast_nonneg _, ?_, List.mem_of_getElem? hplace⟩
  rw [valueOf, hvalue, Int.toNat_natCast, UInt8.ofNat_toNat]

theorem valueOf_spec (c : UInt8) (h : 0 ≤ charToValue c) (h0 : c ≠ 0) :
    charOfValue (valueOf c) = c ∧ (valueOf c).toNat < 32 := by
  obtain ⟨p, hp, hplace⟩ := getElem?_of_charToValue h h0
  rw [valueOf, charToValue_of_getElem? hplace, Int.toNat_natCast]
  refine ⟨charOfValue_of_getElem? hp hplace, ?_⟩
  rw [UInt8.toNat_ofNat']
  exact (Nat.mod_le _ _).trans_lt hp

/-- A byte that is no letter comes from itself only. -/
theorem toLower_eq_iff {c d : UInt8} (hupper : isUpper d = false) (hlower : isLower d = false) :
    toLower c = d ↔ c = d := by
  cases hc : isUpper c with
  | false => rw [toLower_of_not_isUpper hc]
  | true =>
    refine iff_of_false ?_ ?_
    · rintro rfl
      rw [toLower, hc, if_pos rfl] at hlower
      simp [isUpper, isLower, UInt8.le_iff_toNat_le, UInt8.toNat_add] at hc hlower
      omega
    · rintro rfl
      rw [hc] at hupper
      cases hupper

theorem toLower_eq_separator (c : UInt8) : toLower c = 49 ↔ c = 49 :=
  toLower_eq_iff (by decide) (by decide)

theorem toLower_eq_nul (c : UInt8) : toLower c = 0 ↔ c = 0 :=
  toLower_eq_iff (by decide) (by decide)

theorem charToValue_toLower_nonneg (c : UInt8) (h : 0 ≤ charToValue (toLower c)) (h0 : c ≠ 0) :
    toLower c ∈ kCharset := by
  obtain ⟨p, -, hplace⟩ := getElem?_of_charToValue h (mt (toLower_eq_nul c).mp h0)
  exact List.mem_of_getElem? hplace

theorem charsToValues_eq_some {cs data : List UInt8} :
    charsToValues cs = some data ↔ (∀ c ∈ cs, 0 ≤ charToValue c) ∧ data = cs.map valueOf := by
  induction cs generalizing data with
  | nil => simp [charsToValues, eq_comm]
  | cons c cs ih =>
    rw [charsToValues]
    by_cases hc : charToValue c < 0
    · rw [if_pos hc]
      simp [hc]
    · rw [if_neg hc, Option.map_eq_some_iff]
      simp only [ih, List.forall_mem_cons, List.map_cons]
      constructor
      · rintro ⟨rest, ⟨hcs, rfl⟩, rfl⟩
        exact ⟨⟨not_lt.mp hc, hcs⟩, rfl⟩
      · rintro ⟨⟨-, hcs⟩, rfl⟩
        exact ⟨_, ⟨hcs, rfl⟩, rfl⟩

/-! ## The last separator -/

theorem rfind_eq_none {s : Str} {c : UInt8} : rfind s c = none ↔ c ∉ s := by
  induction s with
  | nil => simp [rfind]
  | cons x s ih =>
    rw [rfind]
    cases h : rfind s c with
    | none =>
      have hs : c ∉ s := ih.mp h
      by_cases hx : x = c
      · simp [hx]
      · simp [hx, hs, Ne.symm hx]
    | some i =>
      have hs : c ∈ s := by
        by_contra hn
        rw [ih.mpr hn] at h
        cases h
      simp [hs]

theorem rfind_append_cons {a b : Str} {c : UInt8} (h : c ∉ b) :
    rfind (a ++ c :: b) c = some a.length := by
  induction a with
  | nil => simp [rfind, rfind_eq_none.mpr h]
  | cons x a ih => simp [rfind, ih]

theorem rfind_eq_some {s : Str} {c : UInt8} {i : ℕ} (h : rfind s c = some i) :
    ∃ a b, s = a ++ c :: b ∧ c ∉ b ∧ a.length = i := by
  induction s generalizing i with
  | nil => cases h
  | cons x s ih =>
    rw [rfind] at h
    cases hs : rfind s c with
    | none =>
      rw [hs] at h
      obtain ⟨hx, hi⟩ : x = c ∧ 0 = i := by
        by_cases hx : x = c
        · exact ⟨hx, by simpa [hx] using h⟩
        · simp [hx] at h
      exact ⟨[], s, by rw [hx, List.nil_append], rfind_eq_none.mp hs, hi⟩
    | some j =>
      rw [hs] at h
      obtain ⟨a, b, rfl, hb, rfl⟩ := ih hs
      exact ⟨x :: a, b, rfl, hb, Option.some.inj h⟩

/-! ## What the decoder accepts -/

/-- The parts of the input that pass the character stages of `DecodeBech32_32Bytes`. -/
structure Framed (input hrp chars : Str) : Prop where
  oneCase : ¬ (input.any isLower = true ∧ input.any isUpper = true)
  normal : toLowerCopy input = hrp ++ 49 :: chars
  last : 49 ∉ chars
  hrp_ne : hrp ≠ []
  six : 6 ≤ chars.length
  known : ∀ c ∈ chars, 0 ≤ charToValue c

/-- Each test of the decoder that an accepted input passes gives one of the conditions. -/
theorem framed_of_decodeBech32_32Bytes {input hrp : Str} {bytes : List UInt8}
    (h : decodeBech32_32Bytes input hrp = .ok bytes) : ∃ chars, Framed input hrp chars ∧
      verifyChecksum hrp (chars.map valueOf) = true ∧
      convertBits ((chars.map valueOf).take (chars.length - 6)) 5 8 false = some bytes ∧
      bytes.length = 32 := by
  rw [decodeBech32_32Bytes] at h
  split at h
  · cases h
  split at h
  · cases h
  next hcase =>
  rw [Bool.and_eq_true] at hcase
  dsimp only at h
  split at h
  · cases h
  next sep hsep =>
  obtain ⟨a, b, hab, hb, rfl⟩ := rfind_eq_some hsep
  rw [hab, List.take_left, List.drop_append, List.drop_eq_nil_of_le (by omega),
    Nat.add_sub_cancel_left, List.drop_one, List.tail_cons, List.nil_append] at h
  split at h
  · cases h
  next hsize =>
  split at h
  · cases h
  next hhrp =>
  obtain rfl := not_not.mp hhrp
  split at h
  · cases h
  next data hdata =>
  obtain ⟨hknown, rfl⟩ := charsToValues_eq_some.mp hdata
  split at h
  · cases h
  next hsum =>
  split at h
  · cases h
  next out hout =>
  split at h
  · cases h
  next hlen =>
  obtain rfl := Except.ok.inj h
  rw [List.length_append, List.length_cons] at hsize
  rw [List.length_map] at hout
  refine ⟨b, ⟨hcase, hab, hb, ?_, by omega, hknown⟩, by simpa using hsum, hout, not_not.mp hlen⟩
  rintro rfl
  exact hsize (.inl rfl)

theorem Framed.decodes {input hrp chars : Str} {bytes : List UInt8}
    (hf : Framed input hrp chars) (hsum : verifyChecksum hrp (chars.map valueOf) = true)
    (hout : convertBits ((chars.map valueOf).take (chars.length - 6)) 5 8 false = some bytes)
    (hlen : bytes.length = 32) : decodeBech32_32Bytes input hrp = .ok bytes := by
  have hne : input.isEmpty = false := by
    cases input with
    | nil => simpa [toLowerCopy] using hf.normal
    | cons c input => rfl
  have hcase : ¬ (input.any isLower && input.any isUpper) = true := by
    rw [Bool.and_eq_true]
    exact hf.oneCase
  have hsize : ¬ (hrp.length = 0 ∨ hrp.length + 7 > (hrp ++ 49 :: chars).length) := by
    have h6 := hf.six
    have h0 := List.length_pos_of_ne_nil hf.hrp_ne
    rw [List.length_append, List.length_cons]
    omega
  have hdata : charsToValues chars = some (chars.map valueOf) :=
    charsToValues_eq_some.mpr ⟨hf.known, rfl⟩
  rw [decodeBech32_32Bytes, if_neg (by simp [hne]), if_neg hcase]
  dsimp only
  rw [hf.normal, rfind_append_cons hf.last]
  dsimp only
  rw [if_neg hsize, List.take_left, if_neg (by simp), List.drop_append,
    List.drop_eq_nil_of_le (by omega), Nat.add_sub_cancel_left, List.drop_one, List.tail_cons,
    List.nil_append, hdata]
  dsimp only
  rw [hsum, List.length_map, hout]
  dsimp only
  rw [if_neg (by simp), if_neg (not_not.mpr hlen)]

/-- **The accepted inputs**: the stages of the decoder in one condition. -/
theorem decodeBech32_32Bytes_ok_iff {input hrp : Str} {bytes : List UInt8} :
    decodeBech32_32Bytes input hrp = .ok bytes ↔ ∃ chars, Framed input hrp chars ∧
      verifyChecksum hrp (chars.map valueOf) = true ∧
      convertBits ((chars.map valueOf).take (chars.length - 6)) 5 8 false = some bytes ∧
      bytes.length = 32 := by
  constructor
  · exact framed_of_decodeBech32_32Bytes
  · rintro ⟨chars, hf, hsum, hout, hlen⟩
    exact hf.decodes hsum hout hlen

/-! ## Regrouping back and forth -/

/-- Regrouping to bytes without filling and regrouping to symbols with filling undo each other,
on exactly the words that either accepts. -/
theorem convertBits_inverse {data bytes : List UInt8} :
    convertBits data 5 8 false = some bytes ↔
      convertBits bytes 8 5 true = some data := by
  have hdom : ∀ {w : ℕ} {xs : List UInt8},
      (∀ d ∈ xs.map UInt8.toNat, d < 2 ^ w) ↔ ∀ x ∈ xs, x.toNat < 2 ^ w := by
    intro w xs
    simp
  have hbytes : ∀ x ∈ bytes, x.toNat < 2 ^ 8 := fun x _ => x.toNat_lt
  rw [convertBits_drop (by decide) (by decide) (by decide) (by decide),
    convertBits_pad (by decide) (by decide) (by decide) (by decide)]
  constructor
  · rintro ⟨hdata, hrest, hleft, hout⟩
    refine ⟨hbytes, ?_⟩
    rw [hout]
    exact (regroupPad_regroupDrop (by decide) (hdom.mpr hdata)
      (by rwa [List.length_map]) hleft).symm
  · rintro ⟨-, hdata⟩
    obtain ⟨hrest, hleft, hback⟩ :=
      regroupDrop_regroupPad (w := 5) (by decide) (by decide) (hdom.mpr hbytes)
    rw [← hdata] at hrest hleft hback
    refine ⟨?_, ?_, hleft, hback.symm⟩
    · rw [← hdom, hdata]
      exact fun d hd => radixDigits_lt hd
    · rw [List.length_map] at hrest
      rw [hrest]
      exact padBits_lt _ _ (by decide)

theorem convertBits_symbols (bytes : List UInt8) :
    ∃ data, convertBits bytes 8 5 true = some data ∧ ∀ d ∈ data, d.toNat < 32 := by
  have hlt : ∀ d ∈ regroupPad 8 5 (bytes.map UInt8.toNat), d < 32 := fun d hd => radixDigits_lt hd
  refine ⟨(regroupPad 8 5 (bytes.map UInt8.toNat)).map UInt8.ofNat, ?_, ?_⟩
  · rw [convertBits_pad (by decide) (by decide) (by decide) (by decide), List.map_map]
    refine ⟨fun x _ => x.toNat_lt, ?_⟩
    conv_rhs => rw [← List.map_id (regroupPad 8 5 (bytes.map UInt8.toNat))]
    refine List.map_congr_left fun d hd => ?_
    have h := hlt d hd
    exact UInt8.toNat_ofNat_of_lt' (by change d < 256; omega)
  · intro c hc
    obtain ⟨d, hd, rfl⟩ := List.mem_map.mp hc
    have h := hlt d hd
    rwa [UInt8.toNat_ofNat_of_lt' (by change d < 256; omega)]

/-! ## Encoded strings -/

def wordChars (hrp : Str) (data : List UInt8) : Str :=
  (data ++ createChecksum hrp data).map charOfValue

theorem encodeBech32_32Bytes_eq {hrp : Str} {bytes data : List UInt8} (hlen : bytes.length = 32)
    (hdata : convertBits bytes 8 5 true = some data) :
    encodeBech32_32Bytes hrp bytes = hrp ++ 49 :: wordChars hrp data := by
  rw [encodeBech32_32Bytes, if_neg (not_not.mpr hlen), hdata]
  dsimp only
  rw [wordChars, List.map_append, List.append_assoc, List.append_assoc, List.singleton_append]

theorem word_lt {hrp : Str} {data : List UInt8} (hdata : ∀ d ∈ data, d.toNat < 32) :
    ∀ v ∈ data ++ createChecksum hrp data, v.toNat < 32 := by
  intro v hv
  rcases List.mem_append.mp hv with hv | hv
  · exact hdata v hv
  · exact createChecksum_lt hv

theorem wordChars_mem {hrp : Str} {data : List UInt8} (hdata : ∀ d ∈ data, d.toNat < 32) {c : UInt8}
    (hc : c ∈ wordChars hrp data) : c ∈ kCharset := by
  obtain ⟨v, hv, rfl⟩ := List.mem_map.mp hc
  exact (charOfValue_spec v (word_lt hdata v hv)).2.2

theorem map_valueOf_wordChars {hrp : Str} {data : List UInt8} (hdata : ∀ d ∈ data, d.toNat < 32) :
    (wordChars hrp data).map valueOf = data ++ createChecksum hrp data := by
  rw [wordChars, List.map_map]
  conv_rhs => rw [← List.map_id (data ++ createChecksum hrp data)]
  exact List.map_congr_left fun v hv => (charOfValue_spec v (word_lt hdata v hv)).2.1

theorem verifyChecksum_wordChars {hrp : Str} {data : List UInt8}
    (hdata : ∀ d ∈ data, d.toNat < 32) :
    verifyChecksum hrp ((wordChars hrp data).map valueOf) = true := by
  rw [map_valueOf_wordChars hdata]
  exact (verifyChecksum_append hrp data (createChecksum_length hrp data)
    fun c hc => createChecksum_lt hc).mpr rfl

theorem wordChars_length (hrp : Str) (data : List UInt8) :
    (wordChars hrp data).length = data.length + 6 := by
  rw [wordChars, List.length_map, List.length_append, createChecksum_length]

theorem decode_of_fold_eq_encode {input hrp : Str} {bytes : List UInt8} (hhrp : hrp ≠ [])
    (hlen : bytes.length = 32) (hcase : ¬ (input.any isLower = true ∧ input.any isUpper = true))
    (hfold : toLowerCopy input = encodeBech32_32Bytes hrp bytes) :
    decodeBech32_32Bytes input hrp = .ok bytes := by
  obtain ⟨data, hconv, hdata⟩ := convertBits_symbols bytes
  rw [encodeBech32_32Bytes_eq hlen hconv] at hfold
  have hchars : ∀ c ∈ wordChars hrp data, 0 ≤ charToValue c := by
    intro c hc
    obtain ⟨v, hv, rfl⟩ := List.mem_map.mp hc
    exact (charOfValue_spec v (word_lt hdata v hv)).1
  have hsep : 49 ∉ wordChars hrp data := fun h => (kCharset_spec 49 (wordChars_mem hdata h)).2.1 rfl
  refine decodeBech32_32Bytes_ok_iff.mpr ⟨wordChars hrp data,
    ⟨hcase, hfold, hsep, hhrp, ?_, hchars⟩, ?_, ?_, hlen⟩
  · rw [wordChars_length]
    omega
  · exact verifyChecksum_wordChars hdata
  · rw [map_valueOf_wordChars hdata, wordChars_length, Nat.add_sub_cancel, List.take_left]
    exact convertBits_inverse.mpr hconv

theorem fold_eq_encode_of_decode {input hrp : Str} {bytes : List UInt8}
    (h : decodeBech32_32Bytes input hrp = .ok bytes) (hnul : (0 : UInt8) ∉ input) :
    toLowerCopy input = encodeBech32_32Bytes hrp bytes := by
  obtain ⟨chars, hf, hsum, hconv, hlen⟩ := decodeBech32_32Bytes_ok_iff.mp h
  rw [encodeBech32_32Bytes_eq hlen (convertBits_inverse.mp hconv), hf.normal, wordChars]
  -- A character of the fold that is not NUL is the character of its value.
  have hne : ∀ c ∈ chars, c ≠ 0 := by
    rintro c hc rfl
    have hmem : (0 : UInt8) ∈ toLowerCopy input := by
      rw [hf.normal]
      exact List.mem_append_right _ (List.mem_cons_of_mem _ hc)
    obtain ⟨d, hd, hd0⟩ := List.mem_map.mp hmem
    rw [toLower_eq_nul] at hd0
    exact hnul (hd0 ▸ hd)
  have hspec : ∀ c ∈ chars, charOfValue (valueOf c) = c ∧ (valueOf c).toNat < 32 := fun c hc =>
    valueOf_spec c (hf.known c hc) (hne c hc)
  have hback : (chars.map valueOf).map charOfValue = chars := by
    rw [List.map_map]
    conv_rhs => rw [← List.map_id chars]
    exact List.map_congr_left fun c hc => (hspec c hc).1
  have hsplit := List.take_append_drop (chars.length - 6) (chars.map valueOf)
  have hdrop : ((chars.map valueOf).drop (chars.length - 6)).length = 6 := by
    have h6 := hf.six
    rw [List.length_drop, List.length_map]
    omega
  have hcreated : (chars.map valueOf).drop (chars.length - 6) =
      createChecksum hrp ((chars.map valueOf).take (chars.length - 6)) := by
    refine (verifyChecksum_append hrp _ hdrop ?_).mp (by rwa [hsplit])
    intro v hv
    obtain ⟨c, hc, rfl⟩ := List.mem_map.mp (List.mem_of_mem_drop hv)
    exact (hspec c hc).2
  rw [← hcreated, hsplit, hback]

theorem nul_not_mem_encode {hrp : Str} (hhrp : (0 : UInt8) ∉ hrp) (bytes : List UInt8) :
    (0 : UInt8) ∉ encodeBech32_32Bytes hrp bytes := by
  by_cases hlen : bytes.length = 32
  · obtain ⟨data, hconv, hdata⟩ := convertBits_symbols bytes
    rw [encodeBech32_32Bytes_eq hlen hconv]
    intro h
    rcases List.mem_append.mp h with h | h
    · exact hhrp h
    rcases List.mem_cons.mp h with h | h
    · exact absurd h (by decide)
    · exact (kCharset_spec 0 (wordChars_mem hdata h)).2.2 rfl
  · rw [encodeBech32_32Bytes, if_pos hlen]
    exact List.not_mem_nil

end Monitostr.Nip19
