import Monitostr.Nip19.Codec

/-! # Keys in text and back

The encoder's strings decode to what was encoded, in either letter case; and an accepted string is
the encoded one up to letter case, unless it has a NUL byte in it.
-/

namespace Monitostr.Nip19
open Foundations
set_option autoImplicit false

/-! ## Hex -/

theorem nibble_spec : ∀ c : UInt8, isHexDigit c = true →
    0 ≤ nibble c ∧ (nibble c).toNat < 16 ∧ hexDigit (UInt8.ofNat (nibble c).toNat) = toLower c := by
  decide +kernel

theorem nibble_hexDigit : ∀ b : UInt8, 0 ≤ nibble (hexDigit (b >>> (4 : UInt8))) ∧
    0 ≤ nibble (hexDigit (b &&& 15)) ∧
    UInt8.ofNat (((nibble (hexDigit (b >>> (4 : UInt8)))).toNat <<< 4) |||
      (nibble (hexDigit (b &&& 15))).toNat) = b := by
  decide +kernel

theorem byte_of_nibbles : ∀ hi < 16, ∀ lo < 16,
    UInt8.ofNat ((hi <<< 4) ||| lo) >>> (4 : UInt8) = UInt8.ofNat hi ∧
      UInt8.ofNat ((hi <<< 4) ||| lo) &&& 15 = UInt8.ofNat lo := by
  decide

theorem bytesToHex_cons (b : UInt8) (bytes : List UInt8) : bytesToHex (b :: bytes) =
    hexDigit (b >>> (4 : UInt8)) :: hexDigit (b &&& 15) :: bytesToHex bytes := rfl

theorem bytesToHex_length (bytes : List UInt8) : (bytesToHex bytes).length = 2 * bytes.length := by
  induction bytes with
  | nil => rfl
  | cons b bytes ih =>
    rw [bytesToHex_cons, List.length_cons, List.length_cons, ih, List.length_cons]
    omega

theorem bytesToHex_ne_nil {bytes : List UInt8} (hlen : bytes.length = 32) : bytesToHex bytes ≠ [] := by
  refine List.ne_nil_of_length_pos ?_
  rw [bytesToHex_length, hlen]
  decide

theorem hexPairs_bytesToHex (bytes : List UInt8) : hexPairs (bytesToHex bytes) = some bytes := by
  induction bytes with
  | nil => rfl
  | cons b bytes ih =>
    obtain ⟨hhi, hlo, hb⟩ := nibble_hexDigit b
    rw [bytesToHex_cons, hexPairs, if_neg (by omega), ih, Option.map_some, hb]

theorem hexToBytes_bytesToHex (bytes : List UInt8) : hexToBytes (bytesToHex bytes) = bytes := by
  rw [hexToBytes, bytesToHex_length, if_neg (by omega), hexPairs_bytesToHex, Option.getD_some]

theorem hexPairs_of_hex (n : ℕ) (hex : Str) (hlen : hex.length = 2 * n)
    (h : ∀ c ∈ hex, isHexDigit c = true) :
    ∃ bytes, hexPairs hex = some bytes ∧ bytes.length = n ∧ bytesToHex bytes = toLowerCopy hex := by
  induction n generalizing hex with
  | zero =>
    obtain rfl := List.length_eq_zero_iff.mp hlen
    exact ⟨[], rfl, rfl, rfl⟩
  | succ n ih =>
    match hex, hlen with
    | c :: d :: rest, hlen =>
      rw [List.length_cons, List.length_cons] at hlen
      obtain ⟨bytes, hpairs, hbytes, hback⟩ := ih rest (by omega) fun x hx => h x (by simp [hx])
      obtain ⟨hc0, hc16, hc⟩ := nibble_spec c (h c (by simp))
      obtain ⟨hd0, hd16, hd⟩ := nibble_spec d (h d (by simp))
      obtain ⟨hhi, hlo⟩ := byte_of_nibbles _ hc16 _ hd16
      refine ⟨UInt8.ofNat (((nibble c).toNat <<< 4) ||| (nibble d).toNat) :: bytes, ?_, ?_, ?_⟩
      · rw [hexPairs, if_neg (by omega), hpairs, Option.map_some]
      · rw [List.length_cons, hbytes]
      · rw [bytesToHex_cons, hhi, hlo, hc, hd, hback]
        rfl

/-- Hex digits of any case are read as the bytes whose text is the lower-cased digits. -/
theorem bytesToHex_hexToBytes {hex : Str} (hlen : hex.length = 64)
    (h : ∀ c ∈ hex, isHexDigit c = true) :
    (hexToBytes hex).length = 32 ∧ bytesToHex (hexToBytes hex) = toLowerCopy hex := by
  obtain ⟨bytes, hpairs, hbytes, hback⟩ := hexPairs_of_hex 32 hex (by omega) h
  rw [hexToBytes, hlen, if_neg (by decide), hpairs, Option.getD_some]
  exact ⟨hbytes, hback⟩

/-! ## Encoded strings decode -/

theorem encode_ne_nil {hrp : Str} {bytes : List UInt8} (hlen : bytes.length = 32) :
    encodeBech32_32Bytes hrp bytes ≠ [] := by
  obtain ⟨data, hconv, -⟩ := convertBits_symbols bytes
  rw [encodeBech32_32Bytes_eq hlen hconv]
  simp

theorem encode_no_upper {hrp : Str} (hhrp : ∀ c ∈ hrp, isUpper c = false) {bytes : List UInt8} :
    ∀ c ∈ encodeBech32_32Bytes hrp bytes, isUpper c = false := by
  by_cases hlen : bytes.length = 32
  · obtain ⟨data, hconv, hdata⟩ := convertBits_symbols bytes
    rw [encodeBech32_32Bytes_eq hlen hconv]
    intro c hc
    rcases List.mem_append.mp hc with hc | hc
    · exact hhrp c hc
    rcases List.mem_cons.mp hc with rfl | hc
    · rfl
    · exact (kCharset_spec c (wordChars_mem hdata hc)).1
  · rw [encodeBech32_32Bytes, if_pos hlen]
    simp

theorem decode_encode {hrp : Str} (hne : hrp ≠ []) (hhrp : ∀ c ∈ hrp, isUpper c = false)
    {bytes : List UInt8} (hlen : bytes.length = 32) :
    decodeBech32_32Bytes (encodeBech32_32Bytes hrp bytes) hrp = .ok bytes := by
  have hup : ∀ c ∈ encodeBech32_32Bytes hrp bytes, isUpper c = false := encode_no_upper hhrp
  refine decode_of_fold_eq_encode hne hlen ?_ (toLowerCopy_of_no_upper hup)
  rintro ⟨-, hany⟩
  obtain ⟨c, hc, hcu⟩ := List.any_eq_true.mp hany
  rw [hup c hc] at hcu
  cases hcu

theorem decode_upper_encode {hrp : Str} (hne : hrp ≠ []) (hhrp : ∀ c ∈ hrp, isUpper c = false)
    {bytes : List UInt8} (hlen : bytes.length = 32) :
    decodeBech32_32Bytes (toUpperCopy (encodeBech32_32Bytes hrp bytes)) hrp = .ok bytes := by
  have hup : ∀ c ∈ encodeBech32_32Bytes hrp bytes, isUpper c = false := encode_no_upper hhrp
  refine decode_of_fold_eq_encode hne hlen ?_ ?_
  · rintro ⟨hany, -⟩
    rw [toUpperCopy, List.any_map] at hany
    obtain ⟨c, -, hcl⟩ := List.any_eq_true.mp hany
    rw [Function.comp_apply, isLower_toUpper] at hcl
    cases hcl
  · rw [toLowerCopy_toUpperCopy, toLowerCopy_of_no_upper hup]

theorem encodeNpubFromHex_of_bytes {hex : Str} (hlen : (hexToBytes hex).length = 32) :
    encodeNpubFromHex hex =
      { ok := true, npub := encodeBech32_32Bytes (lit "npub") (hexToBytes hex) } := by
  have hne : (encodeBech32_32Bytes (lit "npub") (hexToBytes hex)).isEmpty = false :=
    List.isEmpty_eq_false_iff.mpr (encode_ne_nil hlen)
  rw [encodeNpubFromHex]
  dsimp only
  rw [if_neg (not_not.mpr hlen), hne]
  rfl

theorem npub_no_upper : ∀ c ∈ lit "npub", isUpper c = false := by
  have hall : (lit "npub").all (fun c => !isUpper c) = true := rfl
  simpa using hall

/-- **Round trip**: what the encoder makes of 32 bytes is a string that decodes, as it is and
upper-cased, to these bytes; and hex digits survive the way through an npub, lower-cased. -/
theorem encode_decode_roundTrip :
    (∀ (hrp : Str) (b : List UInt8), hrp ≠ [] → (∀ c ∈ hrp, isUpper c = false) → b.length = 32 →
      encodeBech32_32Bytes hrp b ≠ [] ∧
      decodeBech32_32Bytes (encodeBech32_32Bytes hrp b) hrp = .ok b ∧
      decodeBech32_32Bytes (toUpperCopy (encodeBech32_32Bytes hrp b)) hrp = .ok b) ∧
    (∀ hex : Str, hex.length = 64 → (∀ c ∈ hex, isHexDigit c = true) →
      (encodeNpubFromHex hex).ok = true ∧
      decodeNpubToHex (encodeNpubFromHex hex).npub =
        { ok := true, hexPubkey := toLowerCopy hex }) := by
  refine ⟨fun hrp b hne hhrp hlen => ⟨encode_ne_nil hlen, decode_encode hne hhrp hlen,
    decode_upper_encode hne hhrp hlen⟩, fun hex hlen h => ?_⟩
  obtain ⟨hbytes, hback⟩ := bytesToHex_hexToBytes hlen h
  rw [encodeNpubFromHex_of_bytes hbytes]
  refine ⟨rfl, ?_⟩
  rw [decodeNpubToHex, decode_encode (by decide) npub_no_upper hbytes]
  dsimp only
  rw [hback]

theorem encode_decode_roundTrip_zero :
    decodeBech32_32Bytes (encodeBech32_32Bytes (lit "npub") (List.replicate 32 0)) (lit "npub") =
      .ok (List.replicate 32 0) ∧
    decodeNpubToHex (encodeNpubFromHex (List.replicate 64 70)).npub =
      { ok := true, hexPubkey := List.replicate 64 102 } :=
  ⟨(encode_decode_roundTrip.1 (lit "npub") (List.replicate 32 0) (by decide) npub_no_upper
      (by decide)).2.1,
    (encode_decode_roundTrip.2 (List.replicate 64 70) (by decide) (by decide +kernel)).2⟩

/-! ## Accepted strings are encoded strings -/

def afterSeparator (s : Str) : Str :=
  match rfind s 49 with
  | none => []
  | some sep => s.drop (sep + 1)

/-- `s` is the string `encoded` in one letter case, written in the characters of the charset. -/
structure Canonical (s encoded : Str) : Prop where
  oneCase : ¬ (s.any isLower = true ∧ s.any isUpper = true)
  charset : ∀ c ∈ afterSeparator s, toLower c ∈ kCharset
  folds : encoded = toLowerCopy s

theorem toLowerCopy_afterSeparator {s hrp chars : Str} (hs : toLowerCopy s = hrp ++ 49 :: chars)
    (hlast : 49 ∉ chars) : toLowerCopy (afterSeparator s) = chars := by
  obtain ⟨a, rest, rfl, -, hrest⟩ := List.map_eq_append_iff.mp hs
  obtain ⟨x, b, rfl, hx, hb⟩ := List.map_eq_cons_iff.mp hrest
  obtain rfl := (toLower_eq_separator x).mp hx
  have hlast' : 49 ∉ b := by
    intro h
    have hmem : toLower 49 ∈ b.map toLower := List.mem_map_of_mem h
    rw [hb] at hmem
    exact hlast hmem
  rw [afterSeparator, rfind_append_cons hlast']
  dsimp only
  rw [List.drop_append, List.drop_eq_nil_of_le (by omega), Nat.add_sub_cancel_left, List.drop_one,
    List.tail_cons, List.nil_append]
  exact hb

theorem decode_canonical_iff {input hrp : Str} {bytes : List UInt8} (hhrp : (0 : UInt8) ∉ hrp)
    (h : decodeBech32_32Bytes input hrp = .ok bytes) :
    Canonical input (encodeBech32_32Bytes hrp bytes) ↔ (0 : UInt8) ∉ input := by
  constructor
  · intro hc hnul
    have hmem : toLower 0 ∈ toLowerCopy input := List.mem_map_of_mem hnul
    rw [← hc.folds] at hmem
    exact nul_not_mem_encode hhrp bytes hmem
  · intro hnul
    obtain ⟨chars, hf, -⟩ := decodeBech32_32Bytes_ok_iff.mp h
    refine ⟨hf.oneCase, ?_, (fold_eq_encode_of_decode h hnul).symm⟩
    intro c hc
    have hafter := toLowerCopy_afterSeparator hf.normal hf.last
    have hval : 0 ≤ charToValue (toLower c) := by
      refine hf.known _ ?_
      rw [← hafter]
      exact List.mem_map_of_mem hc
    refine charToValue_toLower_nonneg c hval ?_
    rintro rfl
    refine hnul ?_
    rw [afterSeparator] at hc
    split at hc
    · cases hc
    · exact List.mem_of_mem_drop hc

theorem decodeNpubToHex_ok {npub : Str} (h : (decodeNpubToHex npub).ok = true) :
    ∃ bytes, decodeBech32_32Bytes npub (lit "npub") = .ok bytes ∧ bytes.length = 32 ∧
      (decodeNpubToHex npub).hexPubkey = bytesToHex bytes := by
  rw [decodeNpubToHex] at h ⊢
  cases hd : decodeBech32_32Bytes npub (lit "npub") with
  | error e =>
    rw [hd] at h
    cases h
  | ok bytes =>
    obtain ⟨-, -, -, -, hlen⟩ := decodeBech32_32Bytes_ok_iff.mp hd
    exact ⟨bytes, rfl, hlen, rfl⟩

theorem decodeNsecToHex_ok {nsec : Str} (h : (decodeNsecToHex nsec).ok = true) :
    ∃ bytes, decodeBech32_32Bytes nsec (lit "nsec") = .ok bytes ∧ bytes.length = 32 ∧
      (decodeNsecToHex nsec).hexPrivkey = bytesToHex bytes := by
  rw [decodeNsecToHex] at h ⊢
  cases hd : decodeBech32_32Bytes nsec (lit "nsec") with
  | error e =>
    rw [hd] at h
    cases h
  | ok bytes =>
    obtain ⟨-, -, -, -, hlen⟩ := decodeBech32_32Bytes_ok_iff.mp hd
    exact ⟨bytes, rfl, hlen, rfl⟩

/-- Two accepted strings with one payload, the second without a NUL: they fold to one string exactly
when the first has no NUL either. -/
theorem fold_eq_iff_of_decode_eq {hrp : Str} (hhrp : (0 : UInt8) ∉ hrp) {s s' : Str}
    {bytes : List UInt8} (h : decodeBech32_32Bytes s hrp = .ok bytes)
    (h' : decodeBech32_32Bytes s' hrp = .ok bytes) (hnul' : (0 : UInt8) ∉ s') :
    toLowerCopy s = toLowerCopy s' ↔ (0 : UInt8) ∉ s := by
  rw [fold_eq_encode_of_decode h' hnul', ← decode_canonical_iff hhrp h]
  constructor
  · intro hs
    obtain ⟨chars, hf, -⟩ := decodeBech32_32Bytes_ok_iff.mp h
    refine (decode_canonical_iff hhrp h).mpr fun hnul => ?_
    have hmem : toLower 0 ∈ toLowerCopy s := List.mem_map_of_mem hnul
    rw [hs] at hmem
    exact nul_not_mem_encode hhrp bytes hmem
  · intro hc
    exact hc.folds.symm

theorem bytesToHex_injective : Function.Injective bytesToHex := by
  intro a b hab
  rw [← hexToBytes_bytesToHex a, hab, hexToBytes_bytesToHex]

/-- **Canonical strings**: an accepted key is the encoding of what it decodes to, up to letter case,
exactly when it has no NUL byte. -/
theorem canonical_iff_no_nul (s : Str) :
    ((decodeNpubToHex s).ok = true →
      (Canonical s (encodeNpubFromHex (decodeNpubToHex s).hexPubkey).npub ↔ (0 : UInt8) ∉ s)) ∧
    ((decodeNsecToHex s).ok = true →
      (Canonical s (encodeBech32_32Bytes (lit "nsec") (hexToBytes (decodeNsecToHex s).hexPrivkey)) ↔
        (0 : UInt8) ∉ s)) ∧
    (∀ s' : Str, (decodeNpubToHex s).ok = true → decodeNpubToHex s = decodeNpubToHex s' →
      (0 : UInt8) ∉ s' → (toLowerCopy s = toLowerCopy s' ↔ (0 : UInt8) ∉ s)) ∧
    (∀ s' : Str, (decodeNsecToHex s).ok = true → decodeNsecToHex s = decodeNsecToHex s' →
      (0 : UInt8) ∉ s' → (toLowerCopy s = toLowerCopy s' ↔ (0 : UInt8) ∉ s)) := by
  have hnpub : (0 : UInt8) ∉ lit "npub" := by decide
  have hnsec : (0 : UInt8) ∉ lit "nsec" := by decide
  refine ⟨fun h => ?_, fun h => ?_, fun s' h heq hnul => ?_, fun s' h heq hnul => ?_⟩
  · obtain ⟨bytes, hd, hlen, hhex⟩ := decodeNpubToHex_ok h
    have hback : hexToBytes (decodeNpubToHex s).hexPubkey = bytes := by
      rw [hhex, hexToBytes_bytesToHex]
    rw [encodeNpubFromHex_of_bytes (by rw [hback, hlen]), hback]
    exact decode_canonical_iff hnpub hd
  · obtain ⟨bytes, hd, hlen, hhex⟩ := decodeNsecToHex_ok h
    rw [hhex, hexToBytes_bytesToHex]
    exact decode_canonical_iff hnsec hd
  · obtain ⟨bytes, hd, -, hhex⟩ := decodeNpubToHex_ok h
    obtain ⟨bytes', hd', -, hhex'⟩ := decodeNpubToHex_ok (heq ▸ h)
    obtain rfl : bytes = bytes' := bytesToHex_injective (by rw [← hhex, ← hhex', heq])
    exact fold_eq_iff_of_decode_eq hnpub hd hd' hnul
  · obtain ⟨bytes, hd, -, hhex⟩ := decodeNsecToHex_ok h
    obtain ⟨bytes', hd', -, hhex'⟩ := decodeNsecToHex_ok (heq ▸ h)
    obtain rfl : bytes = bytes' := bytesToHex_injective (by rw [← hhex, ← hhex', heq])
    exact fold_eq_iff_of_decode_eq hnsec hd hd' hnul

def zeroNpub : Str := lit "npub1qqqqqqqqqqqqqqqqqqqqqqqqqqqqqqqqqqqqqqqqqqqqqqqqqqqqzqujme"

/-- The same with the checksum symbols `z` and `q` replaced by `r` and NUL: the value 32 of the NUL
undoes the change of the symbol before it. -/
def nulNpub : Str := lit "npub1qqqqqqqqqqqqqqqqqqqqqqqqqqqqqqqqqqqqqqqqqqqqqqqqqqqqr" ++ 0 :: lit "ujme"

def zeroNsec : Str := lit "nsec1qqqqqqqqqqqqqqqqqqqqqqqqqqqqqqqqqqqqqqqqqqqqqqqqqqqqwkhnav"

theorem canonical_iff_no_nul_zero :
    (Canonical nulNpub (encodeNpubFromHex (decodeNpubToHex nulNpub).hexPubkey).npub ↔
      (0 : UInt8) ∉ nulNpub) ∧
    (Canonical zeroNsec (encodeBech32_32Bytes (lit "nsec")
      (hexToBytes (decodeNsecToHex zeroNsec).hexPrivkey)) ↔ (0 : UInt8) ∉ zeroNsec) ∧
    (toLowerCopy nulNpub = toLowerCopy zeroNpub ↔ (0 : UInt8) ∉ nulNpub) ∧
    (toLowerCopy zeroNsec = toLowerCopy (toUpperCopy zeroNsec) ↔ (0 : UInt8) ∉ zeroNsec) :=
  ⟨(canonical_iff_no_nul nulNpub).1 (by decide +kernel),
    (canonical_iff_no_nul zeroNsec).2.1 (by decide +kernel),
    (canonical_iff_no_nul nulNpub).2.2.1 zeroNpub (by decide +kernel) (by decide +kernel)
      (by decide +kernel),
    (canonical_iff_no_nul zeroNsec).2.2.2 (toUpperCopy zeroNsec) (by decide +kernel)
      (by decide +kernel) (by decide +kernel)⟩

/-- A NUL in the checksum is accepted: two strings that differ by more than letter case decode to one
key, and one of them is not what the encoder makes of the key. -/
theorem nulNpub_accepted :
    (decodeNpubToHex nulNpub).ok = true ∧ decodeNpubToHex nulNpub = decodeNpubToHex zeroNpub ∧
      toLowerCopy nulNpub ≠ toLowerCopy zeroNpub ∧
      ¬ Canonical nulNpub (encodeNpubFromHex (decodeNpubToHex nulNpub).hexPubkey).npub := by
  refine ⟨by decide +kernel, by decide +kernel, by decide +kernel, fun h => ?_⟩
  exact absurd h.folds (by decide +kernel)

end Monitostr.Nip19
