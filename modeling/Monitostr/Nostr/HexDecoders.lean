import Monitostr.Nip19.RoundTrip
import Monitostr.Nostr.Signer

/-! # Three hex decoders and two encoders

`HexToBytes` of the codec puts the bytes into a vector. `HexToBytes32` of the signer and that of the auth key
write them into an array, and differ in what they leave in it when they fail. The encoders differ in how they
set up their stream. All of them agree on 64 digits.
-/

namespace Monitostr.Nostr
open Nip19 (nibble hexPairs hexToBytes hexDigit decodeNsecToHex decodeBech32_32Bytes)
set_option autoImplicit false

/-! ## The decoders with an array -/

/-- `out[index] = byte`. -/
def setByte (out : Bytes 32) (index : ℕ) (byte : UInt8) : Bytes 32 :=
  ⟨out.1.set index byte, by rw [List.length_set, out.2]⟩

/-- The loop over the last `n` bytes of the array, and what becomes of it at a character that is no digit. -/
def fillArray (reject : Bytes 32 → Bytes 32) (hex : Str) : (index n : ℕ) → Bytes 32 → Bool × Bytes 32
  | _, 0, out => (true, out)
  | index, n + 1, out =>
    let hi := nibble (hex.getD (index * 2) 0)
    let lo := nibble (hex.getD (index * 2 + 1) 0)
    if hi < 0 ∨ lo < 0 then (false, reject out)
    else
      fillArray reject hex (index + 1) n (setByte out index (UInt8.ofNat ((hi.toNat <<< 4) ||| lo.toNat)))

def hexToArray (reject : Bytes 32 → Bytes 32) (hex : Str) (out : Bytes 32) : Bool × Bytes 32 :=
  if hex.length ≠ 64 then (false, out) else fillArray reject hex 0 32 out

/-- `HexToBytes32` of `signer.cpp`: bytes before the character stay in the array. -/
def signerHexToBytes32 : Str → Bytes 32 → Bool × Bytes 32 := hexToArray id

/-- `HexToBytes32` of `auth_key.cpp`, with `SecureZero`. -/
def authKeyHexToBytes32 : Str → Bytes 32 → Bool × Bytes 32 := hexToArray fun _ => zeroBytes 32

section Arrays
variable {reject : Bytes 32 → Bytes 32} {hex : Str}

theorem take_setByte (out : Bytes 32) {index : ℕ} (h : index < 32) (byte : UInt8) :
    (setByte out index byte).1.take (index + 1) = out.1.take index ++ [byte] := by
  have hlt : index < out.1.length := by rwa [out.2]
  show (out.1.set index byte).take (index + 1) = out.1.take index ++ [byte]
  rw [List.set_eq_take_append_cons_drop, if_pos hlt, List.append_cons]
  exact List.take_left' (by rw [List.length_append, List.length_take_of_le hlt.le, List.length_singleton])

/-- The bytes before the index are those of the array, the others those of the digits. -/
theorem fillArray_of_some {n index : ℕ} {rest : Bytes n} (out : Bytes 32) (hindex : index + n = 32)
    (h : hexToBytesFrom hex index n = some rest) :
    (fillArray reject hex index n out).1 = true ∧
      (fillArray reject hex index n out).2.1 = out.1.take index ++ rest.1 := by
  induction n generalizing index out with
  | zero =>
    obtain rfl := Option.some.inj h
    rw [fillArray, List.append_nil, List.take_of_length_le (by rw [out.2]; omega)]
    exact ⟨rfl, rfl⟩
  | succ n ih =>
    rw [hexToBytesFrom] at h
    rw [fillArray]
    split at h
    · cases h
    · next hdigits =>
      obtain ⟨tail, htail, rfl⟩ := Option.map_eq_some_iff.mp h
      obtain ⟨hok, hbytes⟩ := ih (setByte out index _) (by omega) htail
      rw [if_neg hdigits]
      refine ⟨hok, ?_⟩
      rw [hbytes, take_setByte out (by omega), List.append_assoc]
      rfl

theorem fillArray_of_none {n index : ℕ} (out : Bytes 32) (h : hexToBytesFrom hex index n = none) :
    (fillArray reject hex index n out).1 = false := by
  induction n generalizing index out with
  | zero => cases h
  | succ n ih =>
    rw [hexToBytesFrom] at h
    rw [fillArray]
    split at h
    · next hdigits => rw [if_pos hdigits]
    · next hdigits =>
      rw [if_neg hdigits]
      exact ih _ (Option.map_eq_none_iff.mp h)

/-- The result of the loop is what the array has in it, whatever it had before. -/
theorem hexToArray_spec (reject : Bytes 32 → Bytes 32) (hex : Str) (out : Bytes 32) :
    (hexToArray reject hex out).1 = (hexToBytes32 hex).isSome ∧
      ∀ bytes, hexToBytes32 hex = some bytes → (hexToArray reject hex out).2 = bytes := by
  rw [hexToArray, hexToBytes32]
  by_cases hlen : hex.length ≠ 64
  · rw [if_pos hlen, if_pos hlen]
    exact ⟨rfl, fun bytes h => by cases h⟩
  · rw [if_neg hlen, if_neg hlen]
    cases hloop : hexToBytesFrom hex 0 32 with
    | none => exact ⟨fillArray_of_none out hloop, fun bytes h => by cases h⟩
    | some bytes =>
      have hfill : (fillArray reject hex 0 32 out).1 = true ∧
          (fillArray reject hex 0 32 out).2.1 = bytes.1 := fillArray_of_some out rfl hloop
      refine ⟨hfill.1, fun other hother => ?_⟩
      obtain rfl := Option.some.inj hother
      exact Subtype.ext hfill.2

end Arrays

/-! ## The decoder with a vector -/

theorem nibble_nonneg_iff : ∀ c : UInt8, 0 ≤ nibble c ↔ isHexDigit c = true := by
  decide +kernel

theorem isHexDigit_of_hexPairs (n : ℕ) (hex : Str) (hlen : hex.length = 2 * n)
    (h : (hexPairs hex).isSome = true) : ∀ c ∈ hex, isHexDigit c = true := by
  induction n generalizing hex with
  | zero =>
    obtain rfl := List.length_eq_zero_iff.mp hlen
    exact fun c hc => absurd hc List.not_mem_nil
  | succ n ih =>
    match hex, hlen with
    | c :: d :: rest, hlen =>
      rw [hexPairs] at h
      split at h
      · cases h
      · next hdigits =>
        rw [Option.isSome_map] at h
        rw [not_or, Int.not_lt, Int.not_lt, nibble_nonneg_iff, nibble_nonneg_iff] at hdigits
        rw [List.forall_mem_cons, List.forall_mem_cons]
        exact ⟨hdigits.1, hdigits.2, ih rest (by rw [List.length_cons, List.length_cons] at hlen; omega) h⟩

/-- The loop with indices reads the pairs that are left. -/
theorem hexToBytesFrom_map_val {hex : Str} {n index : ℕ} (hlen : hex.length = 2 * (index + n)) :
    (hexToBytesFrom hex index n).map Subtype.val = hexPairs (hex.drop (2 * index)) := by
  induction n generalizing index with
  | zero =>
    rw [List.drop_of_length_le (by omega)]
    rfl
  | succ n ih =>
    have hdrop : ∀ i < hex.length, hex.drop i = hex.getD i 0 :: hex.drop (i + 1) := by
      intro i hi
      rw [List.drop_eq_getElem_cons hi, List.getD_eq_getElem?_getD, List.getElem?_eq_getElem hi]
      rfl
    have hrest : hex.drop (2 * index) =
        hex.getD (index * 2) 0 :: hex.getD (index * 2 + 1) 0 :: hex.drop (2 * (index + 1)) := by
      rw [Nat.mul_comm 2 index, hdrop _ (by omega), hdrop _ (by omega)]
      congr 3
      omega
    rw [hrest, hexPairs, hexToBytesFrom, ← ih (by omega)]
    split
    · rfl
    · rw [Option.map_map, Option.map_map]
      rfl

/-- The vector has 32 bytes only after 64 digits. -/
theorem hexToBytes_of_length {hex : Str} (h : (hexToBytes hex).length = 32) :
    hex.length = 64 ∧ hexPairs hex = some (hexToBytes hex) ∧ ∀ c ∈ hex, isHexDigit c = true := by
  rw [hexToBytes] at h ⊢
  split at h
  · cases h
  · next heven =>
    rw [if_neg heven]
    cases hpairs : hexPairs hex with
    | none =>
      rw [hpairs] at h
      cases h
    | some bytes =>
      have hhalf : hex.length = 2 * (hex.length / 2) := by omega
      have hdigits := isHexDigit_of_hexPairs _ hex hhalf (by rw [hpairs]; rfl)
      obtain ⟨bytes', hpairs', hlength, -⟩ := Nip19.hexPairs_of_hex _ hex hhalf hdigits
      obtain rfl := Option.some.inj (hpairs.symm.trans hpairs')
      rw [hpairs, Option.getD_some] at h
      exact ⟨by omega, rfl, hdigits⟩

/-- The array is read as the vector is. -/
theorem hexToBytes32_eq_some_iff {hex : Str} {bytes : Bytes 32} :
    hexToBytes32 hex = some bytes ↔ hexToBytes hex = bytes.1 := by
  rw [hexToBytes32]
  constructor
  · intro h
    split at h
    · cases h
    · next hlen =>
      have hpairs := @hexToBytesFrom_map_val hex 32 0 (by omega)
      rw [h, Option.map_some, Nat.mul_zero, List.drop_zero] at hpairs
      rw [hexToBytes, if_neg (by omega), ← hpairs, Option.getD_some]
  · intro h
    obtain ⟨hlen, hpairs, -⟩ := hexToBytes_of_length (h ▸ bytes.2)
    have hloop := @hexToBytesFrom_map_val hex 32 0 hlen
    rw [Nat.mul_zero, List.drop_zero, hpairs, h, Option.map_eq_some_iff] at hloop
    obtain ⟨bytes', hbytes', hval⟩ := hloop
    rw [if_neg (not_not.mpr hlen), hbytes', Subtype.ext hval]

theorem isSome_hexToBytes32_iff (hex : Str) :
    (hexToBytes32 hex).isSome = true ↔ (hexToBytes hex).length = 32 := by
  rw [Option.isSome_iff_exists]
  constructor
  · rintro ⟨bytes, hbytes⟩
    rw [hexToBytes32_eq_some_iff.mp hbytes, bytes.2]
  · exact fun h => ⟨⟨hexToBytes hex, h⟩, hexToBytes32_eq_some_iff.mpr rfl⟩

/-! ## The encoders with a stream -/

/-- What the encoders use of a `std::ostringstream`. -/
structure OStringStream where
  hex : Bool := false
  fill : UInt8 := 32
  width : ℕ := 0
  text : Str := []

/-- The digits of a number, in lower case. -/
def intDigits (base n : ℕ) : Str := (Nat.toDigits base n).map fun c => UInt8.ofNat c.toNat

/-- `operator<<` with an `int` that is not negative; it sets the width back. -/
def OStringStream.putInt (oss : OStringStream) (n : ℕ) : OStringStream :=
  let digits := intDigits (if oss.hex then 16 else 10) n
  { oss with
    text := oss.text ++ (List.replicate (oss.width - digits.length) oss.fill ++ digits)
    width := 0 }

/-- `BytesToHex` of the codec. -/
def codecBytesToHex (bytes : List UInt8) : Str :=
  (bytes.foldl (fun (oss : OStringStream) b => { oss with width := 2, fill := 48 }.putInt b.toNat)
    { hex := true }).text

/-- `BytesToHex` of `signer.cpp`. -/
def signerBytesToHex (data : List UInt8) : Str :=
  (data.foldl (fun (oss : OStringStream) b => { oss with width := 2 }.putInt b.toNat)
    { hex := true, fill := 48 }).text

theorem padded_byte : ∀ b : UInt8,
    List.replicate (2 - (intDigits 16 b.toNat).length) 48 ++ intDigits 16 b.toNat =
      [hexDigit (b >>> (4 : UInt8)), hexDigit (b &&& 15)] := by
  decide +kernel

/-- A stream that puts out two digits for each byte has the hex of the bytes. -/
theorem foldl_text {Inv : OStringStream → Prop} {put : OStringStream → UInt8 → OStringStream}
    (hput : ∀ oss b, Inv oss → Inv (put oss b) ∧
      (put oss b).text = oss.text ++ [hexDigit (b >>> (4 : UInt8)), hexDigit (b &&& 15)])
    (bytes : List UInt8) {oss : OStringStream} (h : Inv oss) :
    (bytes.foldl put oss).text = oss.text ++ Nip19.bytesToHex bytes := by
  induction bytes generalizing oss with
  | nil => exact (List.append_nil _).symm
  | cons b bytes ih =>
    obtain ⟨hinv, htext⟩ := hput oss b h
    rw [List.foldl_cons, ih hinv, htext, Nip19.bytesToHex_cons, List.append_assoc]
    rfl

theorem codecBytesToHex_eq (bytes : List UInt8) : codecBytesToHex bytes = Nip19.bytesToHex bytes := by
  have hput : ∀ (oss : OStringStream) (b : UInt8), oss.hex = true →
      ({ oss with width := 2, fill := 48 }.putInt b.toNat).hex = true ∧
        ({ oss with width := 2, fill := 48 }.putInt b.toNat).text =
          oss.text ++ [hexDigit (b >>> (4 : UInt8)), hexDigit (b &&& 15)] := by
    intro oss b h
    refine ⟨h, ?_⟩
    rw [← padded_byte, OStringStream.putInt]
    simp only [h, if_true]
  exact foldl_text hput bytes rfl

theorem signerBytesToHex_eq (data : List UInt8) : signerBytesToHex data = bytesToHex data := by
  have hput : ∀ (oss : OStringStream) (b : UInt8), (oss.hex = true ∧ oss.fill = 48) →
      (({ oss with width := 2 }.putInt b.toNat).hex = true ∧
        ({ oss with width := 2 }.putInt b.toNat).fill = 48) ∧
        ({ oss with width := 2 }.putInt b.toNat).text =
          oss.text ++ [hexDigit (b >>> (4 : UInt8)), hexDigit (b &&& 15)] := by
    intro oss b h
    refine ⟨h, ?_⟩
    rw [← padded_byte, OStringStream.putInt]
    simp only [h, if_true]
  exact foldl_text hput data ⟨rfl, rfl⟩

/-! ## All of them agree -/

/-- What the hand-written copies make of a string, whatever the arrays had in them before. -/
structure HexAgree (hex : Str) : Prop where
  accepted : ∀ out out' : Bytes 32, (hexToBytes hex).length = 32 ↔
    (signerHexToBytes32 hex out).1 = true ∧ (authKeyHexToBytes32 hex out').1 = true
  together : ∀ out out' : Bytes 32, (signerHexToBytes32 hex out).1 = (authKeyHexToBytes32 hex out').1
  bytes : ∀ out out' : Bytes 32, (hexToBytes hex).length = 32 →
    (signerHexToBytes32 hex out).2.1 = hexToBytes hex ∧ (authKeyHexToBytes32 hex out').2.1 = hexToBytes hex
  text : (hexToBytes hex).length = 32 → codecBytesToHex (hexToBytes hex) = toLowerCopy hex ∧
    signerBytesToHex (hexToBytes hex) = toLowerCopy hex

theorem hexAgree (hex : Str) : HexAgree hex := by
  have hok : ∀ (reject : Bytes 32 → Bytes 32) (out : Bytes 32),
      (hexToArray reject hex out).1 = (hexToBytes32 hex).isSome :=
    fun reject out => (hexToArray_spec reject hex out).1
  refine ⟨fun out out' => ?_, fun out out' => ?_, fun out out' h => ?_, fun h => ?_⟩
  · rw [signerHexToBytes32, authKeyHexToBytes32, hok, hok, and_self, isSome_hexToBytes32_iff]
  · rw [signerHexToBytes32, authKeyHexToBytes32, hok, hok]
  · have hread : hexToBytes32 hex = some ⟨hexToBytes hex, h⟩ := hexToBytes32_eq_some_iff.mpr rfl
    rw [signerHexToBytes32, authKeyHexToBytes32, (hexToArray_spec _ hex out).2 _ hread,
      (hexToArray_spec _ hex out').2 _ hread]
    exact ⟨rfl, rfl⟩
  · obtain ⟨hlen, -, hdigits⟩ := hexToBytes_of_length h
    rw [codecBytesToHex_eq, signerBytesToHex_eq, bytesToHex, (Nip19.bytesToHex_hexToBytes hlen hdigits).2]
    exact ⟨rfl, rfl⟩

/-- A key has the bytes of the digits, when there is a public key for them. -/
theorem fromHexPrivkey_bytes {pf : Platform} {hexPrivkey : Str} {privkeyBytes : Bytes 32}
    (h : hexToBytes32 hexPrivkey = some privkeyBytes) :
    (AuthKey.fromHexPrivkey pf hexPrivkey).map AuthKey.privkeyBytes =
      if (deriveHexPubkeyFromPrivkey pf privkeyBytes).isEmpty then none else some privkeyBytes := by
  rw [AuthKey.fromHexPrivkey, h]
  dsimp only
  by_cases hempty : (deriveHexPubkeyFromPrivkey pf privkeyBytes).isEmpty = false
  · rw [dif_pos hempty, if_neg (by rw [hempty]; decide)]
    rfl
  · rw [dif_neg hempty, if_pos (by simpa using hempty)]
    rfl

/-- **Hex decoders agree**: the three decoders and the two encoders do the same on every string, and a key from
an accepted nsec has its payload, when there is a public key for it. -/
theorem hexDecoders_agree (pf : Platform) :
    (∀ hex : Str, HexAgree hex) ∧
    ∀ nsec : Str, (decodeNsecToHex nsec).ok = true →
      ∃ payload : Bytes 32, decodeBech32_32Bytes nsec (lit "nsec") = .ok payload.1 ∧
        (AuthKey.fromHexPrivkey pf (decodeNsecToHex nsec).hexPrivkey).map AuthKey.privkeyBytes =
          if (deriveHexPubkeyFromPrivkey pf payload).isEmpty then none else some payload := by
  refine ⟨hexAgree, fun nsec hok => ?_⟩
  obtain ⟨bytes, hdecode, hlen, hhex⟩ := Nip19.decodeNsecToHex_ok hok
  have hread : hexToBytes32 (decodeNsecToHex nsec).hexPrivkey = some ⟨bytes, hlen⟩ := by
    rw [hexToBytes32_eq_some_iff, hhex]
    exact Nip19.hexToBytes_bytesToHex bytes
  exact ⟨⟨bytes, hlen⟩, hdecode, fromHexPrivkey_bytes hread⟩

end Monitostr.Nostr
