import Monitostr.Utils.Text

/-! # The bech32 helpers of `src/nip19/bech32_internal.hpp`

Checksum register, bit regrouping, the decoder and encoder of 32-byte payloads and the hex
conversions, as the header computes them. `std::uint32_t` is `UInt32` and a `std::vector` of bytes
is a list; `char` is signed, as on the platforms the project builds for.
-/

namespace Monitostr.Nip19
set_option autoImplicit false

def kBech32Gen : List UInt32 := [0x3b6a57b2, 0x26508e6d, 0x1ea119fa, 0x3d4233dd, 0x2a1462b3]

def kCharset : Str := lit "qpzry9x8gf2tvdw0s3jn54khce6mua7l"

/-- `std::strchr` on a C string: the terminating NUL is part of the string that is searched. -/
def strchr (s : Str) (c : UInt8) : Option ℕ := (s ++ [0]).findIdx? (· == c)

/-- `CharToValue`: the position in the charset, `-1` when there is none. -/
def charToValue (c : UInt8) : ℤ :=
  match strchr kCharset c with
  | none => -1
  | some p => p

/-! ## Checksum -/

/-- One turn of the loop of `Polymod`. -/
def polymodStep (chk : UInt32) (v : UInt8) : UInt32 :=
  let top : UInt8 := (chk >>> 25).toUInt8
  let chk := (chk &&& 0x1ffffff) <<< 5
  let chk := chk ^^^ v.toUInt32
  kBech32Gen.zipIdx.foldl
    (fun chk (gen, i) => if ((top >>> UInt8.ofNat i) &&& 1) != 0 then chk ^^^ gen else chk) chk

def polymod (values : List UInt8) : UInt32 := values.foldl polymodStep 1

/-- `HrpExpand`; `c >> 5` shifts a signed `char`. -/
def hrpExpand (hrp : Str) : List UInt8 :=
  hrp.map (fun c => (c.toInt8 >>> (5 : Int8)).toUInt8) ++ [0] ++ hrp.map (fun c => c &&& 31)

def verifyChecksum (hrp : Str) (data : List UInt8) : Bool := polymod (hrpExpand hrp ++ data) == 1

def createChecksum (hrp : Str) (data : List UInt8) : List UInt8 :=
  let values := hrpExpand hrp ++ data ++ List.replicate 6 0
  let poly := polymod values ^^^ 1
  (List.range 6).map fun i => ((poly >>> (5 * (5 - UInt32.ofNat i))) &&& 0x1f).toUInt8

/-! ## Bit regrouping -/

/-- The inner loop of `ConvertBits`: while there are `toBits` bits, the top ones are emitted. The
fuel is the number of bits, which every turn lowers. -/
def emitGroups (toBits : ℕ) (maxv acc : UInt32) : ℕ → ℕ → List UInt8 → ℕ × List UInt8
  | 0, bits, out => (bits, out)
  | fuel + 1, bits, out =>
    if toBits ≤ bits then
      emitGroups toBits maxv acc fuel (bits - toBits)
        (out ++ [((acc >>> UInt32.ofNat (bits - toBits)) &&& maxv).toUInt8])
    else (bits, out)

/-- The accumulator, the number of its bits not emitted yet, and the output. -/
structure ConvertState where
  acc : UInt32 := 0
  bits : ℕ := 0
  out : List UInt8 := []

/-- One turn of the outer loop of `ConvertBits`; `none` when the value does not fit `fromBits`. -/
def convertStep (fromBits toBits : ℕ) (st : ConvertState) (value : UInt8) : Option ConvertState :=
  let maxv : UInt32 := (1 <<< UInt32.ofNat toBits) - 1
  let maxAcc : UInt32 := (1 <<< UInt32.ofNat (fromBits + toBits - 1)) - 1
  if (value.toUInt32 >>> UInt32.ofNat fromBits) != 0 then none
  else
    let acc := ((st.acc <<< UInt32.ofNat fromBits) ||| value.toUInt32) &&& maxAcc
    let bits := st.bits + fromBits
    let (bits, out) := emitGroups toBits maxv acc bits bits st.out
    some { acc := acc, bits := bits, out := out }

/-- `ConvertBits`; `none` is the return value `false`. -/
def convertBits (input : List UInt8) (fromBits toBits : ℕ) (pad : Bool) : Option (List UInt8) := do
  let maxv : UInt32 := (1 <<< UInt32.ofNat toBits) - 1
  let st ← input.foldlM (convertStep fromBits toBits) {}
  if pad then
    if st.bits > 0 then
      some (st.out ++ [((st.acc <<< UInt32.ofNat (toBits - st.bits)) &&& maxv).toUInt8])
    else some st.out
  else if st.bits ≥ fromBits || ((st.acc <<< UInt32.ofNat (toBits - st.bits)) &&& maxv) != 0 then
    none
  else some st.out

/-! ## Decoding -/

def rfind : Str → UInt8 → Option ℕ
  | [], _ => none
  | x :: s, c =>
    match rfind s c with
    | some i => some (i + 1)
    | none => if x = c then some 0 else none

/-- The loop of `DecodeBech32_32Bytes` over the characters after the separator. -/
def charsToValues : Str → Option (List UInt8)
  | [] => some []
  | c :: cs =>
    let v := charToValue c
    if v < 0 then none else (charsToValues cs).map (UInt8.ofNat v.toNat :: ·)

/-- `DecodeBech32_32Bytes`: the payload, or the text left in `error_out` (the returned vector is
empty exactly then). -/
def decodeBech32_32Bytes (input expectedHrp : Str) : Except Str (List UInt8) :=
  if input.isEmpty then .error (expectedHrp ++ lit " is empty")
  else if input.any isLower && input.any isUpper then .error (lit "mixed-case bech32 string")
  else
    let normalized := toLowerCopy input
    match rfind normalized 49 with
    | none => .error (lit "invalid bech32 separator/checksum")
    | some sep =>
      if sep = 0 ∨ sep + 7 > normalized.length then
        .error (lit "invalid bech32 separator/checksum")
      else
        let hrp := normalized.take sep
        if hrp ≠ expectedHrp then .error (lit "hrp is not " ++ expectedHrp)
        else
          match charsToValues (normalized.drop (sep + 1)) with
          | none => .error (lit "invalid bech32 character")
          | some data =>
            if !verifyChecksum hrp data then .error (lit "invalid bech32 checksum")
            else
              match convertBits (data.take (data.length - 6)) 5 8 false with
              | none => .error (lit "failed bech32 bit conversion")
              | some bytes =>
                if bytes.length ≠ 32 then .error (expectedHrp ++ lit " payload is not 32 bytes")
                else .ok bytes

/-! ## Hex -/

def nibble (c : UInt8) : ℤ :=
  if 48 ≤ c && c ≤ 57 then c.toNat - 48
  else if 97 ≤ c && c ≤ 102 then c.toNat - 97 + 10
  else if 65 ≤ c && c ≤ 70 then c.toNat - 65 + 10
  else -1

/-- The loop of `HexToBytes` over the pairs of digits. -/
def hexPairs : Str → Option (List UInt8)
  | c :: d :: rest =>
    let hi := nibble c
    let lo := nibble d
    if hi < 0 ∨ lo < 0 then none
    else (hexPairs rest).map (UInt8.ofNat ((hi.toNat <<< 4) ||| lo.toNat) :: ·)
  | _ => some []

/-- `HexToBytes`: empty when the input is malformed. -/
def hexToBytes (hex : Str) : List UInt8 :=
  if hex.length % 2 ≠ 0 then [] else (hexPairs hex).getD []

def hexDigit (n : UInt8) : UInt8 := if n < 10 then 48 + n else 87 + n

def bytesToHex (bytes : List UInt8) : Str := bytes.flatMap fun b => [hexDigit (b >>> (4 : UInt8)), hexDigit (b &&& 15)]

/-! ## Encoding -/

def charOfValue (v : UInt8) : UInt8 := kCharset.getD (v &&& 0x1f).toNat 0

/-- `EncodeBech32_32Bytes`: empty on failure. -/
def encodeBech32_32Bytes (hrp : Str) (bytes32 : List UInt8) : Str :=
  if bytes32.length ≠ 32 then []
  else
    match convertBits bytes32 8 5 true with
    | none => []
    | some data5 =>
      hrp ++ [49] ++ data5.map charOfValue ++ (createChecksum hrp data5).map charOfValue

/-! ## `npub.cpp` and `nsec.cpp` -/

structure DecodeResult where
  ok : Bool := false
  hexPubkey : Str := []
  error : Str := []
  deriving DecidableEq

def decodeNpubToHex (npub : Str) : DecodeResult :=
  match decodeBech32_32Bytes npub (lit "npub") with
  | .error error => { error := error }
  | .ok bytes => { ok := true, hexPubkey := bytesToHex bytes }

structure EncodeResult where
  ok : Bool := false
  npub : Str := []
  error : Str := []
  deriving DecidableEq

def encodeNpubFromHex (hexPubkey : Str) : EncodeResult :=
  let bytes := hexToBytes hexPubkey
  if bytes.length ≠ 32 then { error := lit "hex_pubkey must be 64 lowercase hex chars (32 bytes)" }
  else
    let encoded := encodeBech32_32Bytes (lit "npub") bytes
    if encoded.isEmpty then { error := lit "bech32 encoding failed" }
    else { ok := true, npub := encoded }

structure NsecDecodeResult where
  ok : Bool := false
  hexPrivkey : Str := []
  error : Str := []
  deriving DecidableEq

def decodeNsecToHex (nsec : Str) : NsecDecodeResult :=
  match decodeBech32_32Bytes nsec (lit "nsec") with
  | .error error => { error := error }
  | .ok bytes => { ok := true, hexPrivkey := bytesToHex bytes }

end Monitostr.Nip19
