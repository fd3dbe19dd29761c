import Monitostr.Utils.Text

/-! # What the program takes from its libraries

JSON values, and the functions of nlohmann-json, OpenSSL, libsecp256k1 and the C++ random number
library that the program calls. Their bodies are not part of the repository, so a `Platform` is a
parameter of everything that calls them. What the clocks and the random number generator give to one
handler is a `Moment`.
-/

namespace Monitostr
set_option autoImplicit false

/-- `nlohmann::json`. An object lists its members in key order. -/
inductive Json
  | null
  | boolean (b : Bool)
  | integer (n : ℤ)
  | float (text : Str)
  | string (s : Str)
  | array (elements : List Json)
  | object (members : List (Str × Json))

namespace Json

def getString? : Json → Option Str
  | .string s => some s
  | _ => none

/-- `contains` with the member; false for a value that is no object. -/
def member? (key : Str) : Json → Option Json
  | .object members => members.lookup key
  | _ => none

def isObject : Json → Bool
  | .object _ => true
  | _ => false

end Json

abbrev Bytes (n : ℕ) := { bytes : List UInt8 // bytes.length = n }

def zeroBytes (n : ℕ) : Bytes n := ⟨List.replicate n 0, List.length_replicate⟩

structure Platform where
  /-- `nlohmann::json::parse(s, nullptr, false)`; `none` is a discarded value. -/
  parseJson : Str → Option Json
  parseJson_nil : parseJson [] = none
  parseJson_event : parseJson (lit "[\"EVENT\"]") = some (.array [.string (lit "EVENT")])
  /-- `dump()`; `none` when it throws, for a string that is not UTF-8. -/
  dumpJson : Json → Option Str
  /-- A `std::uniform_int_distribution<int>(0, 250)` on a `std::mt19937` seeded with the hash of the
  string and the entropy. -/
  jitter : Str → UInt64 → Fin 251
  /-- `secp256k1_keypair_create`, `secp256k1_keypair_xonly_pub` and its serialisation. -/
  xonlyPubkey : Bytes 32 → Option (Bytes 32)
  /-- `SHA256`. -/
  sha256 : Str → Bytes 32
  /-- `secp256k1_schnorrsig_sign32` of an event id, with the private key and auxiliary randomness. -/
  schnorrSign : Bytes 32 → Bytes 32 → Bytes 32 → Option (Bytes 64)

/-- The clocks and the random bytes that one handler sees. -/
structure Moment where
  /-- `steady_clock::now()`, in nanoseconds. -/
  steady : ℕ := 0
  /-- `system_clock::now()`, in seconds. -/
  unixSeconds : ℤ := 0
  /-- `LogBuffer::NowString()`. -/
  timestamp : Str := []
  /-- `secp256k1_context_create` with the random seed of the context: false when either fails. -/
  contextOk : Bool := true
  /-- `RAND_bytes` for the signature; `none` when it fails. -/
  auxRand : Option (Bytes 32) := some (zeroBytes 32)

end Monitostr
