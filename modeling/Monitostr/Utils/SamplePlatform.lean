import Monitostr.Nip19.Bech32
import Monitostr.Utils.Platform

/-! # A platform for concrete runs

It answers as the libraries do on the inputs of the concrete runs in this development: three private
keys, one AUTH challenge of one relay, relay lists of two relays, the NIPs of one, and JSON whose
strings need no escapes.
-/

namespace Monitostr
set_option autoImplicit false

/-- The bytes of a hex literal, filled up with zeros. -/
def hexBytes (n : ℕ) (hex : String) : Bytes n :=
  ⟨(List.range n).map fun i => (Nip19.hexToBytes (lit hex)).getD i 0, by
    rw [List.length_map, List.length_range]⟩

def samplePrivkey (k : UInt8) : Bytes 32 := ⟨List.replicate 31 0 ++ [k], by simp⟩

def samplePubkeys : List (Bytes 32 × Bytes 32) :=
  [(samplePrivkey 1, hexBytes 32 "79be667ef9dcbbac55a06295ce870b07029bfcdb2dce28d959f2815b16f81798"),
    (samplePrivkey 2, hexBytes 32 "c6047f9441ed7d6d3045406e95c07cd85c778e4b8cef3ca7abac09b95c709ee5"),
    (samplePrivkey 3, hexBytes 32 "f9308a019258c31049344f85f89d5229b531c845836f99b08601f113bce036f9")]

def samplePubkeyHex : Str := lit "79be667ef9dcbbac55a06295ce870b07029bfcdb2dce28d959f2815b16f81798"

def sampleNpub (k : UInt8) : Str :=
  Nip19.encodeBech32_32Bytes (lit "npub")
    (((samplePubkeys.lookup (samplePrivkey k)).map Subtype.val).getD [])
def sampleNsec (k : UInt8) : Str := Nip19.encodeBech32_32Bytes (lit "nsec") (samplePrivkey k).1

/-! ## JSON text -/

def quoted (s : Str) : Option Str :=
  if s.all fun c => 32 ≤ c && c < 127 && c != 34 && c != 92 then some (lit "\"" ++ s ++ lit "\"")
  else none

def commaSeparated : List Str → Str
  | [] => []
  | [t] => t
  | t :: ts => t ++ lit "," ++ commaSeparated ts

mutual
/-- The compact text of a value whose strings need no escapes. -/
def jsonText : Json → Option Str
  | .null => some (lit "null")
  | .boolean b => some (if b then lit "true" else lit "false")
  | .integer n => some (stdToStringInt n)
  | .float text => some text
  | .string s => quoted s
  | .array elements => (elementTexts elements).map fun ts => lit "[" ++ commaSeparated ts ++ lit "]"
  | .object members => (memberTexts members).map fun ts => lit "\x7b" ++ commaSeparated ts ++ lit "\x7d"

def elementTexts : List Json → Option (List Str)
  | [] => some []
  | j :: js => do
    let t ← jsonText j
    let ts ← elementTexts js
    return t :: ts

def memberTexts : List (Str × Json) → Option (List Str)
  | [] => some []
  | (key, j) :: rest => do
    let k ← quoted key
    let t ← jsonText j
    let ts ← memberTexts rest
    return (k ++ lit ":" ++ t) :: ts
end

/-! ## One challenge -/

/-- The relay and the payload of the challenge `x`. -/
def sampleRelay : Str := lit "wss://relay.example"
def sampleChallenge : Str := lit "[\"AUTH\",\"x\"]"

/-- What is hashed for the answer to the challenge with the private key 1 at time 0, and its hash. -/
def sampleSerialised : Str :=
  lit "[0,\"79be667ef9dcbbac55a06295ce870b07029bfcdb2dce28d959f2815b16f81798\",0,22242,[[\"relay\",\"wss://relay.example\"],[\"challenge\",\"x\"]],\"\"]"
def sampleEventId : Bytes 32 :=
  hexBytes 32 "682cd32942d36dfc94ddf5c74417de0e7c672154af48e0789698c88dd6d07775"

def sampleSignature : Bytes 64 :=
  hexBytes 64 "a0b53c837dba63a261193422be5c45c18c9762d9f0dd15fdcb340fb8f3773e125a0ee52775efd369b49c30d11cacf993b0b173f946006c632e524414bc9269d2"

def sampleAuthEvent : Json := .object
  [(lit "content", .string []), (lit "created_at", .integer 0),
    (lit "id", .string (Nip19.bytesToHex sampleEventId.1)), (lit "kind", .integer 22242),
    (lit "pubkey", .string (lit "79be667ef9dcbbac55a06295ce870b07029bfcdb2dce28d959f2815b16f81798")),
    (lit "sig", .string (Nip19.bytesToHex sampleSignature.1)),
    (lit "tags", .array [.array [.string (lit "relay"), .string sampleRelay],
      .array [.string (lit "challenge"), .string (lit "x")]])]

/-! ## Relay lists -/

def otherRelay : Str := lit "wss://other.example"

/-- The message that carries a relay list of one relay, and the one that ends a query. -/
def relayListMessage (subId relayUrl : Str) : Json :=
  .array [.string (lit "EVENT"), .string subId,
    .object [(lit "tags", .array [.array [.string (lit "r"), .string relayUrl]])]]
def eoseMessage (subId : Str) : Json := .array [.string (lit "EOSE"), .string subId]

/-- What a seed sends for the kind-10002 query when it knows one relay. -/
def relayListPayloads (relayUrl : Str) : List Str :=
  [relayListMessage (lit "bootstrap-10002") relayUrl, eoseMessage (lit "bootstrap-10002")].filterMap
    jsonText

/-- The NIP-11 document of a relay that supports one NIP. -/
def sampleNips : Json := .object [(lit "supported_nips", .array [.integer 11])]

def sampleJson : List Json :=
  [.array [.string (lit "EVENT")], .array [.string (lit "AUTH"), .string (lit "x")], sampleAuthEvent,
    relayListMessage (lit "bootstrap-10002") sampleRelay,
    relayListMessage (lit "bootstrap-10002") otherRelay, eoseMessage (lit "bootstrap-10002"),
    sampleNips]

def samplePlatform : Platform where
  parseJson s := sampleJson.find? fun value => jsonText value = some s
  parseJson_nil := List.find?_eq_none.mpr (by decide +kernel)
  parseJson_event := List.find?_cons_of_pos (by decide +kernel)
  dumpJson := jsonText
  jitter _ _ := 0
  xonlyPubkey key := samplePubkeys.lookup key
  sha256 s := if s = sampleSerialised then sampleEventId else ⟨List.replicate 32 0, by simp⟩
  schnorrSign id key _ :=
    if id = sampleEventId ∧ key = samplePrivkey 1 then some sampleSignature else none

end Monitostr
