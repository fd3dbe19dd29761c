import Monitostr.Model.RelayStats

/-! # `net/relay_session_support.cpp` -/

namespace Monitostr.Net
open Model
set_option autoImplicit false

def kMaxReconnectAttempts : ℕ := 6

inductive RelayMessageEffect
  | ignore
  | authChallenge (challenge : Str)
  | eventCount
  | endOfStoredEvents
  deriving DecidableEq

/-- `BuildMonitorReqMessage`; `none` when `dump` throws. -/
def buildMonitorReqMessage (pf : Platform) (hexPubkey : Str) : Option Str :=
  pf.dumpJson (.array [.string (lit "REQ"), .string (lit "monitostr-sub"),
    .object [(lit "authors", .array [.string hexPubkey]), (lit "kinds", .array [.integer 1]),
      (lit "limit", .integer 1)]])

/-- `ParseRelayMessageEffect` on the elements of a parsed array. -/
def messageEffect : List Json → RelayMessageEffect
  | .string kind :: rest =>
    let challenge := rest.head?.bind Json.getString?
    if kind = lit "AUTH" ∧ challenge.isSome then .authChallenge (challenge.getD [])
    else if kind = lit "EVENT" then .eventCount
    else if kind = lit "EOSE" then .endOfStoredEvents
    else .ignore
  | _ => .ignore

def parseRelayMessageEffect (pf : Platform) (payload : Str) : RelayMessageEffect :=
  match pf.parseJson payload with
  | some (.array elements) => messageEffect elements
  | _ => .ignore

@[simp] theorem parseRelayMessageEffect_nil (pf : Platform) :
    parseRelayMessageEffect pf [] = .ignore := by
  rw [parseRelayMessageEffect, pf.parseJson_nil]

@[simp] theorem parseRelayMessageEffect_event (pf : Platform) :
    parseRelayMessageEffect pf (lit "[\"EVENT\"]") = .eventCount := by
  rw [parseRelayMessageEffect, pf.parseJson_event]
  decide

def shouldReconnectAttempt (stopped : Bool) (reconnectAttempt : ℕ) (where_ : Str) : Bool :=
  if stopped || decide (reconnectAttempt ≥ kMaxReconnectAttempts) then false
  else if where_ = lit "ws_handshake" ∨ where_ = lit "set_sni" then false
  else where_ = lit "read" || where_ = lit "resolve" || where_ = lit "connect" ||
    where_ = lit "tls_handshake" || where_ = lit "write_req"

/-- `ParseSupportedNipsFromNip11Body`; `get<int>` keeps the low 32 bits. -/
def parseSupportedNipsFromNip11Body (pf : Platform) (responseBody : Str) : List Int32 :=
  match (pf.parseJson responseBody).bind (Json.member? (lit "supported_nips")) with
  | some (.array values) =>
    RelayStats.sortUnique (values.filterMap fun value =>
      match value with
      | .integer n => some (Int32.ofInt n)
      | _ => none)
  | _ => []

/-- `ComputeReconnectDelayMs`, in 32-bit arithmetic. -/
def computeReconnectDelayMs (pf : Platform) (relayUrl : Str) (reconnectAttempt : ℕ)
    (entropy : UInt64) : UInt32 :=
  let exp := min (if reconnectAttempt > 0 then reconnectAttempt - 1 else 0) 8
  let baseMs : UInt32 := 500 * ((1 : UInt32) <<< UInt32.ofNat exp)
  min 30000 (baseMs + UInt32.ofNat (pf.jitter relayUrl entropy))

end Monitostr.Net
