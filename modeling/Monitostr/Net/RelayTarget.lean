import Monitostr.Utils.Text

/-! # `net/relay_target.cpp` -/

namespace Monitostr.Net
set_option autoImplicit false

structure RelayHostTarget where
  host : Str
  target : Str
  deriving DecidableEq

def splitRelayHostAndTarget (relay : Str) : RelayHostTarget :=
  match relay.findIdx? fun c => c == 47 || c == 63 with
  | none => { host := relay, target := lit "/" }
  | some targetPos =>
    if relay[targetPos]? = some 63 then
      { host := relay.take targetPos, target := lit "/" ++ relay.drop targetPos }
    else { host := relay.take targetPos, target := relay.drop targetPos }

structure ParsedRelayUrl where
  secure : Bool := true
  host : Str := []
  port : Str := []
  target : Str := []
  deriving DecidableEq

/-- `ParseRelayUrl` after the scheme. -/
def parseAuthority (secure : Bool) (defaultPort value : Str) : Option ParsedRelayUrl :=
  let hostTarget := splitRelayHostAndTarget value
  let parsed : ParsedRelayUrl :=
    match hostTarget.host.findIdx? (· == 58) with
    | none =>
      { secure := secure, host := hostTarget.host, port := defaultPort, target := hostTarget.target }
    | some colon =>
      { secure := secure, host := hostTarget.host.take colon
        port := hostTarget.host.drop (colon + 1), target := hostTarget.target }
  if parsed.host.isEmpty then none else some parsed

def parseRelayUrl (relayUrl : Str) : Option ParsedRelayUrl :=
  if (lit "wss://").isPrefixOf relayUrl then parseAuthority true (lit "443") (relayUrl.drop 6)
  else if (lit "ws://").isPrefixOf relayUrl then parseAuthority false (lit "80") (relayUrl.drop 5)
  else none

theorem parseAuthority_host {secure : Bool} {defaultPort value : Str} {parsed : ParsedRelayUrl}
    (h : parseAuthority secure defaultPort value = some parsed) : parsed.host ≠ [] := by
  obtain ⟨hhost, hparsed⟩ := Option.ite_none_left_eq_some.mp h
  obtain rfl := Option.some.inj hparsed
  exact fun hnil => hhost (List.isEmpty_iff.mpr hnil)

theorem parseRelayUrl_host {relayUrl : Str} {parsed : ParsedRelayUrl}
    (h : parseRelayUrl relayUrl = some parsed) : parsed.host ≠ [] := by
  rw [parseRelayUrl] at h
  split at h
  · exact parseAuthority_host h
  · split at h
    · exact parseAuthority_host h
    · cases h

end Monitostr.Net
