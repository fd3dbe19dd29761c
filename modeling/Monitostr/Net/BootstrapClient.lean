import Monitostr.Foundations.FirstOccurrences
import Monitostr.Model.LogBuffer
import Monitostr.Net.RelayTarget

/-! # `net/bootstrap_client.cpp`

Which relays to monitor is asked of a list of seed relays, one after the other. What a seed does is
its behaviour: resolving, connecting, a handshake, a write or a read throws, or its two queries
deliver their messages.
-/

namespace Monitostr.Net
open Model
set_option autoImplicit false

/-- A call of `LogBuffer::Info`, `Warn` or `Error`. -/
abbrev LogLine := LogLevel × Str

/-! ## Relay lists in events -/

def isRelayUrlLike (value : Str) : Bool :=
  (lit "wss://").isPrefixOf value || (lit "ws://").isPrefixOf value

def relayTag : Json → Option Str
  | .array (.string key :: .string value :: _) =>
    if key = lit "r" ∧ isRelayUrlLike value then some value else none
  | _ => none

def relayString : Json → Option Str
  | .string value => if isRelayUrlLike value then some value else none
  | _ => none

/-- `ExtractRelayUrlsFromEvent`: the tags, then the keys or the elements of the content. -/
def extractRelayUrlsFromEvent (pf : Platform) (event : Json) : List Str :=
  let fromTags :=
    match event.member? (lit "tags") with
    | some (.array tags) => tags.filterMap relayTag
    | _ => []
  let fromContent :=
    match (event.member? (lit "content")).bind Json.getString? with
    | none => []
    | some content =>
      match pf.parseJson content with
      | some (.object members) => (members.map Prod.fst).filter isRelayUrlLike
      | some (.array items) => items.filterMap relayString
      | _ => []
  fromTags ++ fromContent

/-- `Deduplicate`: the URLs that parse, each at its first occurrence. -/
def deduplicate (values : List Str) : List Str :=
  values.foldl (fun out value =>
    if (parseRelayUrl value).isSome ∧ value ∉ out then out ++ [value] else out) []

theorem deduplicate_eq (values : List Str) :
    deduplicate values = (values.filter fun value => (parseRelayUrl value).isSome).eraseDups := by
  refine (Foundations.foldl_collect (fun value => (parseRelayUrl value).isSome = true) values).trans ?_
  simp only [Bool.decide_eq_true]

def isSecureRelay (url : Str) : Bool := (parseRelayUrl url).any ParsedRelayUrl.secure

def isInsecureRelay (url : Str) : Bool := (parseRelayUrl url).any fun parsed => !parsed.secure

/-- The URLs that `FilterSupportedRelayUrls` returns. -/
def supportedRelayUrls (relayUrls : List Str) : List Str :=
  deduplicate (relayUrls.filter isSecureRelay)

/-- `FilterSupportedRelayUrls`, with what it logs. -/
def filterSupportedRelayUrls (relayUrls : List Str) : List Str × List LogLine :=
  let insecureCount := relayUrls.countP isInsecureRelay
  (supportedRelayUrls relayUrls,
    if insecureCount > 0 then
      [(.warn, lit "Bootstrap ignored " ++ stdToString insecureCount ++
        lit " insecure ws:// relay URLs; monitostr currently monitors wss:// relays only")]
    else [])

/-! ## One query -/

/-- The loop of `QueryKindWithWs` over the messages read in its window. -/
def queryLoop (pf : Platform) (subId : Str) : List Str → List Str → List Str
  | relayUrls, [] => relayUrls
  | relayUrls, payload :: payloads =>
    match pf.parseJson payload with
    | some (.array (.string type :: rest)) =>
      let forUs := rest.head?.bind Json.getString? = some subId
      let relayUrls :=
        match rest[1]? with
        | some event =>
          if type = lit "EVENT" ∧ forUs ∧ event.isObject then
            relayUrls ++ extractRelayUrlsFromEvent pf event
          else relayUrls
        | none => relayUrls
      if type = lit "EOSE" ∧ forUs then relayUrls else queryLoop pf subId relayUrls payloads
    | _ => queryLoop pf subId relayUrls payloads

def queryKindWithWs (pf : Platform) (subId : Str) (payloads : List Str) : List Str :=
  deduplicate (queryLoop pf subId [] payloads)

/-! ## One seed relay -/

structure BootstrapResult where
  ok : Bool := false
  relayUrls : List Str := []
  sourceEventKind : Str := []
  error : Str := []
  deriving DecidableEq

/-- What a seed relay does when it is asked. -/
inductive SeedBehaviour
  | throws (what : Str)
  /-- Whether the host name could be set for TLS, and what the two queries read. -/
  | answers (sniSet : Bool) (kind10002 kind3 : List Str)

/-- The result of the two queries of `QuerySeedRelay`. -/
def queryBothKinds (pf : Platform) (kind10002 kind3 : List Str) : BootstrapResult :=
  let relays := queryKindWithWs pf (lit "bootstrap-10002") kind10002
  if !relays.isEmpty then { ok := true, sourceEventKind := lit "10002", relayUrls := relays }
  else
    let relays := queryKindWithWs pf (lit "bootstrap-3") kind3
    if !relays.isEmpty then { ok := true, sourceEventKind := lit "3", relayUrls := relays }
    else { sourceEventKind := lit "none", error := lit "no relay list found in kinds 10002/3" }

def fallbackRelayUrls (seedRelayUrl : Str) : List Str :=
  [seedRelayUrl, lit "wss://nos.lol", lit "wss://relay.snort.social"]

/-- `QuerySeedRelay`, with what it logs; an exception is the text of its `what`. -/
def querySeedRelay (pf : Platform) (seedRelayUrl hexPubkey : Str) (seed : SeedBehaviour) :
    Except Str (BootstrapResult × List LogLine) :=
  if hexPubkey.isEmpty then .ok ({ error := lit "empty hex pubkey" }, [])
  else
    match parseRelayUrl seedRelayUrl with
    | none => .ok ({ error := lit "invalid seed relay url" }, [])
    | some parsed =>
      match seed with
      | .throws what => .error what
      | .answers sniSet kind10002 kind3 =>
        if parsed.secure && !sniSet then .ok ({ error := lit "failed to set SNI" }, [])
        else
          let result := queryBothKinds pf kind10002 kind3
          let (relayUrls, ignored) := filterSupportedRelayUrls result.relayUrls
          if relayUrls.isEmpty then
            let (fallback, ignoredInFallback) :=
              filterSupportedRelayUrls (fallbackRelayUrls seedRelayUrl)
            .ok ({ result with relayUrls := fallback, ok := true, sourceEventKind := lit "fallback" },
              ignored ++ ignoredInFallback ++
                [(.warn, lit "Bootstrap query failed, using fallback relay set")])
          else .ok ({ result with relayUrls := relayUrls }, ignored)

/-! ## All candidates -/

def kDefaultSeed : Str := lit "wss://relay.damus.io"

/-- The ordered candidates: the given seed, then the well-known ones. -/
def candidateSeeds (seedRelayUrl : Str) : List Str :=
  [seedRelayUrl, lit "wss://nos.lol", lit "wss://relay.nostr.band", lit "wss://relay.snort.social",
    lit "wss://nostr.wine", lit "wss://relay.primal.net"]

/-- The loop over the candidates, each with its behaviour. -/
def tryCandidates (pf : Platform) (hexPubkey : Str) :
    BootstrapResult → List (Str × SeedBehaviour) → BootstrapResult × List LogLine
  | result, [] => (result, [])
  | result, (candidate, seed) :: rest =>
    let trying : LogLine := (.info, lit "Bootstrap trying seed relay: " ++ candidate)
    match querySeedRelay pf candidate hexPubkey seed with
    | .ok (result, logs) =>
      if result.ok then
        (result, trying :: logs ++ [(.info, lit "Bootstrap succeeded via " ++ candidate ++
          lit " [kind:" ++ result.sourceEventKind ++ lit "] | relays discovered: " ++
          stdToString result.relayUrls.length)])
      else
        let (last, more) := tryCandidates pf hexPubkey result rest
        (last, trying :: logs ++ (.warn, lit "Bootstrap seed " ++ candidate ++ lit " failed: " ++
          result.error ++ lit " — trying next") :: more)
    | .error what =>
      let (last, more) := tryCandidates pf hexPubkey { result with ok := false, error := what } rest
      (last, trying :: (.warn, lit "Bootstrap seed " ++ candidate ++ lit " exception: " ++ what ++
        lit " — trying next") :: more)

/-- What `ResolveRelaysForPubkey` logs before it hands the work to the pool. -/
def resolveStarting (seedRelayUrl : Str) : LogLine :=
  (.info, lit "Bootstrap starting (primary seed: " ++ seedRelayUrl ++ lit ")")

/-- The work of `ResolveRelaysForPubkey` on the pool: the result for the completion, and what is
logged. The behaviour of a candidate goes by its place in the list. -/
def resolveRelaysForPubkey (pf : Platform) (hexPubkey seedRelayUrl : Str)
    (behaviour : ℕ → SeedBehaviour) : BootstrapResult × List LogLine :=
  let candidates := (candidateSeeds seedRelayUrl).mapIdx fun i candidate => (candidate, behaviour i)
  let (result, logs) := tryCandidates pf hexPubkey {} candidates
  if !result.ok then
    (result, logs ++
      [(.error, lit "Bootstrap failed on all seed relays — using emergency fallback set")])
  else (result, logs)

end Monitostr.Net
