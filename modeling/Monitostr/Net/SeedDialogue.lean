import Monitostr.Foundations.Runs
import Monitostr.Net.BootstrapClient

/-! # The conversation with the seed relays

The work of a bootstrap calls the network one call at a time and waits for each to return. A seed is in
the stage whose call is outstanding; a return leads to the next stage. The work goes on to the next
candidate when a seed has failed.
-/

namespace Monitostr.Net
open Model
set_option autoImplicit false

/-! ## Calls and their returns -/

/-- A blocking call of `QuerySeedRelay`. -/
inductive SeedCall
  | resolve (host port : Str)
  | connect
  | setSni (host : Str)
  | tlsHandshake
  | wsHandshake (host target : Str)
  | write (frame : Str)
  | read
  | close
  deriving DecidableEq

/-- How a call returns; the fields that it does not have stay as they are here. -/
structure SeedReturn where
  /-- The `what` of the exception that it throws. -/
  thrown : Option Str := none
  sniSet : Bool := true
  payload : Str := []
  /-- `started` of `QueryKindWithWs`, in nanoseconds. -/
  started : ℕ := 0
  /-- `steady_clock::now()` in the condition of its loop. -/
  now : ℕ := 0
  /-- The `what` of the exception that `dump` throws afterwards, if it does. -/
  dumpError : Str := []

/-- The window of `QueryKindWithWs`, in nanoseconds. -/
def kQueryWindow : ℕ := 8000000000

inductive SeedQuery
  | kind10002
  | kind3
  deriving DecidableEq

def SeedQuery.kind : SeedQuery → ℤ
  | kind10002 => 10002
  | kind3 => 3

def SeedQuery.subId : SeedQuery → Str
  | kind10002 => lit "bootstrap-10002"
  | kind3 => lit "bootstrap-3"

/-- The `req` of `QueryKindWithWs`. -/
def reqMessage (hexPubkey : Str) (query : SeedQuery) : Json :=
  .array [.string (lit "REQ"), .string query.subId,
    .object [(lit "authors", .array [.string hexPubkey]), (lit "kinds", .array [.integer query.kind]),
      (lit "limit", .integer 20)]]

/-- The `close` of `QueryKindWithWs`. -/
def closeMessage (query : SeedQuery) : Json :=
  .array [.string (lit "CLOSE"), .string query.subId]

/-! ## One seed -/

inductive SeedStage
  | resolving
  | connecting
  | settingSni
  | securing
  | upgrading
  | requesting (query : SeedQuery) (frame : Str)
  | reading (query : SeedQuery) (started : ℕ) (relayUrls : List Str)
  | unsubscribing (query : SeedQuery) (frame : Str) (relayUrls : List Str)
  | closing (result : BootstrapResult)
  /-- `QuerySeedRelay` has returned, or thrown. -/
  | finished (outcome : Except Str (BootstrapResult × List LogLine))

variable (pf : Platform) (seedRelayUrl hexPubkey : Str) (parsed : ParsedRelayUrl)

/-- The call that is outstanding. -/
def SeedStage.call : SeedStage → Option SeedCall
  | resolving => some (.resolve parsed.host parsed.port)
  | connecting => some .connect
  | settingSni => some (.setSni parsed.host)
  | securing => some .tlsHandshake
  | upgrading => some (.wsHandshake parsed.host parsed.target)
  | requesting _ frame => some (.write frame)
  | reading _ _ _ => some .read
  | unsubscribing _ frame _ => some (.write frame)
  | closing _ => some .close
  | finished _ => none

/-- The body of the loop of `QueryKindWithWs`: the relays after a message, and whether it is the last. -/
def messageTurn (subId : Str) (relayUrls : List Str) (payload : Str) : List Str × Bool :=
  match pf.parseJson payload with
  | some (.array (.string type :: rest)) =>
    let forUs := rest.head?.bind Json.getString? = some subId
    let relayUrls :=
      match rest[1]? with
      | some event =>
        if type = lit "EVENT" ∧ forUs ∧ event.isObject then
          relayUrls ++ extractRelayUrlsFromEvent pf event
        else relayUrls
      | none => relayUrls
    (relayUrls, type = lit "EOSE" ∧ forUs)
  | _ => (relayUrls, false)

/-- The query is begun: its REQ is written. -/
def ask (query : SeedQuery) (r : SeedReturn) : SeedStage :=
  match pf.dumpJson (reqMessage hexPubkey query) with
  | none => .finished (.error r.dumpError)
  | some frame => .requesting query frame

/-- The loop of `QueryKindWithWs` is left: its CLOSE is written. -/
def leaveLoop (query : SeedQuery) (relayUrls : List Str) (r : SeedReturn) : SeedStage :=
  match pf.dumpJson (closeMessage query) with
  | none => .finished (.error r.dumpError)
  | some frame => .unsubscribing query frame relayUrls

/-- The condition of the loop of `QueryKindWithWs`. -/
def readOn (query : SeedQuery) (started : ℕ) (relayUrls : List Str) (r : SeedReturn) : SeedStage :=
  if r.now < started + kQueryWindow then .reading query started relayUrls
  else leaveLoop pf query relayUrls r

/-- What `QuerySeedRelay` does with the relays of a query. -/
def afterQuery (query : SeedQuery) (relays : List Str) (r : SeedReturn) : SeedStage :=
  match query with
  | .kind10002 =>
    if !relays.isEmpty then
      .closing { ok := true, sourceEventKind := lit "10002", relayUrls := relays }
    else ask pf hexPubkey .kind3 r
  | .kind3 =>
    if !relays.isEmpty then .closing { ok := true, sourceEventKind := lit "3", relayUrls := relays }
    else .closing { sourceEventKind := lit "none", error := lit "no relay list found in kinds 10002/3" }

/-- The end of `QuerySeedRelay`: the supported relays, or the fallback set. -/
def supportedOrFallback (result : BootstrapResult) : BootstrapResult × List LogLine :=
  let (relayUrls, ignored) := filterSupportedRelayUrls result.relayUrls
  if relayUrls.isEmpty then
    let (fallback, ignoredInFallback) := filterSupportedRelayUrls (fallbackRelayUrls seedRelayUrl)
    ({ result with relayUrls := fallback, ok := true, sourceEventKind := lit "fallback" },
      ignored ++ ignoredInFallback ++
        [(.warn, lit "Bootstrap query failed, using fallback relay set")])
  else ({ result with relayUrls := relayUrls }, ignored)

/-- Whether an error of the outstanding call is an exception. `SSL_set_tlsext_host_name` reports it, and the
error codes of the CLOSE and of the closing handshake are ignored. -/
def SeedStage.throws : SeedStage → Bool
  | settingSni | unsubscribing _ _ _ | closing _ | finished _ => false
  | _ => true

/-- The outstanding call has returned without an exception. -/
def SeedStage.returned (stage : SeedStage) (r : SeedReturn) : SeedStage :=
  match stage with
  | resolving => .connecting
  | connecting => if parsed.secure then .settingSni else .upgrading
  | settingSni =>
    if r.sniSet then .securing else .finished (.ok ({ error := lit "failed to set SNI" }, []))
  | securing => .upgrading
  | upgrading => ask pf hexPubkey .kind10002 r
  | requesting query _ => readOn pf query r.started [] r
  | reading query started relayUrls =>
    let (relayUrls, done) := messageTurn pf query.subId relayUrls r.payload
    if done then leaveLoop pf query relayUrls r else readOn pf query started relayUrls r
  | unsubscribing query _ relayUrls => afterQuery pf hexPubkey query (deduplicate relayUrls) r
  | closing result => .finished (.ok (supportedOrFallback seedRelayUrl result))
  | finished outcome => .finished outcome

/-- A return of the outstanding call. -/
def SeedStage.step : SeedStage → SeedReturn → Option SeedStage
  | finished _, _ => none
  | stage, r =>
    match if stage.throws then r.thrown else none with
    | some what => some (.finished (.error what))
    | none => some (stage.returned pf seedRelayUrl hexPubkey parsed r)

/-! ## All candidates -/

/-- The work of `ResolveRelaysForPubkey` on the pool. -/
inductive SeedSearch
  /-- `QuerySeedRelay` asks this candidate; `result` is that of the candidate before. -/
  | asking (candidate : Str) (parsed : ParsedRelayUrl) (stage : SeedStage) (rest : List Str)
    (result : BootstrapResult) (logs : List LogLine)
  | ended (result : BootstrapResult) (logs : List LogLine)

def trying (candidate : Str) : LogLine :=
  (.info, lit "Bootstrap trying seed relay: " ++ candidate)

def seedFailed (candidate error : Str) : LogLine :=
  (.warn, lit "Bootstrap seed " ++ candidate ++ lit " failed: " ++ error ++ lit " — trying next")

def seedThrew (candidate what : Str) : LogLine :=
  (.warn, lit "Bootstrap seed " ++ candidate ++ lit " exception: " ++ what ++ lit " — trying next")

def seedSucceeded (candidate : Str) (result : BootstrapResult) : LogLine :=
  (.info, lit "Bootstrap succeeded via " ++ candidate ++ lit " [kind:" ++ result.sourceEventKind ++
    lit "] | relays discovered: " ++ stdToString result.relayUrls.length)

/-- The next turn of the loop over the candidates. `QuerySeedRelay` refuses an empty pubkey and a URL
that does not parse before it calls anything. -/
def tryNext (hexPubkey : Str) : BootstrapResult → List LogLine → List Str → SeedSearch
  | result, logs, [] =>
    .ended result (logs ++ if !result.ok then
      [(.error, lit "Bootstrap failed on all seed relays — using emergency fallback set")] else [])
  | result, logs, candidate :: rest =>
    let refuse (error : Str) : SeedSearch :=
      tryNext hexPubkey { error := error } (logs ++ [trying candidate, seedFailed candidate error]) rest
    if hexPubkey.isEmpty then refuse (lit "empty hex pubkey")
    else
      match parseRelayUrl candidate with
      | none => refuse (lit "invalid seed relay url")
      | some parsed => .asking candidate parsed .resolving rest result (logs ++ [trying candidate])

/-- What the loop does when `QuerySeedRelay` has returned or thrown. -/
def afterSeed (hexPubkey candidate : Str) (rest : List Str) (result : BootstrapResult)
    (logs : List LogLine) : Except Str (BootstrapResult × List LogLine) → SeedSearch
  | .ok (result, seedLogs) =>
    if result.ok then .ended result (logs ++ seedLogs ++ [seedSucceeded candidate result])
    else tryNext hexPubkey result (logs ++ seedLogs ++ [seedFailed candidate result.error]) rest
  | .error what =>
    tryNext hexPubkey { result with ok := false, error := what } (logs ++ [seedThrew candidate what]) rest

def SeedSearch.step : SeedSearch → SeedReturn → Option SeedSearch
  | ended _ _, _ => none
  | asking candidate parsed stage rest result logs, r =>
    (stage.step pf candidate hexPubkey parsed r).map fun
      | .finished outcome => afterSeed hexPubkey candidate rest result logs outcome
      | stage => .asking candidate parsed stage rest result logs

/-- The search begins with the seed that is given. -/
def SeedSearch.start : SeedSearch := tryNext hexPubkey {} [] (candidateSeeds seedRelayUrl)

end Monitostr.Net
