import Monitostr.Net.SessionManager
import Monitostr.Nip19.RoundTrip

/-! # `main.cpp`

The callbacks of the user interface, the completion of a bootstrap and the input and output of the
sessions, as the steps of one machine. The worker pool of the bootstrap client has one thread, so the
bootstraps complete in the order of their submission.
-/

namespace Monitostr.Main
open Foundations Model Net Nip19 Nostr
set_option autoImplicit false

structure HeaderContext where
  npub : Str := []
  hexPubkey : Str := []
  deriving DecidableEq

/-- A call of `ResolveRelaysForPubkey` that has not completed, with what its completion captured. -/
structure PendingBootstrap where
  hexPubkey : Str
  authKeySnapshot : Option AuthKey
  deriving DecidableEq

/-- The objects that `main` sets up, and `auth_key`. -/
structure Application where
  sharedStats : RelayStats := .empty
  logBuffer : LogBuffer := {}
  header : HeaderContext := {}
  authKey : Option AuthKey := none
  pending : List PendingBootstrap := []
  sessionManager : SessionManager := {}

/-- What drives the program, with the moment at which it happens. -/
inductive AppEvent
  | npubSubmit (m : Moment) (npub : Str)
  | nsecSubmit (m : Moment) (nsec : Str)
  /-- The first pending bootstrap completes, its seeds having behaved like this. -/
  | bootstrapCompletes (m : Moment) (behaviour : ℕ → SeedBehaviour)
  | session (m : Moment) (group : SessionGroup) (i : ℕ) (io : SessionIo)

namespace Application

def log (app : Application) (m : Moment) (level : LogLevel) (message : Str) : Application :=
  { app with logBuffer := app.logBuffer.push m level message }

def logAll (app : Application) (m : Moment) (lines : List LogLine) : Application :=
  lines.foldl (fun app line => app.log m line.1 line.2) app

def applyEffect (m : Moment) (app : Application) : Effect → Application
  | .stats op => { app with sharedStats := app.sharedStats.apply m op }
  | .log level message => app.log m level message
  | _ => app

/-- The state before `app.Run()`. -/
def start (m : Moment) : Application := ({} : Application).log m .info (lit "Application started")

/-! ## Submissions -/

/-- `ResolveRelaysForPubkey`, with the snapshot of `auth_key` in its completion. -/
def resolveRelays (app : Application) (m : Moment) (hexPubkey : Str) : Application :=
  let app := app.logAll m [resolveStarting kDefaultSeed]
  { app with pending := app.pending ++ [{ hexPubkey := hexPubkey, authKeySnapshot := app.authKey }] }

def resetStats (app : Application) (m : Moment) : Application :=
  { app with sharedStats := app.sharedStats.reset }.log m .info (lit "Relay stats reset")

def onNpubSubmit (app : Application) (m : Moment) (npub : Str) : Application :=
  let app := app.log m .info (lit "New npub submitted")
  let decode := decodeNpubToHex npub
  if !decode.ok then app.log m .error (lit "Invalid npub: " ++ decode.error)
  else
    let app := { app with header := { npub := npub, hexPubkey := decode.hexPubkey } }
    let app := app.log m .info (lit "npub decoded successfully")
    (app.resetStats m).resolveRelays m decode.hexPubkey

/-- The end of the `NsecSubmit` callback, when there are no sessions: the npub is derived from the
key. -/
def monitorDerived (app : Application) (m : Moment) (derivedPubkey : Str) : Application :=
  let npubResult := encodeNpubFromHex derivedPubkey
  if !npubResult.ok then
    app.log m .error (lit "Failed to encode npub from nsec: " ++ npubResult.error)
  else
    let app := app.log m .info (lit "npub derived from nsec, starting monitoring")
    let npubDecode := decodeNpubToHex npubResult.npub
    if !npubDecode.ok then app.log m .error (lit "Invalid npub from nsec: " ++ npubDecode.error)
    else
      let app := { app with header := { npub := npubResult.npub, hexPubkey := npubDecode.hexPubkey } }
      (app.resetStats m).resolveRelays m npubDecode.hexPubkey

def onNsecSubmit (pf : Platform) (app : Application) (m : Moment) (nsec : Str) : Application :=
  let decode := decodeNsecToHex nsec
  if !decode.ok then app.log m .error (lit "Invalid nsec: " ++ decode.error)
  else
    match AuthKey.fromHexPrivkey pf decode.hexPrivkey with
    | none => app.log m .error (lit "nsec key derivation failed")
    | some nextAuthKey =>
      let app := { app with authKey := some nextAuthKey }
      let derivedPubkey := nextAuthKey.hexPubkey
      let app := app.log m .info (lit "NIP-42 auth key set (pubkey: " ++ derivedPubkey.take 16 ++
        lit "...)")
      if app.sessionManager.hasActiveSessions then
        let (manager, lines) := app.sessionManager.updateAuthKey app.authKey
        { app with sessionManager := manager }.logAll m lines
      else app.monitorDerived m derivedPubkey

/-! ## Completions -/

/-- The completion that both callbacks pass to `ResolveRelaysForPubkey`. -/
def onBootstrapResult (app : Application) (m : Moment) (bootstrap : PendingBootstrap)
    (result : BootstrapResult) : Application :=
  if !result.ok then app.log m .error (lit "Bootstrap failed: " ++ result.error)
  else
    let app := app.log m .info (lit "Bootstrap returned " ++ stdToString result.relayUrls.length ++
      lit " relays")
    let (manager, lines) := app.sessionManager.start result.relayUrls bootstrap.hexPubkey
      bootstrap.authKeySnapshot
    { app with sessionManager := manager }.logAll m lines

def completeBootstrap (pf : Platform) (app : Application) (m : Moment) (bootstrap : PendingBootstrap)
    (behaviour : ℕ → SeedBehaviour) : Application :=
  let (result, lines) := resolveRelaysForPubkey pf bootstrap.hexPubkey kDefaultSeed behaviour
  (app.logAll m lines).onBootstrapResult m bootstrap result

/-- One event; `none` when nothing is pending, or the session has no such operation or handler. -/
def step (pf : Platform) (app : Application) : AppEvent → Option Application
  | .npubSubmit m npub => some (app.onNpubSubmit m npub)
  | .nsecSubmit m nsec => some (app.onNsecSubmit pf m nsec)
  | .bootstrapCompletes m behaviour =>
    match app.pending with
    | [] => none
    | bootstrap :: rest => some ({ app with pending := rest }.completeBootstrap pf m bootstrap behaviour)
  | .session m group i io =>
    (app.sessionManager.react pf group i (io.event m)).map fun (manager, effects) =>
      effects.foldl (applyEffect m) { app with sessionManager := manager }

end Application
end Monitostr.Main
