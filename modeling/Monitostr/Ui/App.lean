import Monitostr.Model.RelayStats
import Monitostr.Ui.CommandProcessor
import Monitostr.Ui.LogPane

/-! # `ui/app.cpp`: the event handler

What the handler reads of other objects at an event (the log buffer, a snapshot of the relays, the answers of
the functions that it calls) is given with the event, so other threads may change them between two events in
any way. What it does besides changing the members of `App` is a list of effects.
-/

namespace Monitostr.Ui
open Model
set_option autoImplicit false

/-! ## Events -/

/-- `ftxui::Event`. -/
structure Event where
  isCharacter : Bool
  input : Str
  deriving DecidableEq

/-- `Event::Character`. -/
def Event.character (text : Str) : Event := { isCharacter := true, input := text }

/-- The inputs of the special events of FTXUI that the handler or the ticker names. Events are compared by
their inputs; these are different, and none is a printable character. -/
structure SpecialKeys where
  escape : Str
  returnKey : Str
  backspace : Str
  ctrlD : Str
  ctrlU : Str
  pageDown : Str
  pageUp : Str
  custom : Str
  distinct : [escape, returnKey, backspace, ctrlD, ctrlU, pageDown, pageUp, custom].Nodup
  notPrintable : ∀ c : UInt8, 32 ≤ c → c < 127 →
    [c] ∉ [escape, returnKey, backspace, ctrlD, ctrlU, pageDown, pageUp, custom]

/-- The inputs that FTXUI reads from a terminal, and the one of `Event::Custom`. -/
def terminalKeys : SpecialKeys where
  escape := [27]
  returnKey := [10]
  backspace := [127]
  ctrlD := [4]
  ctrlU := [21]
  pageDown := [27, 91, 54, 126]
  pageUp := [27, 91, 53, 126]
  custom := [0]
  distinct := by decide
  notPrintable := by
    intro c hlow hhigh hmem
    have hbyte : c = 27 ∨ c = 10 ∨ c = 127 ∨ c = 4 ∨ c = 21 ∨ c = 0 := by simpa using hmem
    rcases hbyte with rfl | rfl | rfl | rfl | rfl | rfl
    all_goals
      revert hlow hhigh
      decide

/-- `Event::Backspace`. -/
def SpecialKeys.erase (keys : SpecialKeys) : Event := { isCharacter := false, input := keys.backspace }

/-- `Event::Custom`, which the ticker posts. -/
def SpecialKeys.tick (keys : SpecialKeys) : Event := { isCharacter := false, input := keys.custom }

/-! ## State -/

inductive RenderMode
  | normal
  | insert
  | search
  | command
  deriving DecidableEq

/-- The members of `App` that the handler changes. -/
structure App extends NavigationState where
  mode : RenderMode := .normal
  inputNpub : Str := []
  commandLine : Str := []
  compactMode : CompactMode := .auto
  deriving DecidableEq

/-- What the handler sees of other objects. -/
structure Surroundings where
  logBuffer : Option LogBuffer := none
  /-- `shared_stats_->Snapshot()`. -/
  relays : List RelayStat := []
  /-- Whether `on_auth_` and `request_exit_` are set. -/
  onAuth : Bool := true
  requestExit : Bool := true
  desktop : Desktop := {}
  moment : Moment := {}

inductive AppEffect
  | command (effect : CommandEffect)
  | onAuth (nsec : Str)
  | onSubmit (npub : Str)
  deriving DecidableEq

/-- The result of the handler: the members after it, what it returns, and what else it did. -/
structure Handled where
  app : App
  handled : Bool
  effects : List AppEffect := []

/-! ## Texts -/

def kMaxInputLength : ℕ := 512
def kLogPageLines : ℕ := 8

def looksLikeNsecInput (value : Str) : Bool :=
  let kPrefix := lit "nsec1"
  if value.length < kPrefix.length then false else toLowerCopy (value.take kPrefix.length) == kPrefix

/-- `FormatNips`. -/
def formatNips : List Int32 → Str
  | [] => lit "-"
  | nip :: nips => stdToStringInt nip.toInt ++ nips.flatMap fun nip => lit "," ++ stdToStringInt nip.toInt

/-- The end of `FormatRelayReport`. -/
def formatUptime (m : Moment) (connectedAt : ℕ) : Str :=
  let elapsed := ((m.steady : ℤ) - connectedAt).tdiv 1000000000
  lit " | uptime=" ++ stdToStringInt (elapsed.tdiv 60) ++ lit "m " ++
    stdToStringInt (elapsed.tmod 60) ++ lit "s"

def formatRelayReport (m : Moment) (stat : RelayStat) : Str :=
  lit "Selected relay: " ++ stat.relayUrl ++ lit " | status=" ++ stat.status.toText ++
    (match stat.latencyMs with
      | none => []
      | some latency => lit " | latency=" ++ stdToStringInt latency ++ lit " ms") ++
    lit " | events=" ++ stdToString stat.eventsCount.toNat ++
    lit " | nips=" ++ (if stat.supportedNips.isEmpty then lit "-" else formatNips stat.supportedNips) ++
    (match stat.connectedAt with
      | none => []
      | some connectedAt => formatUptime m connectedAt) ++
    (if stat.lastError.isEmpty then [] else lit " | error=" ++ stat.lastError)

/-! ## The handler -/

namespace App
variable (keys : SpecialKeys) (surroundings : Surroundings)

/-- `apply_navigation_state`. -/
def applyNavigationState (app : App) (navigationState : NavigationState) : App :=
  { app with toNavigationState := navigationState }

/-- `log_buffer_->Snapshot()`, empty without a buffer. -/
def logs : List LogEntry :=
  match surroundings.logBuffer with
  | none => []
  | some log => log.snapshot

def commandState (app : App) : CommandState where
  logsFollow := app.logsFollow
  compactMode := app.compactMode
  logsSearchQuery := app.logsSearchQuery
  logsSearchHitOrdinal := app.logsSearchHitOrdinal
  logsScrollLines := app.logsScrollLines

/-- The callbacks that the handler passes to `ExecuteCommand`. -/
def commandCallbacks (app : App) : CommandCallbacks where
  requestExit := surroundings.requestExit
  onAuth := surroundings.onAuth
  selectedRelayText := some (surroundings.relays[app.selectedRelay]?.map RelayStat.relayUrl)
  selectedRelayReport :=
    some (surroundings.relays[app.selectedRelay]?.map (formatRelayReport surroundings.moment))

def commandReturn (app : App) : Handled :=
  let result := executeCommand surroundings.desktop app.commandState surroundings.logBuffer
    (app.commandCallbacks surroundings) app.commandLine
  { app := { app with
      logsFollow := result.1.logsFollow
      compactMode := result.1.compactMode
      logsSearchQuery := result.1.logsSearchQuery
      logsSearchHitOrdinal := result.1.logsSearchHitOrdinal
      logsScrollLines := result.1.logsScrollLines
      commandLine := []
      mode := .normal
      pendingG := false }
    handled := true
    effects := result.2.map .command }

/-- The buffer after `event.character()`, when there is room. -/
def typed (buffer : Str) (event : Event) : Str :=
  if buffer.length < kMaxInputLength then buffer ++ event.input else buffer

def commandEvent (app : App) (event : Event) : Handled :=
  if event.input = keys.escape then
    { app := { app with commandLine := [], mode := .normal, pendingG := false }, handled := true }
  else if event.input = keys.returnKey then app.commandReturn surroundings
  else if event.input = keys.backspace then
    { app := { app with commandLine := app.commandLine.dropLast }, handled := true }
  else if event.isCharacter then
    { app := { app with commandLine := typed app.commandLine event }, handled := true }
  else { app := app, handled := false }

def searchEvent (app : App) (event : Event) : Handled :=
  let navigationState := app.toNavigationState
  if event.input = keys.escape then
    { app := { app with mode := .normal }.applyNavigationState { navigationState with pendingG := false }
      handled := true }
  else if event.input = keys.returnKey then
    { app := { app with mode := .normal }.applyNavigationState
        { navigationState with logsSearchHitOrdinal := 0, pendingG := false }
      handled := true }
  else if event.input = keys.backspace then
    { app := app.applyNavigationState
        { navigationState with logsSearchQuery := navigationState.logsSearchQuery.dropLast }
      handled := true }
  else if event.isCharacter then
    { app := app.applyNavigationState
        { navigationState with logsSearchQuery := typed navigationState.logsSearchQuery event }
      handled := true }
  else { app := app, handled := false }

/-- The call for a submitted input that is not empty. -/
def submit (submittedInput : Str) : List AppEffect :=
  if submittedInput.isEmpty then []
  else if looksLikeNsecInput submittedInput && surroundings.onAuth then [.onAuth submittedInput]
  else [.onSubmit submittedInput]

def insertEvent (app : App) (event : Event) : Handled :=
  if event.input = keys.escape then
    { app := { app with inputNpub := [], mode := .normal, pendingG := false }, handled := true }
  else if event.input = keys.returnKey then
    { app := { app with inputNpub := [], mode := .normal, pendingG := false }
      handled := true
      effects := submit surroundings (trimCopy app.inputNpub) }
  else if event.input = keys.backspace then
    { app := { app with inputNpub := app.inputNpub.dropLast }, handled := true }
  else if event.isCharacter then
    { app := { app with inputNpub := typed app.inputNpub event }, handled := true }
  else { app := app, handled := false }

def normalEvent (app : App) (event : Event) : Handled :=
  let navigationState := app.toNavigationState
  let cleared := { navigationState with pendingG := false }
  if event.input = lit "i" then
    { app := { app with mode := .insert }.applyNavigationState cleared, handled := true }
  else if event.input = lit ":" then
    { app := { app with mode := .command, commandLine := [] }.applyNavigationState cleared
      handled := true }
  else if event.input = lit "/" then
    { app := { app with mode := .search }.applyNavigationState
        { cleared with activePane := .logs, logsFollow := false }
      handled := true }
  else if event.input = lit "h" then
    { app := app.applyNavigationState { cleared with activePane := .relays }, handled := true }
  else if event.input = lit "l" then
    { app := app.applyNavigationState { cleared with activePane := .logs }, handled := true }
  else if event.input = lit "f" then
    { app := app.applyNavigationState { cleared with logsFollow := !navigationState.logsFollow }
      handled := true }
  else if event.input = lit "g" then
    { app := app.applyNavigationState
        (if navigationState.pendingG then navigationState.jumpToTop
        else { navigationState with pendingG := true })
      handled := true }
  else if event.input = lit "G" then
    { app := app.applyNavigationState
        (cleared.jumpToBottom surroundings.relays.length (logs surroundings).length kLogPageLines)
      handled := true }
  else if event.input = lit "0" then
    { app := app.applyNavigationState cleared.jumpToPaneStart, handled := true }
  else if event.input = lit "$" then
    { app := app.applyNavigationState
        (cleared.jumpToPaneEnd surroundings.relays.length (logs surroundings).length kLogPageLines)
      handled := true }
  else if event.input = lit "n" ∨ event.input = lit "N" then
    { app := app.applyNavigationState
        (cleared.advanceLogMatch (logs surroundings) (event.input = lit "n"))
      handled := true }
  else if event.input = lit "j" then
    { app := app.applyNavigationState (cleared.moveSelectionDown surroundings.relays.length)
      handled := true }
  else if event.input = lit "k" then
    { app := app.applyNavigationState cleared.moveSelectionUp, handled := true }
  else if event.input = keys.ctrlD ∨ event.input = keys.pageDown ∨ event.input = lit "d" then
    { app := app.applyNavigationState
        (cleared.movePageDown surroundings.relays.length kLogPageLines)
      handled := true }
  else if event.input = keys.ctrlU ∨ event.input = keys.pageUp ∨ event.input = lit "u" then
    { app := app.applyNavigationState (cleared.movePageUp kLogPageLines), handled := true }
  else if event.input = keys.escape then
    { app := { app with mode := .normal }.applyNavigationState cleared, handled := true }
  -- An event that no branch handles: the local state, with `pending_g` cleared, is not written back.
  else { app := app, handled := false }

/-- The function passed to `CatchEvent`. -/
def catchEvent (app : App) (event : Event) : Handled :=
  match app.mode with
  | .command => app.commandEvent keys surroundings event
  | .search => app.searchEvent keys event
  | .insert => app.insertEvent keys surroundings event
  | .normal => app.normalEvent keys surroundings event

/-- The render function of the component, as far as the log pane and the selection are concerned. -/
def frame (app : App) (dimy : ℤ) : App × RenderContext :=
  let result := app.toNavigationState.render dimy surroundings.relays.length (logs surroundings)
  (app.applyNavigationState result.1, result.2)

end App
end Monitostr.Ui
