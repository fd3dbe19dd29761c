import Monitostr.Model.LogBuffer

/-! # `ui/command_processor.cpp`

What `ExecuteCommand` does besides changing the `CommandState` is a list of effects, in the order of the
calls. The answers of the functions that it calls are inputs.
-/

namespace Monitostr.Ui
open Model
set_option autoImplicit false

inductive CompactMode
  | auto
  | forceCompact
  | forceWide
  deriving DecidableEq

structure CommandState where
  logsFollow : Bool := true
  compactMode : CompactMode := .auto
  logsSearchQuery : Str := []
  logsSearchHitOrdinal : ℕ := 0
  logsScrollLines : ℕ := 0
  deriving DecidableEq

/-- `CommandCallbacks`. Of a function that is set the answer is given, if it has one. -/
structure CommandCallbacks where
  requestExit : Bool := false
  onAuth : Bool := false
  copyText : Option (Str → Bool) := none
  selectedRelayText : Option (Option Str) := none
  selectedRelayReport : Option (Option Str) := none

/-- The answers of the functions that reach outside of the program. -/
structure Desktop where
  copyTextToClipboardMac : Str → Bool := fun _ => false
  saveTextToFile : Str → Str → Bool := fun _ _ => true

inductive CommandEffect
  | log (level : LogLevel) (message : Str)
  | clearLogs
  | requestExit
  | onAuth (nsecArg : Str)
  | copyText (text : Str)
  | selectedRelayText
  | selectedRelayReport
  | copyTextToClipboardMac (text : Str)
  | saveTextToFile (path text : Str)
  deriving DecidableEq

/-! ## Hints -/

structure CommandEntry where
  name : Str
  desc : Str
  deriving DecidableEq

def startsWith (value pre : Str) : Bool := pre.isPrefixOf value

def kCommands : List CommandEntry :=
  [⟨lit "q", lit "quit"⟩,
    ⟨lit "quit", lit "quit"⟩,
    ⟨lit "qa", lit "quit all"⟩,
    ⟨lit "qall", lit "quit all"⟩,
    ⟨lit "cl", lit "clear logs"⟩,
    ⟨lit "clearlogs", lit "clear logs"⟩,
    ⟨lit "set follow", lit "enable log follow"⟩,
    ⟨lit "set nofollow", lit "disable log follow"⟩,
    ⟨lit "set nipswrap", lit "wrap NIPs"⟩,
    ⟨lit "set nonipswrap", lit "unwrap NIPs"⟩,
    ⟨lit "set compact", lit "force compact layout"⟩,
    ⟨lit "set nocompact", lit "force wide layout"⟩,
    ⟨lit "set autocompact", lit "auto layout"⟩,
    ⟨lit "filter", lit "filter logs [pattern|clear]"⟩,
    ⟨lit "copylogs", lit "copy logs to clipboard"⟩,
    ⟨lit "yanklogs", lit "copy logs to clipboard"⟩,
    ⟨lit "copyrelay", lit "copy selected relay URL"⟩,
    ⟨lit "yankrelay", lit "copy selected relay URL"⟩,
    ⟨lit "relayinfo", lit "print selected relay details"⟩,
    ⟨lit "ri", lit "print selected relay details"⟩,
    ⟨lit "wlogs", lit "write logs to file"⟩,
    ⟨lit "auth", lit "set NIP-42 key (nsec1...)"⟩,
    ⟨lit "help", lit "show help"⟩,
    ⟨lit "h", lit "show help"⟩]

/-- What the loop of `ComputeCommandHint` appends for an entry. -/
def CommandEntry.hint (entry : CommandEntry) : Str :=
  lit ":" ++ entry.name ++ lit "(" ++ entry.desc ++ lit ")"

/-- The loop of `ComputeCommandHint`, with its `hint` and `count`. -/
def hintLoop (lower : Str) : List CommandEntry → Str → ℕ → Str
  | [], hint, _ => hint
  | entry :: entries, hint, count =>
    if startsWith entry.name lower then
      let hint := (if hint.isEmpty then hint else hint ++ lit "  ") ++ entry.hint
      if count + 1 ≥ 5 then hint else hintLoop lower entries hint (count + 1)
    else hintLoop lower entries hint count

def computeCommandHint (input : Str) : Str :=
  if input.isEmpty then
    lit "q  cl  set  filter  auth  copylogs  copyrelay  relayinfo  wlogs  help"
  else hintLoop (toLowerCopy input) kCommands [] 0

/-! ## Execution -/

def joinLogsText (logs : List LogEntry) : Str :=
  logs.flatMap fun entry =>
    entry.timestamp ++ lit " [" ++ entry.level.toText ++ lit "] " ++ entry.message ++ lit "\n"

/-- The branches of `ExecuteCommand`. -/
inductive CommandBranch
  | exit
  | clearLogs
  | setFollow
  | setNofollow
  | setCompact
  | setNocompact
  | setAutocompact
  | filter
  | copyLogs
  | copyRelay
  | relayInfo
  | wlogs
  | auth
  | help
  | unknown
  | nothing
  deriving DecidableEq, Repr

/-- Which branch is taken for `cmd`, the trimmed command in lower case. -/
def commandBranch (cmd : Str) : CommandBranch :=
  if cmd = lit "q" ∨ cmd = lit "quit" ∨ cmd = lit "qa" ∨ cmd = lit "qall" then .exit
  else if cmd = lit "clearlogs" ∨ cmd = lit "cl" then .clearLogs
  else if cmd = lit "set follow" then .setFollow
  else if cmd = lit "set nofollow" then .setNofollow
  else if cmd = lit "set compact" then .setCompact
  else if cmd = lit "set nocompact" then .setNocompact
  else if cmd = lit "set autocompact" then .setAutocompact
  else if startsWith cmd (lit "filter") then .filter
  else if cmd = lit "copylogs" ∨ cmd = lit "yanklogs" then .copyLogs
  else if cmd = lit "copyrelay" ∨ cmd = lit "yankrelay" then .copyRelay
  else if cmd = lit "relayinfo" ∨ cmd = lit "ri" then .relayInfo
  else if startsWith cmd (lit "wlogs") then .wlogs
  else if startsWith cmd (lit "auth") then .auth
  else if cmd = lit "help" ∨ cmd = lit "h" then .help
  else if cmd ≠ [] then .unknown
  else .nothing

section Execution
variable (desktop : Desktop) (state : CommandState) (logBuffer : Option LogBuffer)
  (callbacks : CommandCallbacks)

/-- A line for the log buffer, if there is one. -/
def logLine (level : LogLevel) (message : Str) : List CommandEffect :=
  match logBuffer with
  | none => []
  | some _ => [.log level message]

/-- The call of `copy_text`: the callback, or `CopyTextToClipboardMac`. -/
def copyTextCall (text : Str) : CommandEffect × Bool :=
  match callbacks.copyText with
  | none => (.copyTextToClipboardMac text, desktop.copyTextToClipboardMac text)
  | some copyText => (.copyText text, copyText text)

/-- The filter branch, with its `pattern`. -/
def filterCommand (pattern : Str) : CommandState × List CommandEffect :=
  if pattern = [] ∨ toLowerCopy pattern = lit "clear" then
    ({ state with logsSearchQuery := [], logsSearchHitOrdinal := 0 },
      logLine logBuffer .info (lit "Log filter cleared (:filter clear)"))
  else
    ({ state with logsSearchQuery := pattern, logsSearchHitOrdinal := 0, logsFollow := false },
      logLine logBuffer .info (lit "Log filter set to: " ++ pattern))

def copyLogsCommand : List CommandEffect :=
  match logBuffer with
  | none => []
  | some log =>
    let logs := log.snapshot
    let call := copyTextCall desktop callbacks (joinLogsText logs)
    if call.2 then
      [call.1, .log .info (lit "Copied " ++ stdToString logs.length ++ lit " log lines to clipboard")]
    else [call.1, .log .error (lit "Failed to copy logs to clipboard (pbcopy unavailable?)")]

def copyRelayCommand : List CommandEffect :=
  let called := if callbacks.selectedRelayText.isSome then [CommandEffect.selectedRelayText] else []
  match callbacks.selectedRelayText.join with
  | none | some [] => called ++ logLine logBuffer .warn (lit "No relay is currently selected")
  | some relayUrl =>
    match logBuffer with
    | none => called
    | some _ =>
      let call := copyTextCall desktop callbacks relayUrl
      if call.2 then
        called ++ [call.1, .log .info (lit "Copied selected relay URL to clipboard: " ++ relayUrl)]
      else called ++ [call.1, .log .error (lit "Failed to copy selected relay URL to clipboard")]

def relayInfoCommand : List CommandEffect :=
  let called :=
    if callbacks.selectedRelayReport.isSome then [CommandEffect.selectedRelayReport] else []
  match callbacks.selectedRelayReport.join with
  | none | some [] => called ++ logLine logBuffer .warn (lit "No relay is currently selected")
  | some relayReport => called ++ logLine logBuffer .info relayReport

/-- The wlogs branch, with its `file_path`. -/
def wlogsCommand (filePath : Str) : List CommandEffect :=
  if filePath = [] then logLine logBuffer .warn (lit "Usage: :wlogs <path>")
  else
    match logBuffer with
    | none => []
    | some log =>
      let logs := log.snapshot
      let text := joinLogsText logs
      if desktop.saveTextToFile filePath text then
        [.saveTextToFile filePath text,
          .log .info (lit "Saved " ++ stdToString logs.length ++ lit " log lines to " ++ filePath)]
      else [.saveTextToFile filePath text, .log .error (lit "Failed to save logs to " ++ filePath)]

/-- The auth branch, with its `nsec_arg`. -/
def authCommand (nsecArg : Str) : List CommandEffect :=
  if nsecArg = [] then logLine logBuffer .warn (lit "Usage: :auth nsec1...")
  else if callbacks.onAuth then [.onAuth nsecArg]
  else logLine logBuffer .warn (lit "Auth handler not configured")

def helpText : Str :=
  lit "Commands: :q :quit :qa :qall :clearlogs (:cl) :set follow :set nofollow " ++
  lit ":set nipswrap :set nonipswrap :set compact :set nocompact :set autocompact " ++
  lit ":filter <pattern> :filter clear " ++
  lit ":copylogs (:yanklogs) :copyrelay (:yankrelay) :relayinfo (:ri) :wlogs <path> " ++
  lit ":auth nsec1... (NIP-42 auth) " ++
  lit ":help"

/-- The rest of the command after a name of `n` bytes, trimmed. -/
def argument (raw : Str) (n : ℕ) : Str := if raw.length > n then trimCopy (raw.drop n) else []

def executeCommand (rawCommand : Str) : CommandState × List CommandEffect :=
  let raw := trimCopy rawCommand
  let cmd := toLowerCopy raw
  match commandBranch cmd with
  | .exit =>
    (state, logLine logBuffer .info (lit "Command :" ++ rawCommand ++ lit " executed (exit)") ++
      if callbacks.requestExit then [.requestExit] else [])
  | .clearLogs =>
    ({ state with logsScrollLines := 0, logsFollow := true },
      match logBuffer with
      | none => []
      | some _ => [.clearLogs, .log .info (lit "Logs cleared by command :" ++ rawCommand)])
  | .setFollow =>
    ({ state with logsFollow := true },
      logLine logBuffer .info (lit "Logs follow mode enabled (:set follow)"))
  | .setNofollow =>
    ({ state with logsFollow := false },
      logLine logBuffer .info (lit "Logs follow mode disabled (:set nofollow)"))
  | .setCompact =>
    ({ state with compactMode := .forceCompact },
      logLine logBuffer .info (lit "Compact layout forced (:set compact)"))
  | .setNocompact =>
    ({ state with compactMode := .forceWide },
      logLine logBuffer .info (lit "Wide layout forced (:set nocompact)"))
  | .setAutocompact =>
    ({ state with compactMode := .auto },
      logLine logBuffer .info (lit "Layout mode returned to auto detection (:set autocompact)"))
  | .filter => filterCommand state logBuffer (argument raw 6)
  | .copyLogs => (state, copyLogsCommand desktop logBuffer callbacks)
  | .copyRelay => (state, copyRelayCommand desktop logBuffer callbacks)
  | .relayInfo => (state, relayInfoCommand logBuffer callbacks)
  | .wlogs => (state, wlogsCommand desktop logBuffer (argument raw 5))
  | .auth => (state, authCommand logBuffer callbacks (argument raw 4))
  | .help => (state, logLine logBuffer .info helpText)
  | .unknown => (state, logLine logBuffer .warn (lit "Unknown command :" ++ rawCommand))
  | .nothing => (state, [])

end Execution
end Monitostr.Ui
