import Monitostr.Model.LogBuffer

/-! # `ui/navigation_controller.cpp` -/

namespace Monitostr.Ui
open Model
set_option autoImplicit false

inductive ActivePane
  | relays
  | logs
  deriving DecidableEq

structure NavigationState where
  activePane : ActivePane := .relays
  selectedRelay : ℕ := 0
  logsScrollLines : ℕ := 0
  logsFollow : Bool := true
  pendingG : Bool := false
  logsSearchQuery : Str := []
  logsSearchHitOrdinal : ℕ := 0
  deriving DecidableEq

/-- `std::size_t` arithmetic wraps around. -/
def sizeT (n : ℕ) : ℕ := n % 2 ^ 64

/-- The text that a search looks at. -/
def searchedLine (entry : LogEntry) : Str := entry.timestamp ++ lit " " ++ entry.message

/-- `FindLogMatches`: the positions of the entries that have the query in their line. -/
def findLogMatches (logs : List LogEntry) (query : Str) : List ℕ :=
  if query.isEmpty then []
  else
    let loweredQuery := toLowerCopy query
    logs.findIdxs fun entry => (stdFind (toLowerCopy (searchedLine entry)) loweredQuery).isSome

namespace NavigationState

def jumpToTop (state : NavigationState) : NavigationState :=
  { state with selectedRelay := 0, logsScrollLines := 0, pendingG := false }

def jumpToBottom (state : NavigationState) (relayCount logCount logPageLines : ℕ) :
    NavigationState :=
  match state.activePane with
  | .relays => if relayCount > 0 then { state with selectedRelay := relayCount - 1 } else state
  | .logs =>
    if logCount > logPageLines then { state with logsScrollLines := logCount - logPageLines }
    else state

def jumpToPaneStart (state : NavigationState) : NavigationState :=
  match state.activePane with
  | .relays => { state with selectedRelay := 0 }
  | .logs => { state with logsScrollLines := 0, logsFollow := false }

def jumpToPaneEnd (state : NavigationState) (relayCount logCount logPageLines : ℕ) :
    NavigationState :=
  match state.activePane with
  | .relays => if relayCount > 0 then { state with selectedRelay := relayCount - 1 } else state
  | .logs => { state with
      logsScrollLines := if logCount > logPageLines then logCount - logPageLines else 0
      logsFollow := false }

def moveSelectionDown (state : NavigationState) (relayCount : ℕ) : NavigationState :=
  match state.activePane with
  | .relays =>
    if relayCount > 0 ∧ sizeT (state.selectedRelay + 1) < relayCount then
      { state with selectedRelay := sizeT (state.selectedRelay + 1) }
    else state
  | .logs => { state with logsScrollLines := sizeT (state.logsScrollLines + 1), logsFollow := false }

def moveSelectionUp (state : NavigationState) : NavigationState :=
  match state.activePane with
  | .relays =>
    if state.selectedRelay > 0 then { state with selectedRelay := state.selectedRelay - 1 } else state
  | .logs => { state with
      logsScrollLines :=
        if state.logsScrollLines > 0 then state.logsScrollLines - 1 else state.logsScrollLines
      logsFollow := false }

def movePageDown (state : NavigationState) (relayCount logPageLines : ℕ) : NavigationState :=
  match state.activePane with
  | .logs => { state with
      logsScrollLines := sizeT (state.logsScrollLines + logPageLines), logsFollow := false }
  | .relays =>
    if relayCount > 0 then
      { state with selectedRelay := min (sizeT (state.selectedRelay + 5)) (relayCount - 1) }
    else state

def movePageUp (state : NavigationState) (logPageLines : ℕ) : NavigationState :=
  match state.activePane with
  | .logs => { state with
      logsScrollLines :=
        if state.logsScrollLines > logPageLines then state.logsScrollLines - logPageLines else 0
      logsFollow := false }
  | .relays =>
    { state with selectedRelay := if state.selectedRelay > 5 then state.selectedRelay - 5 else 0 }

def advanceLogMatch (state : NavigationState) (logs : List LogEntry) (forward : Bool) :
    NavigationState :=
  if state.activePane ≠ .logs ∨ state.logsSearchQuery = [] then state
  else
    let found := findLogMatches logs state.logsSearchQuery
    if found.isEmpty then state
    else
      let ordinal :=
        if forward then sizeT (state.logsSearchHitOrdinal + 1) % found.length
        else sizeT (state.logsSearchHitOrdinal + found.length - 1) % found.length
      let pos := found.getD ordinal 0
      { state with
        logsSearchHitOrdinal := ordinal
        logsScrollLines := if pos > 2 then pos - 2 else 0
        logsFollow := false }

end NavigationState
end Monitostr.Ui
