import Monitostr.Ui.NavigationController

/-! # The log pane in a frame, of `ui/app.cpp` and `ui/ui_renderer.cpp`

What the render function of `App` makes of its state and the logs for the log pane, and what `RenderLogs`
draws of it.
-/

namespace Monitostr.Ui
open Model
set_option autoImplicit false

/-- `log_lines` for the height of the terminal. -/
def logLines (dimy : ℤ) : ℕ := (max 6 (min 12 (dimy.tdiv 3))).toNat

/-- The members of `RenderContext` that `RenderLogs` reads. -/
structure RenderContext where
  logLines : ℕ := 0
  logsScrollLines : ℕ := 0
  visibleLogs : List LogEntry := []
  deriving DecidableEq

/-- The entries that the render function keeps for a query. -/
def keepsEntry (query : Str) (entry : LogEntry) : Bool :=
  (stdSearch (fun a b => toLower a == toLower b) (searchedLine entry) query).isSome

def visibleLogs (logs : List LogEntry) (query : Str) : List LogEntry :=
  if query.isEmpty then logs else logs.filter (keepsEntry query)

/-- The scroll position that follows the end of a list. -/
def followScroll (entries lines : ℕ) : ℕ := if entries > lines then entries - lines else 0

/-- The render function: it changes members of the app, and gives the context of the frame. -/
def NavigationState.render (state : NavigationState) (dimy : ℤ) (relayCount : ℕ)
    (logs : List LogEntry) : NavigationState × RenderContext :=
  let lines := logLines dimy
  let state :=
    if state.logsFollow then { state with logsScrollLines := followScroll logs.length lines }
    else state
  let state :=
    if relayCount > 0 ∧ state.selectedRelay ≥ relayCount then
      { state with selectedRelay := relayCount - 1 }
    else state
  let visible := visibleLogs logs state.logsSearchQuery
  let state :=
    if state.logsFollow then { state with logsScrollLines := followScroll visible.length lines }
    else state
  (state, { logLines := lines, logsScrollLines := state.logsScrollLines, visibleLogs := visible })

/-- The first row of `RenderLogs`. -/
def RenderContext.start (context : RenderContext) : ℕ :=
  let total := context.visibleLogs.length
  if total > context.logLines then
    let maxStart := total - context.logLines
    if context.logsScrollLines > maxStart then maxStart else context.logsScrollLines
  else 0

/-- The rows that `RenderLogs` draws, as positions in `visible_logs`. -/
def RenderContext.rows (context : RenderContext) : List ℕ :=
  ((List.range context.visibleLogs.length).drop context.start).take context.logLines

end Monitostr.Ui
