import Monitostr.Ui.App

/-! # What the event handler can do

`normalEvent_eq` says once what an event does in Normal mode: it asks for something, by its input, and that
is done. `normalEvent_step` is what it changes, and the other modes have one lemma for each kind of event.
The results on runs use these only.
-/

namespace Monitostr.Ui
open Model
set_option autoImplicit false

/-! ## What the navigation functions leave alone -/

namespace NavigationState

/-- The navigation functions that a key in Normal mode calls, `JumpToTop` apart, leave these members alone. -/
structure KeepsSearch (state result : NavigationState) : Prop where
  pendingG : result.pendingG = state.pendingG
  query : result.logsSearchQuery = state.logsSearchQuery

variable (state : NavigationState) (relayCount logCount logPageLines : ℕ)

theorem jumpToBottom_keeps : KeepsSearch state (state.jumpToBottom relayCount logCount logPageLines) := by
  rw [jumpToBottom]
  split <;> split <;> exact ⟨rfl, rfl⟩

theorem jumpToPaneStart_keeps : KeepsSearch state state.jumpToPaneStart := by
  rw [jumpToPaneStart]
  split <;> exact ⟨rfl, rfl⟩

theorem jumpToPaneEnd_keeps :
    KeepsSearch state (state.jumpToPaneEnd relayCount logCount logPageLines) := by
  rw [jumpToPaneEnd]
  split
  · split <;> exact ⟨rfl, rfl⟩
  · exact ⟨rfl, rfl⟩

theorem moveSelectionDown_keeps : KeepsSearch state (state.moveSelectionDown relayCount) := by
  rw [moveSelectionDown]
  split
  · split <;> exact ⟨rfl, rfl⟩
  · exact ⟨rfl, rfl⟩

theorem moveSelectionUp_keeps : KeepsSearch state state.moveSelectionUp := by
  rw [moveSelectionUp]
  split
  · split <;> exact ⟨rfl, rfl⟩
  · exact ⟨rfl, rfl⟩

theorem movePageDown_keeps : KeepsSearch state (state.movePageDown relayCount logPageLines) := by
  rw [movePageDown]
  split
  · exact ⟨rfl, rfl⟩
  · split <;> exact ⟨rfl, rfl⟩

theorem movePageUp_keeps : KeepsSearch state (state.movePageUp logPageLines) := by
  rw [movePageUp]
  split <;> exact ⟨rfl, rfl⟩

theorem advanceLogMatch_keeps (logs : List LogEntry) (forward : Bool) :
    KeepsSearch state (state.advanceLogMatch logs forward) := by
  rw [advanceLogMatch]
  split
  · exact ⟨rfl, rfl⟩
  · dsimp only
    split <;> exact ⟨rfl, rfl⟩

end NavigationState

/-! ## Normal mode -/

/-- What an input asks for in Normal mode. -/
inductive NormalKey
  | insert | command | search | relays | logs | follow | pendingG | bottom | paneStart | paneEnd
  | nextMatch (forward : Bool) | down | up | pageDown | pageUp | escape | unbound

/-- The tests of `normalEvent`, in its order. -/
def normalKey (keys : SpecialKeys) (event : Event) : NormalKey :=
  if event.input = lit "i" then .insert
  else if event.input = lit ":" then .command
  else if event.input = lit "/" then .search
  else if event.input = lit "h" then .relays
  else if event.input = lit "l" then .logs
  else if event.input = lit "f" then .follow
  else if event.input = lit "g" then .pendingG
  else if event.input = lit "G" then .bottom
  else if event.input = lit "0" then .paneStart
  else if event.input = lit "$" then .paneEnd
  else if event.input = lit "n" ∨ event.input = lit "N" then .nextMatch (event.input = lit "n")
  else if event.input = lit "j" then .down
  else if event.input = lit "k" then .up
  else if event.input = keys.ctrlD ∨ event.input = keys.pageDown ∨ event.input = lit "d" then .pageDown
  else if event.input = keys.ctrlU ∨ event.input = keys.pageUp ∨ event.input = lit "u" then .pageUp
  else if event.input = keys.escape then .escape
  else .unbound

theorem normalKey_g_iff {keys : SpecialKeys} {event : Event} :
    normalKey keys event = .pendingG ↔ event.input = lit "g" := by
  unfold normalKey
  constructor
  · intro h
    by_contra hg
    simp only [if_neg hg, apply_ite (fun key => key = NormalKey.pendingG), reduceCtorEq, ite_self] at h
  · intro h
    rw [h]
    rfl

namespace App
variable {keys : SpecialKeys} {surroundings : Surroundings}

/-- The state that the handler changes after `g`. -/
def cleared (app : App) : NavigationState := { app.toNavigationState with pendingG := false }

/-- The branches of `normalEvent`. -/
def onNormalKey (surroundings : Surroundings) (app : App) : NormalKey → Handled
  | .insert =>
    { app := { app with mode := .insert }.applyNavigationState app.cleared, handled := true }
  | .command =>
    { app := { app with mode := .command, commandLine := [] }.applyNavigationState app.cleared
      handled := true }
  | .search =>
    { app := { app with mode := .search }.applyNavigationState
        { app.cleared with activePane := .logs, logsFollow := false }
      handled := true }
  | .relays =>
    { app := app.applyNavigationState { app.cleared with activePane := .relays }, handled := true }
  | .logs =>
    { app := app.applyNavigationState { app.cleared with activePane := .logs }, handled := true }
  | .follow =>
    { app := app.applyNavigationState { app.cleared with logsFollow := !app.logsFollow }
      handled := true }
  | .pendingG =>
    { app := app.applyNavigationState
        (if app.pendingG then app.toNavigationState.jumpToTop
        else { app.toNavigationState with pendingG := true })
      handled := true }
  | .bottom =>
    { app := app.applyNavigationState
        (app.cleared.jumpToBottom surroundings.relays.length (logs surroundings).length kLogPageLines)
      handled := true }
  | .paneStart => { app := app.applyNavigationState app.cleared.jumpToPaneStart, handled := true }
  | .paneEnd =>
    { app := app.applyNavigationState
        (app.cleared.jumpToPaneEnd surroundings.relays.length (logs surroundings).length kLogPageLines)
      handled := true }
  | .nextMatch forward =>
    { app := app.applyNavigationState (app.cleared.advanceLogMatch (logs surroundings) forward)
      handled := true }
  | .down =>
    { app := app.applyNavigationState (app.cleared.moveSelectionDown surroundings.relays.length)
      handled := true }
  | .up => { app := app.applyNavigationState app.cleared.moveSelectionUp, handled := true }
  | .pageDown =>
    { app := app.applyNavigationState
        (app.cleared.movePageDown surroundings.relays.length kLogPageLines)
      handled := true }
  | .pageUp =>
    { app := app.applyNavigationState (app.cleared.movePageUp kLogPageLines), handled := true }
  | .escape =>
    { app := { app with mode := .normal }.applyNavigationState app.cleared, handled := true }
  | .unbound => { app := app, handled := false }

theorem normalEvent_eq (app : App) (event : Event) :
    app.normalEvent keys surroundings event = app.onNormalKey surroundings (normalKey keys event) := by
  unfold normalEvent normalKey
  simp only [apply_ite (app.onNormalKey surroundings)]
  rfl

/-- What an event does in Normal mode to the buffers and to `pending_g_`. -/
structure NormalStep (app : App) (event : Event) (result : Handled) : Prop where
  unhandled : result.handled = false → result.app = app
  inputNpub : result.app.inputNpub = app.inputNpub
  query : result.app.logsSearchQuery = app.logsSearchQuery
  commandLine : result.app.mode = .command ∧ result.app.commandLine = [] ∨
    result.app.mode ≠ .command ∧ result.app.commandLine = app.commandLine
  pendingG : result.handled = true →
    result.app.pendingG = (decide (event.input = lit "g") && !app.pendingG)
  modes : result.app.mode ≠ .normal → result.app.pendingG = false

/-- A branch that writes back a state with `pending_g` cleared. -/
theorem NormalStep.of_cleared {app : App} {event : Event} {navigationState : NavigationState}
    (mode : RenderMode) (hmode : mode ≠ .command) (hg : event.input ≠ lit "g")
    (h : NavigationState.KeepsSearch app.cleared navigationState) :
    NormalStep app event
      { app := { app with mode := mode }.applyNavigationState navigationState, handled := true } where
  unhandled := nofun
  inputNpub := rfl
  query := h.query
  commandLine := .inr ⟨hmode, rfl⟩
  pendingG _ := by rw [decide_eq_false hg]; exact h.pendingG
  modes _ := h.pendingG

/-- A branch that stays in Normal mode. -/
theorem NormalStep.of_moved {app : App} {event : Event} {navigationState : NavigationState}
    (hnormal : app.mode = .normal) (hg : event.input ≠ lit "g")
    (h : NavigationState.KeepsSearch app.cleared navigationState) :
    NormalStep app event { app := app.applyNavigationState navigationState, handled := true } :=
  .of_cleared app.mode (by rw [hnormal]; decide) hg h

/-- `g` sets or clears `pending_g`, and stays in Normal mode. -/
theorem NormalStep.of_g {app : App} {event : Event} (hnormal : app.mode = .normal)
    (hg : event.input = lit "g") :
    NormalStep app event (app.onNormalKey surroundings .pendingG) where
  unhandled := nofun
  inputNpub := rfl
  query := by
    show (if app.pendingG then _ else _ : NavigationState).logsSearchQuery = _
    split <;> rfl
  commandLine := by
    have hmode : app.mode ≠ .command := by
      rw [hnormal]
      decide
    exact .inr ⟨hmode, rfl⟩
  pendingG _ := by
    rw [decide_eq_true hg, Bool.true_and]
    show (if app.pendingG then _ else _ : NavigationState).pendingG = !app.pendingG
    cases app.pendingG <;> rfl
  modes hm := absurd hnormal hm

theorem normalEvent_step {app : App} (hnormal : app.mode = .normal) (event : Event) :
    NormalStep app event (app.normalEvent keys surroundings event) := by
  have hmode : app.mode ≠ .command := by
    rw [hnormal]
    decide
  rw [normalEvent_eq]
  by_cases hg : event.input = lit "g"
  · rw [normalKey_g_iff.mpr hg]
    exact .of_g hnormal hg
  cases hkey : normalKey keys event with
  | insert => exact .of_cleared .insert (by decide) hg ⟨rfl, rfl⟩
  | command =>
    exact ⟨nofun, rfl, rfl, .inl ⟨rfl, rfl⟩, fun _ => by rw [decide_eq_false hg]; rfl, fun _ => rfl⟩
  | search => exact .of_cleared .search (by decide) hg ⟨rfl, rfl⟩
  | relays => exact .of_moved hnormal hg ⟨rfl, rfl⟩
  | logs => exact .of_moved hnormal hg ⟨rfl, rfl⟩
  | follow => exact .of_moved hnormal hg ⟨rfl, rfl⟩
  | pendingG => exact absurd (normalKey_g_iff.mp hkey) hg
  | bottom => exact .of_moved hnormal hg (NavigationState.jumpToBottom_keeps _ _ _ _)
  | paneStart => exact .of_moved hnormal hg (NavigationState.jumpToPaneStart_keeps _)
  | paneEnd => exact .of_moved hnormal hg (NavigationState.jumpToPaneEnd_keeps _ _ _ _)
  | nextMatch forward => exact .of_moved hnormal hg (NavigationState.advanceLogMatch_keeps _ _ _)
  | down => exact .of_moved hnormal hg (NavigationState.moveSelectionDown_keeps _ _)
  | up => exact .of_moved hnormal hg (NavigationState.moveSelectionUp_keeps _)
  | pageDown => exact .of_moved hnormal hg (NavigationState.movePageDown_keeps _ _ _)
  | pageUp => exact .of_moved hnormal hg (NavigationState.movePageUp_keeps _ _)
  | escape => exact .of_cleared .normal (by decide) hg ⟨rfl, rfl⟩
  | unbound =>
    exact ⟨fun _ => rfl, rfl, rfl, .inr ⟨hmode, rfl⟩, nofun, fun hm => absurd hnormal hm⟩

/-! ## The modes with a buffer -/

/-- The buffer of the mode. -/
def buffer (app : App) : Str :=
  match app.mode with
  | .normal => []
  | .insert => app.inputNpub
  | .search => app.logsSearchQuery
  | .command => app.commandLine

/-- The app with another text in the buffer of the mode. -/
def edit (app : App) (text : Str) : App :=
  match app.mode with
  | .normal => app
  | .insert => { app with inputNpub := text }
  | .search => { app with logsSearchQuery := text }
  | .command => { app with commandLine := text }

/-- What a key that is neither Escape nor Return makes of the buffer of the mode. -/
def edited (keys : SpecialKeys) (buffer : Str) (event : Event) : Str :=
  if event.input = keys.backspace then buffer.dropLast
  else if event.isCharacter then typed buffer event
  else buffer

section Mode
variable {app : App} {event : Event}

theorem catchEvent_normal (h : app.mode = .normal) :
    app.catchEvent keys surroundings event = app.normalEvent keys surroundings event := by
  rw [catchEvent, h]

theorem catchEvent_insert (h : app.mode = .insert) :
    app.catchEvent keys surroundings event = app.insertEvent keys surroundings event := by
  rw [catchEvent, h]

theorem catchEvent_search (h : app.mode = .search) :
    app.catchEvent keys surroundings event = app.searchEvent keys event := by
  rw [catchEvent, h]

theorem catchEvent_command (h : app.mode = .command) :
    app.catchEvent keys surroundings event = app.commandEvent keys surroundings event := by
  rw [catchEvent, h]

theorem edit_insert (h : app.mode = .insert) (text : Str) :
    app.edit text = { app with inputNpub := text } := by
  rw [edit, h]

theorem edit_search (h : app.mode = .search) (text : Str) :
    app.edit text = { app with logsSearchQuery := text } := by
  rw [edit, h]

theorem edit_command (h : app.mode = .command) (text : Str) :
    app.edit text = { app with commandLine := text } := by
  rw [edit, h]

theorem buffer_insert (h : app.mode = .insert) : app.buffer = app.inputNpub := by rw [buffer, h]

theorem buffer_search (h : app.mode = .search) : app.buffer = app.logsSearchQuery := by
  rw [buffer, h]

theorem buffer_command (h : app.mode = .command) : app.buffer = app.commandLine := by
  rw [buffer, h]

@[simp] theorem edit_mode (text : Str) : (app.edit text).mode = app.mode := by
  cases h : app.mode with
  | normal => rw [edit, h]; exact h
  | insert => rw [edit_insert h]; exact h
  | search => rw [edit_search h]; exact h
  | command => rw [edit_command h]; exact h

@[simp] theorem edit_pendingG (text : Str) : (app.edit text).pendingG = app.pendingG := by
  cases h : app.mode with
  | normal => rw [edit, h]
  | insert => rw [edit_insert h]
  | search => rw [edit_search h]
  | command => rw [edit_command h]

theorem edit_buffer (app : App) : app.edit app.buffer = app := by
  cases h : app.mode with
  | normal => rw [edit, h]
  | insert => rw [edit_insert h, buffer_insert h]
  | search => rw [edit_search h, buffer_search h]
  | command => rw [edit_command h, buffer_command h]

/-- What Escape and Return do outside Normal mode: the buffer of the mode is emptied, but for the query of the
search, which Return in Command mode may change. -/
structure Leaves (surroundings : Surroundings) (app result : App) : Prop where
  mode : result.mode = .normal
  pendingG : result.pendingG = false
  commandLine : result.commandLine = [] ∨
    app.mode ≠ .command ∧ result.commandLine = app.commandLine
  inputNpub : result.inputNpub = [] ∨ app.mode ≠ .insert ∧ result.inputNpub = app.inputNpub
  query : result.logsSearchQuery = app.logsSearchQuery ∨
    app.mode = .command ∧ result.logsSearchQuery = (executeCommand surroundings.desktop
      app.commandState surroundings.logBuffer (app.commandCallbacks surroundings)
      app.commandLine).1.logsSearchQuery

variable (hmode : app.mode ≠ .normal)
include hmode

theorem buffer_edit (text : Str) : (app.edit text).buffer = text := by
  cases h : app.mode with
  | normal => exact absurd h hmode
  | insert =>
    rw [edit_insert h]
    exact buffer_insert h
  | search =>
    rw [edit_search h]
    exact buffer_search h
  | command =>
    rw [edit_command h]
    exact buffer_command h

/-- Escape and Return. -/
theorem catchEvent_leaves (h : event.input = keys.escape ∨ event.input = keys.returnKey) :
    Leaves surroundings app (app.catchEvent keys surroundings event).app := by
  cases hm : app.mode with
  | normal => exact absurd hm hmode
  | insert =>
    have hline : app.mode ≠ .command := by rw [hm]; decide
    rw [catchEvent_insert hm, insertEvent]
    by_cases hescape : event.input = keys.escape
    · rw [if_pos hescape]
      exact ⟨rfl, rfl, .inr ⟨hline, rfl⟩, .inl rfl, .inl rfl⟩
    · rw [if_neg hescape, if_pos (h.resolve_left hescape)]
      exact ⟨rfl, rfl, .inr ⟨hline, rfl⟩, .inl rfl, .inl rfl⟩
  | search =>
    have hline : app.mode ≠ .command := by rw [hm]; decide
    have hinput : app.mode ≠ .insert := by rw [hm]; decide
    rw [catchEvent_search hm, searchEvent]
    by_cases hescape : event.input = keys.escape
    · rw [if_pos hescape]
      exact ⟨rfl, rfl, .inr ⟨hline, rfl⟩, .inr ⟨hinput, rfl⟩, .inl rfl⟩
    · rw [if_neg hescape, if_pos (h.resolve_left hescape)]
      exact ⟨rfl, rfl, .inr ⟨hline, rfl⟩, .inr ⟨hinput, rfl⟩, .inl rfl⟩
  | command =>
    have hinput : app.mode ≠ .insert := by rw [hm]; decide
    rw [catchEvent_command hm, commandEvent]
    by_cases hescape : event.input = keys.escape
    · rw [if_pos hescape]
      exact ⟨rfl, rfl, .inl rfl, .inr ⟨hinput, rfl⟩, .inl rfl⟩
    · rw [if_neg hescape, if_pos (h.resolve_left hescape)]
      exact ⟨rfl, rfl, .inl rfl, .inr ⟨hinput, rfl⟩, .inr ⟨hm, rfl⟩⟩

/-- Every other event. -/
theorem catchEvent_edits (hescape : event.input ≠ keys.escape)
    (hreturn : event.input ≠ keys.returnKey) :
    (app.catchEvent keys surroundings event).app = app.edit (edited keys app.buffer event) := by
  cases hm : app.mode with
  | normal => exact absurd hm hmode
  | insert =>
    rw [catchEvent_insert hm, edit_insert hm, buffer_insert hm, insertEvent, if_neg hescape,
      if_neg hreturn, edited]
    split
    · rfl
    · split <;> rfl
  | search =>
    rw [catchEvent_search hm, edit_search hm, buffer_search hm, searchEvent, if_neg hescape,
      if_neg hreturn, edited]
    split
    · rfl
    · split <;> rfl
  | command =>
    rw [catchEvent_command hm, edit_command hm, buffer_command hm, commandEvent, if_neg hescape,
      if_neg hreturn, edited]
    split
    · rfl
    · split <;> rfl

end Mode
end App

/-! ## Calls -/

theorem returnKey_ne_escape (keys : SpecialKeys) : keys.returnKey ≠ keys.escape := by
  have hdistinct := keys.distinct
  rw [List.nodup_cons] at hdistinct
  exact fun h => hdistinct.1 (h ▸ List.mem_cons_self)

section Calls
variable {keys : SpecialKeys} {surroundings : Surroundings} {app : App} {event : Event}

theorem normalEvent_effects : (app.normalEvent keys surroundings event).effects = [] := by
  simp only [App.normalEvent, apply_ite Handled.effects, ite_self]

theorem searchEvent_effects : (app.searchEvent keys event).effects = [] := by
  simp only [App.searchEvent, apply_ite Handled.effects, ite_self]

end Calls

end Monitostr.Ui
