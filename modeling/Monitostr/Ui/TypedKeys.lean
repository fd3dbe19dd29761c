import Monitostr.Ui.InputBuffers

/-! # What is typed

The keys alone decide what the user interface submits and when it asks to exit: a text is typed into Insert or
Command mode after the key that opens the mode, and Return passes it on. The event handler does this whatever
it sees of the log and of the relays.
-/

namespace Monitostr.Ui
open Foundations Model
set_option autoImplicit false

/-- What is being typed. -/
inductive Draft
  | nothing
  | key (text : Str)
  | query
  | command (text : Str)

/-- A text for one of the callbacks of `App`. -/
inductive Submission
  | npub (text : Str)
  | nsec (text : Str)
  deriving DecidableEq

def Submission.text : Submission → Str
  | .npub text | .nsec text => text

def AppEffect.submission : AppEffect → Option Submission
  | .onSubmit npub => some (.npub npub)
  | .onAuth nsec | .command (.onAuth nsec) => some (.nsec nsec)
  | .command _ => none

namespace Draft
variable (keys : SpecialKeys)

def leaves (event : Event) : Bool := event.input = keys.escape ∨ event.input = keys.returnKey

def next (draft : Draft) (event : Event) : Draft :=
  match draft with
  | .nothing =>
    if event.input = lit "i" then .key []
    else if event.input = lit ":" then .command []
    else if event.input = lit "/" then .query
    else .nothing
  | .key text => if leaves keys event then .nothing else .key (App.edited keys text event)
  | .query => if leaves keys event then .nothing else .query
  | .command text => if leaves keys event then .nothing else .command (App.edited keys text event)

def keySubmissions (text : Str) : List Submission :=
  if text.isEmpty then [] else if looksLikeNsecInput text then [.nsec text] else [.npub text]

def commandSubmissions (text : Str) : List Submission :=
  if commandBranch (toLowerCopy (trimCopy text)) = .auth ∧ argument (trimCopy text) 4 ≠ [] then
    [.nsec (argument (trimCopy text) 4)]
  else []

/-- What an event submits. -/
def submissions (draft : Draft) (event : Event) : List Submission :=
  if event.input = keys.returnKey then
    match draft with
    | .key text => keySubmissions (trimCopy text)
    | .command text => commandSubmissions text
    | _ => []
  else []

/-- Whether an event asks to exit. -/
def exits (draft : Draft) (event : Event) : Bool :=
  match draft with
  | .command text =>
    event.input = keys.returnKey ∧ commandBranch (toLowerCopy (trimCopy text)) = .exit
  | _ => false

/-- What the events submit, in their order. -/
def allSubmissions : Draft → List Event → List Submission
  | _, [] => []
  | draft, event :: events =>
    draft.submissions keys event ++ allSubmissions (draft.next keys event) events

def everExits : Draft → List Event → Bool
  | _, [] => false
  | draft, event :: events => draft.exits keys event || everExits (draft.next keys event) events

variable {keys}

theorem submissions_nothing (event : Event) : submissions keys .nothing event = [] := ite_self []

theorem submissions_query (event : Event) : submissions keys .query event = [] := ite_self []

theorem allSubmissions_append (draft : Draft) (events more : List Event) :
    draft.allSubmissions keys (events ++ more) =
      draft.allSubmissions keys events ++ (events.foldl (next keys) draft).allSubmissions keys more := by
  induction events generalizing draft with
  | nil => rfl
  | cons event events ih =>
    rw [List.cons_append, allSubmissions, allSubmissions, ih, List.append_assoc]
    rfl

theorem everExits_append (draft : Draft) (events more : List Event) :
    draft.everExits keys (events ++ more) =
      (draft.everExits keys events || (events.foldl (next keys) draft).everExits keys more) := by
  induction events generalizing draft with
  | nil => rfl
  | cons event events ih =>
    rw [List.cons_append, everExits, everExits, ih, Bool.or_assoc]
    rfl

end Draft

/-- What a key opens in Normal mode. -/
def NormalKey.opens : NormalKey → Draft
  | .insert => .key []
  | .command => .command []
  | .search => .query
  | _ => .nothing

theorem opens_normalKey {keys : SpecialKeys} (event : Event) :
    (normalKey keys event).opens = Draft.nothing.next keys event := by
  unfold normalKey
  simp only [apply_ite NormalKey.opens]
  simp only [NormalKey.opens, ite_self]
  rfl

/-! ## Commands -/

/-- The calls that submit nothing and do not ask to exit. -/
def CommandEffect.IsOther : CommandEffect → Prop
  | .onAuth _ | .requestExit => False
  | _ => True

/-- What a list of calls submits, and whether it asks to exit. -/
structure Asks (calls : List AppEffect) (submissions : List Submission) (exits : Bool) : Prop where
  submissions : calls.filterMap AppEffect.submission = submissions
  exits : AppEffect.command .requestExit ∈ calls ↔ exits = true

theorem asks_others {effects : List CommandEffect} (h : ∀ effect ∈ effects, effect.IsOther) :
    Asks (effects.map .command) [] false where
  submissions := by
    rw [List.filterMap_eq_nil_iff]
    intro call hcall
    obtain ⟨effect, heffect, rfl⟩ := List.mem_map.mp hcall
    have hother := h effect heffect
    cases effect with
    | onAuth => cases hother
    | _ => rfl
  exits := by
    refine iff_of_false (fun hmem => ?_) Bool.false_ne_true
    obtain ⟨effect, heffect, heq⟩ := List.mem_map.mp hmem
    obtain rfl := AppEffect.command.inj heq
    exact h _ heffect

section Commands
variable {desktop : Desktop} {state : CommandState} {logBuffer : Option LogBuffer}
  {callbacks : CommandCallbacks}

theorem logLine_others {level : LogLevel} {message : Str} :
    ∀ effect ∈ logLine logBuffer level message, effect.IsOther := by
  intro effect heffect
  cases logBuffer with
  | none => cases heffect
  | some log =>
    obtain rfl := List.mem_singleton.mp heffect
    trivial

theorem copyTextCall_other (text : Str) : (copyTextCall desktop callbacks text).1.IsOther := by
  rw [copyTextCall]
  cases callbacks.copyText <;> trivial

theorem copyLogs_others :
    ∀ effect ∈ copyLogsCommand desktop logBuffer callbacks, effect.IsOther := by
  unfold copyLogsCommand
  cases logBuffer with
  | none => exact List.forall_mem_nil _
  | some log =>
    dsimp only
    split <;> exact List.forall_mem_cons.mpr ⟨copyTextCall_other _, List.forall_mem_singleton.mpr trivial⟩

theorem copyRelay_others :
    ∀ effect ∈ copyRelayCommand desktop logBuffer callbacks, effect.IsOther := by
  have hcalled : ∀ effect ∈ if callbacks.selectedRelayText.isSome then [CommandEffect.selectedRelayText]
      else [], effect.IsOther := by
    split
    · exact List.forall_mem_singleton.mpr trivial
    · exact List.forall_mem_nil _
  rw [copyRelayCommand]
  dsimp only
  split
  · exact List.forall_mem_append.mpr ⟨hcalled, logLine_others⟩
  · exact List.forall_mem_append.mpr ⟨hcalled, logLine_others⟩
  · cases logBuffer with
    | none => exact hcalled
    | some log =>
      dsimp only
      split <;> exact List.forall_mem_append.mpr
        ⟨hcalled, List.forall_mem_cons.mpr ⟨copyTextCall_other _, List.forall_mem_singleton.mpr trivial⟩⟩

theorem relayInfo_others : ∀ effect ∈ relayInfoCommand logBuffer callbacks, effect.IsOther := by
  have hcalled : ∀ effect ∈ if callbacks.selectedRelayReport.isSome then
      [CommandEffect.selectedRelayReport] else [], effect.IsOther := by
    split
    · exact List.forall_mem_singleton.mpr trivial
    · exact List.forall_mem_nil _
  rw [relayInfoCommand]
  split <;> exact List.forall_mem_append.mpr ⟨hcalled, logLine_others⟩

theorem wlogs_others (filePath : Str) :
    ∀ effect ∈ wlogsCommand desktop logBuffer filePath, effect.IsOther := by
  unfold wlogsCommand
  split
  · exact logLine_others
  · cases logBuffer with
    | none => exact List.forall_mem_nil _
    | some log =>
      dsimp only
      split <;> exact List.forall_mem_cons.mpr ⟨trivial, List.forall_mem_singleton.mpr trivial⟩

/-- What a command submits, with all callbacks set. -/
theorem executeCommand_asks (hauth : callbacks.onAuth = true) (hexit : callbacks.requestExit = true)
    (rawCommand : Str) :
    Asks ((executeCommand desktop state logBuffer callbacks rawCommand).2.map .command)
      (Draft.commandSubmissions rawCommand)
      (commandBranch (toLowerCopy (trimCopy rawCommand)) = .exit) := by
  unfold Draft.commandSubmissions executeCommand
  dsimp only
  generalize commandBranch (toLowerCopy (trimCopy rawCommand)) = branch
  cases branch with
  | exit =>
    dsimp only
    have hnot : ¬ (CommandBranch.exit = .auth ∧ argument (trimCopy rawCommand) 4 ≠ []) :=
      fun h => CommandBranch.noConfusion h.1
    rw [hexit, if_pos rfl, if_neg hnot, List.map_append]
    constructor
    · rw [List.filterMap_append, (asks_others logLine_others).submissions]
      rfl
    · exact iff_of_true (List.mem_append_right _ List.mem_cons_self) rfl
  | auth =>
    dsimp only
    rw [authCommand, hauth, if_pos rfl]
    by_cases harg : argument (trimCopy rawCommand) 4 = []
    · rw [if_pos harg, if_neg fun h => h.2 harg]
      exact asks_others logLine_others
    · rw [if_neg harg, if_pos ⟨rfl, harg⟩]
      exact ⟨rfl, by simp⟩
  | clearLogs =>
    refine asks_others ?_
    cases logBuffer with
    | none => exact List.forall_mem_nil _
    | some log => exact List.forall_mem_cons.mpr ⟨trivial, List.forall_mem_singleton.mpr trivial⟩
  | filter =>
    refine asks_others ?_
    dsimp only
    rw [filterCommand]
    split <;> exact logLine_others
  | copyLogs => exact asks_others copyLogs_others
  | copyRelay => exact asks_others copyRelay_others
  | relayInfo => exact asks_others relayInfo_others
  | wlogs => exact asks_others (wlogs_others _)
  | nothing => exact asks_others (List.forall_mem_nil _)
  | _ => exact asks_others logLine_others

end Commands

/-! ## The event handler -/

namespace App
variable {keys : SpecialKeys} {surroundings : Surroundings} {app : App} {event : Event}

/-- What is being typed into the app. -/
def draft (app : App) : Draft :=
  match app.mode with
  | .normal => .nothing
  | .insert => .key app.inputNpub
  | .search => .query
  | .command => .command app.commandLine

theorem draft_of_normal (h : app.mode = .normal) : app.draft = .nothing := by rw [draft, h]

theorem draft_of_insert (h : app.mode = .insert) : app.draft = .key app.inputNpub := by rw [draft, h]

theorem draft_of_search (h : app.mode = .search) : app.draft = .query := by rw [draft, h]

theorem draft_of_command (h : app.mode = .command) : app.draft = .command app.commandLine := by
  rw [draft, h]

theorem draft_onNormalKey (h : LeftEmpty app) (hmode : app.mode = .normal) (key : NormalKey) :
    (app.onNormalKey surroundings key).app.draft = key.opens := by
  have hinput : app.inputNpub = [] := h.inputNpub (by rw [hmode]; decide)
  cases key with
  | insert => exact congrArg Draft.key hinput
  | command => rfl
  | search => rfl
  | escape => rfl
  | _ => exact draft_of_normal hmode

theorem draft_edit (hmode : app.mode ≠ .normal) (hevent : Draft.leaves keys event = false) :
    (app.edit (edited keys app.buffer event)).draft = app.draft.next keys event := by
  cases h : app.mode with
  | normal => exact absurd h hmode
  | insert =>
    rw [edit_insert h, buffer_insert h, draft_of_insert h, Draft.next, hevent]
    exact draft_of_insert h
  | search =>
    rw [edit_search h, draft_of_search h, Draft.next, hevent]
    exact draft_of_search h
  | command =>
    rw [edit_command h, buffer_command h, draft_of_command h, Draft.next, hevent]
    exact draft_of_command h

theorem draft_catchEvent (h : LeftEmpty app) :
    (app.catchEvent keys surroundings event).app.draft = app.draft.next keys event := by
  by_cases hmode : app.mode = .normal
  · rw [catchEvent_normal hmode, draft_of_normal hmode, normalEvent_eq, draft_onNormalKey h hmode, opens_normalKey]
  by_cases hleft : event.input = keys.escape ∨ event.input = keys.returnKey
  · have hleaves := @catchEvent_leaves keys surroundings app event hmode hleft
    have hevent : Draft.leaves keys event = true := decide_eq_true hleft
    rw [draft_of_normal hleaves.mode]
    cases hm : app.mode with
    | normal => exact absurd hm hmode
    | insert => rw [draft_of_insert hm, Draft.next, hevent]; rfl
    | search => rw [draft_of_search hm, Draft.next, hevent]; rfl
    | command => rw [draft_of_command hm, Draft.next, hevent]; rfl
  · obtain ⟨hescape, hreturn⟩ := not_or.mp hleft
    rw [catchEvent_edits hmode hescape hreturn]
    exact draft_edit hmode (decide_eq_false hleft)

theorem asks_nothing : Asks [] [] false := ⟨rfl, by simp⟩

theorem asks_submit (hauth : surroundings.onAuth = true) (text : Str) :
    Asks (submit surroundings text) (Draft.keySubmissions text) false := by
  rw [submit, Draft.keySubmissions, hauth, Bool.and_true]
  split
  · exact asks_nothing
  · split <;> exact ⟨rfl, by simp⟩

/-- The calls of the handler follow the keys. -/
theorem catchEvent_asks (hauth : surroundings.onAuth = true) (hexit : surroundings.requestExit = true) :
    Asks (app.catchEvent keys surroundings event).effects (app.draft.submissions keys event)
      (app.draft.exits keys event) := by
  have hne := returnKey_ne_escape keys
  cases hmode : app.mode with
  | normal =>
    rw [catchEvent_normal hmode, normalEvent_effects, draft_of_normal hmode,
      Draft.submissions_nothing]
    exact asks_nothing
  | search =>
    rw [catchEvent_search hmode, searchEvent_effects, draft_of_search hmode,
      Draft.submissions_query]
    exact asks_nothing
  | insert =>
    rw [catchEvent_insert hmode, draft_of_insert hmode, Draft.submissions]
    by_cases hreturn : event.input = keys.returnKey
    · rw [if_pos hreturn, insertEvent, if_neg (hreturn ▸ hne), if_pos hreturn]
      exact asks_submit hauth _
    · rw [if_neg hreturn, insertEvent, if_neg hreturn]
      simp only [apply_ite Handled.effects, ite_self]
      exact asks_nothing
  | command =>
    rw [catchEvent_command hmode, draft_of_command hmode, Draft.submissions, Draft.exits]
    by_cases hreturn : event.input = keys.returnKey
    · rw [if_pos hreturn, commandEvent, if_neg (hreturn ▸ hne), if_pos hreturn, commandReturn]
      have hasks := @executeCommand_asks surroundings.desktop app.commandState surroundings.logBuffer
        (app.commandCallbacks surroundings) hauth hexit app.commandLine
      simp only [hreturn, true_and]
      exact hasks
    · rw [if_neg hreturn, commandEvent, if_neg hreturn]
      simp only [apply_ite Handled.effects, ite_self, hreturn, false_and, decide_false]
      exact asks_nothing

end App
end Monitostr.Ui
