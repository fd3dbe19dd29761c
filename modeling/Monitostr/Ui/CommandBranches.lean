import Monitostr.Ui.CommandProcessor

/-! # Which branch a command takes

Most commands are recognised by their whole text; `filter`, `wlogs` and `auth` by the start of it, and tested
in this order. The tests for whole texts never hide a test for a start from a text that is none of them.
-/

namespace Monitostr.Ui
open Model
set_option autoImplicit false

/-- The commands that are recognised by their whole text. -/
def exactCommands : List (Str × CommandBranch) :=
  [(lit "q", .exit), (lit "quit", .exit), (lit "qa", .exit), (lit "qall", .exit),
    (lit "clearlogs", .clearLogs), (lit "cl", .clearLogs), (lit "set follow", .setFollow),
    (lit "set nofollow", .setNofollow), (lit "set compact", .setCompact),
    (lit "set nocompact", .setNocompact), (lit "set autocompact", .setAutocompact),
    (lit "copylogs", .copyLogs), (lit "yanklogs", .copyLogs), (lit "copyrelay", .copyRelay),
    (lit "yankrelay", .copyRelay), (lit "relayinfo", .relayInfo), (lit "ri", .relayInfo),
    (lit "help", .help), (lit "h", .help)]

def IsExact (cmd : Str) : Prop := ∃ entry ∈ exactCommands, cmd = entry.1

theorem commandBranch_exact : ∀ entry ∈ exactCommands, commandBranch entry.1 = entry.2 := by
  decide

theorem commandBranch_of_not_exact {cmd : Str} (h : ¬IsExact cmd) :
    commandBranch cmd =
      if startsWith cmd (lit "filter") then .filter
      else if startsWith cmd (lit "wlogs") then .wlogs
      else if startsWith cmd (lit "auth") then .auth
      else if cmd ≠ [] then .unknown
      else .nothing := by
  have hne : ∀ entry ∈ exactCommands, cmd ≠ entry.1 := fun entry hmem heq => h ⟨entry, hmem, heq⟩
  simp only [exactCommands, List.forall_mem_cons] at hne
  obtain ⟨hq, hquit, hqa, hqall, hclearlogs, hcl, hfollow, hnofollow, hcompact, hnocompact,
    hautocompact, hcopylogs, hyanklogs, hcopyrelay, hyankrelay, hrelayinfo, hri, hhelp, hh, -⟩ := hne
  have hexit := not_or.mpr ⟨hq, not_or.mpr ⟨hquit, not_or.mpr ⟨hqa, hqall⟩⟩⟩
  unfold commandBranch
  rw [if_neg hexit, if_neg (not_or.mpr ⟨hclearlogs, hcl⟩), if_neg hfollow, if_neg hnofollow,
    if_neg hcompact, if_neg hnocompact, if_neg hautocompact,
    if_neg (not_or.mpr ⟨hcopylogs, hyanklogs⟩), if_neg (not_or.mpr ⟨hcopyrelay, hyankrelay⟩),
    if_neg (not_or.mpr ⟨hrelayinfo, hri⟩), if_neg (not_or.mpr ⟨hhelp, hh⟩)]

/-- The branches for starts are taken by texts with these starts only. -/
theorem startsWith_of_commandBranch {cmd : Str} :
    (commandBranch cmd = .filter → startsWith cmd (lit "filter") = true) ∧
    (commandBranch cmd = .wlogs → startsWith cmd (lit "wlogs") = true) ∧
    (commandBranch cmd = .auth → startsWith cmd (lit "auth") = true) := by
  by_cases hexact : IsExact cmd
  · obtain ⟨entry, hmem, rfl⟩ := hexact
    rw [commandBranch_exact entry hmem]
    have hnone : ∀ entry ∈ exactCommands,
        entry.2 ≠ .filter ∧ entry.2 ≠ .wlogs ∧ entry.2 ≠ .auth := by
      decide
    obtain ⟨hfilter, hwlogs, hauth⟩ := hnone entry hmem
    exact ⟨fun h => absurd h hfilter, fun h => absurd h hwlogs, fun h => absurd h hauth⟩
  · rw [commandBranch_of_not_exact hexact]
    cases hfilter : startsWith cmd (lit "filter") with
    | true => exact ⟨fun _ => rfl, nofun, nofun⟩
    | false =>
      cases hwlogs : startsWith cmd (lit "wlogs") with
      | true => exact ⟨nofun, fun _ => rfl, nofun⟩
      | false =>
        cases hauth : startsWith cmd (lit "auth") with
        | true => exact ⟨nofun, nofun, fun _ => rfl⟩
        | false =>
          rw [if_neg Bool.false_ne_true, if_neg Bool.false_ne_true, if_neg Bool.false_ne_true]
          split <;> exact ⟨nofun, nofun, nofun⟩

/-! ## The branches that echo or use what was typed -/

section Execution
variable {desktop : Desktop} {state : CommandState} {logBuffer : Option LogBuffer}
  {callbacks : CommandCallbacks} {rawCommand : Str}

theorem executeCommand_filter (h : commandBranch (toLowerCopy (trimCopy rawCommand)) = .filter) :
    executeCommand desktop state logBuffer callbacks rawCommand =
      filterCommand state logBuffer (argument (trimCopy rawCommand) 6) := by
  unfold executeCommand
  simp only [h]

theorem executeCommand_wlogs (h : commandBranch (toLowerCopy (trimCopy rawCommand)) = .wlogs) :
    executeCommand desktop state logBuffer callbacks rawCommand =
      (state, wlogsCommand desktop logBuffer (argument (trimCopy rawCommand) 5)) := by
  unfold executeCommand
  simp only [h]

theorem executeCommand_auth (h : commandBranch (toLowerCopy (trimCopy rawCommand)) = .auth) :
    executeCommand desktop state logBuffer callbacks rawCommand =
      (state, authCommand logBuffer callbacks (argument (trimCopy rawCommand) 4)) := by
  unfold executeCommand
  simp only [h]

theorem executeCommand_unknown (h : commandBranch (toLowerCopy (trimCopy rawCommand)) = .unknown) :
    executeCommand desktop state logBuffer callbacks rawCommand =
      (state, logLine logBuffer .warn (lit "Unknown command :" ++ rawCommand)) := by
  unfold executeCommand
  simp only [h]

/-- Only the filter command changes the query. -/
theorem executeCommand_query (h : commandBranch (toLowerCopy (trimCopy rawCommand)) ≠ .filter) :
    (executeCommand desktop state logBuffer callbacks rawCommand).1.logsSearchQuery =
      state.logsSearchQuery := by
  unfold executeCommand
  cases hbranch : commandBranch (toLowerCopy (trimCopy rawCommand)) with
  | filter => exact absurd hbranch h
  | _ => simp only [hbranch]

/-- Without a log buffer nothing is logged. -/
theorem log_not_mem_of_no_buffer {level : LogLevel} {message : Str} :
    CommandEffect.log level message ∉
      (executeCommand desktop state none callbacks rawCommand).2 := by
  unfold executeCommand
  dsimp only
  generalize commandBranch (toLowerCopy (trimCopy rawCommand)) = branch
  cases branch with
  | exit =>
    dsimp only [logLine]
    split <;> simp
  | filter =>
    dsimp only
    unfold filterCommand
    split <;> exact List.not_mem_nil
  | copyRelay =>
    dsimp only
    unfold copyRelayCommand
    dsimp only [logLine]
    split <;> split <;> simp
  | relayInfo =>
    dsimp only
    unfold relayInfoCommand
    dsimp only [logLine]
    split <;> split <;> simp
  | wlogs =>
    dsimp only
    unfold wlogsCommand
    split <;> exact List.not_mem_nil
  | auth =>
    dsimp only
    unfold authCommand
    split
    · exact List.not_mem_nil
    · split <;> simp [logLine]
  | _ => exact List.not_mem_nil

end Execution
end Monitostr.Ui
