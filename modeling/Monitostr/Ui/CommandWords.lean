import Monitostr.Ui.CommandBranches
import Monitostr.Utils.Words

/-! # Commands and their first words

`filter`, `wlogs` and `auth` are recognised by the start of the command, so a first word that only starts like
one of them is taken for it, with the rest of the word in the argument.
-/

namespace Monitostr.Ui
open Model
set_option autoImplicit false

/-! ## First words -/

/-- The names of the commands. -/
def commandNames : List Str :=
  [lit "q", lit "quit", lit "qa", lit "qall", lit "clearlogs", lit "cl", lit "set", lit "filter",
    lit "copylogs", lit "yanklogs", lit "copyrelay", lit "yankrelay", lit "relayinfo", lit "ri",
    lit "wlogs", lit "auth", lit "help", lit "h"]

/-- The first word of a command, in lower case. -/
def commandWord (rawCommand : Str) : Str := toLowerCopy (firstWord (trimCopy rawCommand))

theorem commandWord_eq (rawCommand : Str) :
    commandWord rawCommand = firstWord (toLowerCopy (trimCopy rawCommand)) :=
  (firstWord_toLowerCopy _).symm

/-- The commands that are recognised by their whole text have other first words than the rest. -/
theorem firstWord_of_isExact {cmd : Str} (h : IsExact cmd) :
    firstWord cmd ∈ commandNames ∧ firstWord cmd ≠ lit "filter" ∧ firstWord cmd ≠ lit "wlogs" ∧
      firstWord cmd ≠ lit "auth" := by
  obtain ⟨entry, hmem, rfl⟩ := h
  have hall : ∀ entry ∈ exactCommands, firstWord entry.1 ∈ commandNames ∧
      firstWord entry.1 ≠ lit "filter" ∧ firstWord entry.1 ≠ lit "wlogs" ∧
      firstWord entry.1 ≠ lit "auth" := by
    decide
  exact hall entry hmem

theorem startsWith_iff {value pre : Str} : startsWith value pre = true ↔ pre <+: value :=
  List.isPrefixOf_iff_prefix

/-- A name of one word starts the command exactly when it starts its first word. -/
theorem startsWith_commandWord {name : Str} (hname : name.all (fun c => !isSpace c) = true)
    (rawCommand : Str) :
    startsWith (toLowerCopy (trimCopy rawCommand)) name = startsWith (commandWord rawCommand) name := by
  rw [Bool.eq_iff_iff, startsWith_iff, startsWith_iff, commandWord_eq, prefix_firstWord_iff]
  simpa using hname

theorem argument_eq (raw : Str) (n : ℕ) : argument raw n = trimCopy (raw.drop n) := by
  rw [argument]
  split
  · rfl
  · rw [List.drop_eq_nil_of_le (by omega)]
    rfl

/-- After a first word of `n` bytes comes the argument. -/
theorem argument_of_word {raw name : Str} (h : toLowerCopy (firstWord raw) = name) :
    argument raw name.length = trimCopy (afterFirstWord raw) := by
  have hlength : name.length = (firstWord raw).length := by
    rw [← h, toLowerCopy, List.length_map]
  rw [argument_eq, hlength, drop_eq_of_le le_rfl, List.drop_length, List.nil_append]

/-- A first word that goes on after the name leaves something for the argument. -/
theorem argument_ne_nil {rawCommand name : Str} (hstarts : name <+: commandWord rawCommand)
    (hne : commandWord rawCommand ≠ name) : argument (trimCopy rawCommand) name.length ≠ [] := by
  obtain ⟨rest, hrest⟩ := hstarts
  have hword : (firstWord (trimCopy rawCommand)).length = name.length + rest.length := by
    have hlength := congrArg List.length hrest
    rw [List.length_append, commandWord, toLowerCopy, List.length_map] at hlength
    exact hlength.symm
  cases rest with
  | nil => exact absurd (by simpa using hrest.symm) hne
  | cons c rest =>
    rw [List.length_cons] at hword
    have hlt : name.length < (firstWord (trimCopy rawCommand)).length := by omega
    have hspace := isSpace_of_mem_firstWord (List.getElem_mem hlt)
    rw [argument_eq]
    refine trimCopy_ne_nil (c := (firstWord (trimCopy rawCommand))[name.length]) ?_ hspace
    rw [drop_eq_of_le hlt.le, List.drop_eq_getElem_cons hlt]
    exact List.mem_append_left _ List.mem_cons_self

/-! ## What a word that is no command does -/

/-- The effects that call a callback, reach the clipboard or write a file. -/
def CommandEffect.isCall : CommandEffect → Bool
  | .log _ _ => false
  | .clearLogs => false
  | _ => true

def CommandEffect.isWarning : CommandEffect → Bool
  | .log .warn _ => true
  | _ => false

/-- The state is unchanged, nothing is called or written, and one warning is logged. -/
structure OnlyWarns (state : CommandState) (result : CommandState × List CommandEffect) : Prop where
  state_eq : result.1 = state
  calls : ∀ effect ∈ result.2, effect.isCall = false
  warnings : result.2.countP CommandEffect.isWarning = 1

section Words
variable (desktop : Desktop) (state : CommandState) (logBuffer : Option LogBuffer)
  (callbacks : CommandCallbacks) (rawCommand : Str)

/-- A command is recognised by its whole first word, and what comes after it is the argument. -/
structure RecognisesWord : Prop where
  other : commandWord rawCommand ≠ [] → commandWord rawCommand ∉ commandNames →
    OnlyWarns state (executeCommand desktop state logBuffer callbacks rawCommand)
  filter : commandWord rawCommand = lit "filter" →
    executeCommand desktop state logBuffer callbacks rawCommand =
      filterCommand state logBuffer (trimCopy (afterFirstWord (trimCopy rawCommand)))
  wlogs : commandWord rawCommand = lit "wlogs" →
    executeCommand desktop state logBuffer callbacks rawCommand =
      (state, wlogsCommand desktop logBuffer (trimCopy (afterFirstWord (trimCopy rawCommand))))
  auth : commandWord rawCommand = lit "auth" →
    executeCommand desktop state logBuffer callbacks rawCommand =
      (state, authCommand logBuffer callbacks (trimCopy (afterFirstWord (trimCopy rawCommand))))

/-- There is a log buffer, and the word does not start like a command that would run. -/
structure StartsUnlikeCommand : Prop where
  logged : logBuffer.isSome = true
  filter : startsWith (commandWord rawCommand) (lit "filter") = false
  wlogs : startsWith (commandWord rawCommand) (lit "wlogs") = false
  auth : startsWith (commandWord rawCommand) (lit "auth") = true → callbacks.onAuth = false

variable {desktop state logBuffer callbacks rawCommand}

theorem onlyWarns_logLine_iff {message : Str} :
    OnlyWarns state (state, logLine logBuffer .warn message) ↔ logBuffer.isSome = true := by
  cases logBuffer with
  | none => exact iff_of_false (fun h => absurd h.warnings (by simp [logLine])) (by simp)
  | some log =>
    refine iff_of_true ⟨rfl, ?_, ?_⟩ rfl
    · simp [logLine, CommandEffect.isCall]
    · simp [logLine, CommandEffect.isWarning]

theorem not_onlyWarns_of_call {result : CommandState × List CommandEffect} {effect : CommandEffect}
    (hmem : effect ∈ result.2) (hcall : effect.isCall = true) : ¬OnlyWarns state result := by
  intro h
  rw [h.calls effect hmem] at hcall
  exact Bool.false_ne_true hcall

/-- The filter command never warns. -/
theorem not_onlyWarns_filter (pattern : Str) :
    ¬OnlyWarns state (filterCommand state logBuffer pattern) := by
  intro h
  have hwarnings := h.warnings
  unfold filterCommand logLine at hwarnings
  split at hwarnings
  · cases logBuffer <;> exact absurd hwarnings (by simp [CommandEffect.isWarning])
  · cases logBuffer <;> exact absurd hwarnings (by simp [CommandEffect.isWarning])

/-- With a path, the wlogs command writes a file or does nothing. -/
theorem not_onlyWarns_wlogs {filePath : Str} (h : filePath ≠ []) :
    ¬OnlyWarns state (state, wlogsCommand desktop logBuffer filePath) := by
  unfold wlogsCommand
  rw [if_neg h]
  cases logBuffer with
  | none => exact fun hwarns => absurd hwarns.warnings (by simp)
  | some log =>
    dsimp only
    split <;> exact not_onlyWarns_of_call List.mem_cons_self rfl

theorem onlyWarns_auth_iff {nsecArg : Str} (h : nsecArg ≠ []) :
    OnlyWarns state (state, authCommand logBuffer callbacks nsecArg) ↔
      logBuffer.isSome = true ∧ callbacks.onAuth = false := by
  unfold authCommand
  rw [if_neg h]
  cases hauth : callbacks.onAuth with
  | true =>
    rw [if_pos rfl]
    exact iff_of_false (not_onlyWarns_of_call List.mem_cons_self rfl) (by simp)
  | false =>
    rw [if_neg Bool.false_ne_true, onlyWarns_logLine_iff]
    simp

/-- **A word that is no command**: it is refused with one warning exactly when it does not start like a command
that would run. -/
theorem onlyWarns_iff (hne : commandWord rawCommand ≠ [])
    (hother : commandWord rawCommand ∉ commandNames) :
    OnlyWarns state (executeCommand desktop state logBuffer callbacks rawCommand) ↔
      StartsUnlikeCommand logBuffer callbacks rawCommand := by
  have hexact : ¬IsExact (toLowerCopy (trimCopy rawCommand)) := by
    intro h
    have hmem := (firstWord_of_isExact h).1
    rw [← commandWord_eq] at hmem
    exact hother hmem
  have hcmd : toLowerCopy (trimCopy rawCommand) ≠ [] := by
    intro hnil
    rw [commandWord_eq, hnil] at hne
    exact hne rfl
  have hword : ∀ name ∈ commandNames, commandWord rawCommand ≠ name := fun name hmem heq =>
    hother (heq ▸ hmem)
  have hbranch := commandBranch_of_not_exact hexact
  rw [startsWith_commandWord rfl, startsWith_commandWord rfl, startsWith_commandWord rfl] at hbranch
  cases hfilter : startsWith (commandWord rawCommand) (lit "filter") with
  | true =>
    rw [if_pos hfilter] at hbranch
    rw [executeCommand_filter hbranch]
    refine iff_of_false (not_onlyWarns_filter _) fun h => ?_
    rw [h.filter] at hfilter
    exact Bool.false_ne_true hfilter
  | false =>
    rw [hfilter, if_neg Bool.false_ne_true] at hbranch
    cases hwlogs : startsWith (commandWord rawCommand) (lit "wlogs") with
    | true =>
      rw [hwlogs, if_pos rfl] at hbranch
      have hpath := argument_ne_nil (startsWith_iff.mp hwlogs) (hword _ (by decide))
      rw [executeCommand_wlogs hbranch]
      refine iff_of_false (not_onlyWarns_wlogs hpath) fun h => ?_
      rw [h.wlogs] at hwlogs
      exact Bool.false_ne_true hwlogs
    | false =>
      rw [hwlogs, if_neg Bool.false_ne_true] at hbranch
      cases hauth : startsWith (commandWord rawCommand) (lit "auth") with
      | true =>
        rw [hauth, if_pos rfl] at hbranch
        have harg := argument_ne_nil (startsWith_iff.mp hauth) (hword _ (by decide))
        rw [executeCommand_auth hbranch]
        refine (onlyWarns_auth_iff harg).trans ?_
        exact ⟨fun h => ⟨h.1, hfilter, hwlogs, fun _ => h.2⟩, fun h => ⟨h.logged, h.auth hauth⟩⟩
      | false =>
        rw [hauth, if_neg Bool.false_ne_true, if_pos hcmd] at hbranch
        rw [executeCommand_unknown hbranch, onlyWarns_logLine_iff]
        refine ⟨fun h => ⟨h, hfilter, hwlogs, fun h' => ?_⟩, StartsUnlikeCommand.logged⟩
        rw [hauth] at h'
        exact absurd h' Bool.false_ne_true

/-! ## Arguments -/

theorem not_isExact_of_word {name : Str} (hname : name ∈ [lit "filter", lit "wlogs", lit "auth"])
    (h : commandWord rawCommand = name) : ¬IsExact (toLowerCopy (trimCopy rawCommand)) := by
  intro hexact
  obtain ⟨-, hfilter, hwlogs, hauth⟩ := firstWord_of_isExact hexact
  rw [← commandWord_eq, h] at hfilter hwlogs hauth
  simp only [List.mem_cons, List.not_mem_nil, or_false] at hname
  rcases hname with hname | hname | hname
  · exact hfilter hname
  · exact hwlogs hname
  · exact hauth hname

theorem executeCommand_of_filter (h : commandWord rawCommand = lit "filter") :
    executeCommand desktop state logBuffer callbacks rawCommand =
      filterCommand state logBuffer (trimCopy (afterFirstWord (trimCopy rawCommand))) := by
  have hbranch := commandBranch_of_not_exact (not_isExact_of_word (by decide) h)
  rw [startsWith_commandWord rfl, h, if_pos (by decide)] at hbranch
  rw [executeCommand_filter hbranch]
  exact congrArg (filterCommand state logBuffer) (argument_of_word h)

theorem executeCommand_of_wlogs (h : commandWord rawCommand = lit "wlogs") :
    executeCommand desktop state logBuffer callbacks rawCommand =
      (state, wlogsCommand desktop logBuffer (trimCopy (afterFirstWord (trimCopy rawCommand)))) := by
  have hbranch := commandBranch_of_not_exact (not_isExact_of_word (by decide) h)
  rw [startsWith_commandWord rfl, startsWith_commandWord rfl, h, if_neg (by decide),
    if_pos (by decide)] at hbranch
  rw [executeCommand_wlogs hbranch]
  exact congrArg (fun path => (state, wlogsCommand desktop logBuffer path)) (argument_of_word h)

theorem executeCommand_of_auth (h : commandWord rawCommand = lit "auth") :
    executeCommand desktop state logBuffer callbacks rawCommand =
      (state, authCommand logBuffer callbacks (trimCopy (afterFirstWord (trimCopy rawCommand)))) := by
  have hbranch := commandBranch_of_not_exact (not_isExact_of_word (by decide) h)
  rw [startsWith_commandWord rfl, startsWith_commandWord rfl, startsWith_commandWord rfl, h,
    if_neg (by decide), if_neg (by decide), if_pos (by decide)] at hbranch
  rw [executeCommand_auth hbranch]
  exact congrArg (fun arg => (state, authCommand logBuffer callbacks arg)) (argument_of_word h)

end Words

/-- **First words**: a command is recognised by its whole first word exactly when a first word that is no
command does not start like one that would run. -/
theorem recognisesWord_iff (desktop : Desktop) (state : CommandState) (logBuffer : Option LogBuffer)
    (callbacks : CommandCallbacks) (rawCommand : Str) :
    RecognisesWord desktop state logBuffer callbacks rawCommand ↔
      (commandWord rawCommand ≠ [] → commandWord rawCommand ∉ commandNames →
        StartsUnlikeCommand logBuffer callbacks rawCommand) := by
  constructor
  · exact fun h hne hother => (onlyWarns_iff hne hother).mp (h.other hne hother)
  · exact fun h =>
      { other := fun hne hother => (onlyWarns_iff hne hother).mpr (h hne hother)
        filter := executeCommand_of_filter
        wlogs := executeCommand_of_wlogs
        auth := executeCommand_of_auth }

/-- The command `wlogs2` writes the logs to the file `2`. -/
theorem wlogs2_writes_file :
    CommandEffect.saveTextToFile (lit "2") [] ∈
        (executeCommand {} {} (some {}) {} (lit "wlogs2")).2 ∧
      ¬RecognisesWord {} {} (some {}) {} (lit "wlogs2") := by
  have hmem : CommandEffect.saveTextToFile (lit "2") [] ∈
      (executeCommand {} {} (some {}) {} (lit "wlogs2")).2 := by
    decide
  exact ⟨hmem, fun h => not_onlyWarns_of_call hmem rfl (h.other (by decide) (by decide))⟩

end Monitostr.Ui
