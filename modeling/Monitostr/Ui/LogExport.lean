import Monitostr.Foundations.Lines
import Monitostr.Net.BootstrapClient
import Monitostr.Net.RelaySession
import Monitostr.Ui.CommandProcessor
import Monitostr.Utils.JsonText

/-! # Exported logs

`JoinLogsText` writes an entry as its timestamp, its level and its message, and a newline. The messages are
written as they are, also those with a newline in them; of all others the entries can be read back.
-/

namespace Monitostr.Ui
open Model Net Foundations
set_option autoImplicit false

/-! ## What pushes leave in the buffer -/

/-- A call of `Push`, with a local time on the clock. -/
structure PushCall where
  moment : Moment
  level : LogLevel
  message : Str
  clock : ∃ hour < 24, ∃ minute < 60, ∃ second ≤ 60, moment.timestamp = nowString hour minute second

def PushCall.entry (call : PushCall) : LogEntry :=
  { timestamp := call.moment.timestamp, level := call.level, message := call.message }

def pushAll (log : LogBuffer) (calls : List PushCall) : LogBuffer :=
  calls.foldl (fun (log : LogBuffer) call => log.push call.moment call.level call.message) log

/-- The entries in a buffer after some calls. -/
def pushed (maxEntries : ℕ) (calls : List PushCall) : List LogEntry :=
  (pushAll { maxEntries := maxEntries } calls).snapshot

/-- The buffer has the entries of the last calls. -/
theorem pushAll_eq (maxEntries : ℕ) (calls : List PushCall) :
    pushAll { maxEntries := maxEntries } calls =
      { maxEntries := maxEntries
        entries := (calls.map PushCall.entry).drop (calls.length - maxEntries) } := by
  induction calls using List.reverseRecOn with
  | nil => simp [pushAll]
  | append_singleton calls call ih =>
    have hstep : pushAll { maxEntries := maxEntries } (calls ++ [call]) =
        (pushAll { maxEntries := maxEntries } calls).push call.moment call.level call.message := by
      rw [pushAll, List.foldl_append]
      rfl
    rw [hstep, ih, LogBuffer.push]
    have hentries : ((calls.map PushCall.entry).drop (calls.length - maxEntries) ++ [call.entry]) =
        ((calls ++ [call]).map PushCall.entry).drop (calls.length - maxEntries) := by
      rw [List.map_append, List.drop_append_of_le_length (by simp)]
      rfl
    dsimp only
    rw [← PushCall.entry, hentries, List.drop_drop, List.length_drop, List.length_map,
      List.length_append, List.length_singleton]
    congr 2
    omega

theorem mem_pushed {maxEntries : ℕ} {calls : List PushCall} {entry : LogEntry}
    (h : entry ∈ pushed maxEntries calls) : ∃ call ∈ calls, call.entry = entry := by
  rw [pushed, pushAll_eq] at h
  exact List.mem_map.mp (List.mem_of_mem_drop h)

/-! ## Lines -/

/-- The newline character. -/
def newline : UInt8 := 10

def levelTag (level : LogLevel) : Str := lit " [" ++ level.toText ++ lit "] "

/-- What is written of an entry before the newline. -/
def exportLine (entry : LogEntry) : Str := entry.timestamp ++ (levelTag entry.level ++ entry.message)

theorem joinLogsText_eq (logs : List LogEntry) : joinLogsText logs = unlines newline (logs.map exportLine) := by
  rw [joinLogsText, unlines, List.flatMap_map]
  refine congrArg (fun f => logs.flatMap f) (funext fun entry => ?_)
  rw [exportLine, levelTag]
  simp only [List.append_assoc]
  rfl

/-- Reads the line of an entry. -/
def readExportLine (line : Str) : Option LogEntry :=
  [LogLevel.info, LogLevel.warn, LogLevel.error].findSome? fun level =>
    ((levelTag level).isPrefixOf? (line.drop 8)).map fun message =>
      { timestamp := line.take 8, level := level, message := message }

theorem readExportLine_exportLine {entry : LogEntry} (h : entry.timestamp.length = 8) :
    readExportLine (exportLine entry) = some entry := by
  obtain ⟨timestamp, level, message⟩ := entry
  dsimp only at h
  rw [readExportLine, exportLine, List.take_left' h, List.drop_left' h]
  cases level <;> rfl

theorem newline_not_mem_levelTag (level : LogLevel) : newline ∉ levelTag level := by
  cases level <;> decide

theorem newline_not_mem_twoDigits {n : ℕ} (h : n < 100) : newline ∉ twoDigits n := by
  revert n
  decide

theorem PushCall.timestamp_spec (call : PushCall) :
    call.entry.timestamp.length = 8 ∧ newline ∉ call.entry.timestamp := by
  obtain ⟨hour, hhour, minute, hminute, second, hsecond, htimestamp⟩ := call.clock
  rw [PushCall.entry, htimestamp]
  refine ⟨rfl, ?_⟩
  simp only [nowString, List.mem_append, not_or]
  exact ⟨⟨⟨⟨newline_not_mem_twoDigits (by omega), by decide⟩, newline_not_mem_twoDigits (by omega)⟩,
    by decide⟩, newline_not_mem_twoDigits (by omega)⟩

/-- An entry has a newline in its line when its message has one. -/
theorem PushCall.newline_mem_line (call : PushCall) :
    newline ∈ exportLine call.entry ↔ newline ∈ call.message := by
  rw [exportLine, List.mem_append, List.mem_append, or_iff_right call.timestamp_spec.2,
    or_iff_right (newline_not_mem_levelTag _)]
  rfl

/-! ## What the text tells of the entries -/

section Exports
variable {maxEntries : ℕ} {calls : List PushCall}

/-- The lines are as many as the entries exactly when no entry has a newline in its message. -/
theorem length_lines_joinLogsText_iff :
    (lines newline (joinLogsText (pushed maxEntries calls))).length = (pushed maxEntries calls).length ↔
      ∀ entry ∈ pushed maxEntries calls, newline ∉ entry.message := by
  rw [joinLogsText_eq, ← List.length_map exportLine, length_lines_unlines_eq_iff, List.forall_mem_map]
  refine forall₂_congr fun entry hentry => not_congr ?_
  obtain ⟨call, -, rfl⟩ := mem_pushed hentry
  exact call.newline_mem_line

/-- `:wlogs` reports the number of lines that it saves exactly when no entry has a newline in its message. -/
theorem wlogsCommand_reports_iff {desktop : Desktop} {filePath : Str} (hpath : filePath ≠ [])
    (hsave : desktop.saveTextToFile filePath (joinLogsText (pushed maxEntries calls)) = true) :
    CommandEffect.log .info (lit "Saved " ++
        stdToString (lines newline (joinLogsText (pushed maxEntries calls))).length ++
          lit " log lines to " ++ filePath) ∈
        wlogsCommand desktop (some (pushAll { maxEntries := maxEntries } calls)) filePath ↔
      ∀ entry ∈ pushed maxEntries calls, newline ∉ entry.message := by
  rw [← length_lines_joinLogsText_iff, wlogsCommand, if_neg hpath]
  dsimp only
  rw [← pushed, if_pos hsave]
  simp only [List.mem_cons, reduceCtorEq, CommandEffect.log.injEq, true_and, List.not_mem_nil, or_false,
    false_or, List.append_cancel_right_eq, List.append_cancel_left_eq]
  exact stdToString_injective.eq_iff

/-- **Entries read back**: the lines of messages without a newline are read as the entries. -/
theorem readExportLine_joinLogsText (h : ∀ call ∈ calls, newline ∉ call.message) :
    (lines newline (joinLogsText (pushed maxEntries calls))).filterMap readExportLine =
      pushed maxEntries calls := by
  rw [joinLogsText_eq]
  apply filterMap_lines
  · intro entry hentry
    obtain ⟨call, hcall, rfl⟩ := mem_pushed hentry
    rw [call.newline_mem_line]
    exact h call hcall
  · intro entry hentry
    obtain ⟨call, -, rfl⟩ := mem_pushed hentry
    exact readExportLine_exportLine call.timestamp_spec.1

end Exports

/-- The text has a line for each entry and tells one list of entries from every other, for all lists that
calls with certain messages leave in the buffer. -/
structure ExportsExactly (maxEntries : ℕ) (allowed : Str → Prop) : Prop where
  lines_eq : ∀ calls : List PushCall, (∀ call ∈ calls, allowed call.message) →
    (lines newline (joinLogsText (pushed maxEntries calls))).length = (pushed maxEntries calls).length
  distinct : ∀ calls calls' : List PushCall, (∀ call ∈ calls, allowed call.message) →
    (∀ call ∈ calls', allowed call.message) →
    joinLogsText (pushed maxEntries calls) = joinLogsText (pushed maxEntries calls') →
    pushed maxEntries calls = pushed maxEntries calls'

def noonCall (level : LogLevel) (message : Str) : PushCall where
  moment := { timestamp := nowString 12 0 0 }
  level := level
  message := message
  clock := ⟨12, by decide, 0, by decide, 0, by decide, rfl⟩

/-- **Exported logs** are exact for some messages if and only if none of them has a newline. -/
theorem exportsExactly_iff {maxEntries : ℕ} (hroom : 0 < maxEntries) (allowed : Str → Prop) :
    ExportsExactly maxEntries allowed ↔ ∀ message, allowed message → newline ∉ message := by
  constructor
  · -- One call with the message is enough.
    intro h message hmessage
    have hone : pushed maxEntries [noonCall .info message] = [(noonCall .info message).entry] := by
      rw [pushed, pushAll_eq, List.length_singleton, Nat.sub_eq_zero_of_le hroom]
      rfl
    have hlines := length_lines_joinLogsText_iff.mp
      (h.lines_eq [noonCall .info message] fun call hcall => List.mem_singleton.mp hcall ▸ hmessage)
    exact hlines (noonCall .info message).entry (hone ▸ List.mem_singleton_self _)
  · intro h
    refine ⟨fun calls hcalls => ?_, fun calls calls' hcalls hcalls' hsame => ?_⟩
    · rw [length_lines_joinLogsText_iff]
      intro entry hentry
      obtain ⟨call, hcall, rfl⟩ := mem_pushed hentry
      exact h call.message (hcalls call hcall)
    · have hread := @readExportLine_joinLogsText maxEntries calls
        fun call hcall => h call.message (hcalls call hcall)
      rw [hsame, readExportLine_joinLogsText fun call hcall => h call.message (hcalls' call hcall)] at hread
      exact hread.symm

theorem exportsExactly_iff_started :
    ExportsExactly 400 (· = lit "Application started") ↔
      ∀ message, message = lit "Application started" → newline ∉ message :=
  exportsExactly_iff (by decide) _

/-- What a session logs when its host is not found. -/
def resolveFailure (relayUrl : Str) : Str :=
  (RelaySession.create relayUrl []).tagged (lit "resolve: Host not found")

def forgedRelay : Str := lit "wss://a] resolve: Host not found\n12:00:00 [ERROR] [wss://b"

/-- One relay URL has a session log what is exported as the failures of two others. -/
theorem forged_export :
    isSecureRelay forgedRelay = true ∧ ¬ExportsExactly 400 fun _ => True := by
  refine ⟨by decide, fun h => ?_⟩
  have hsame : joinLogsText (pushed 400 [noonCall .error (resolveFailure forgedRelay)]) =
      joinLogsText (pushed 400 [noonCall .error (resolveFailure (lit "wss://a")),
        noonCall .error (resolveFailure (lit "wss://b"))]) := by decide
  have heq := h.distinct _ _ (fun _ _ => trivial) (fun _ _ => trivial) hsame
  exact absurd (congrArg List.length heq) (by decide)

end Monitostr.Ui
