import Monitostr.Foundations.Runs
import Monitostr.Foundations.Utf8
import Monitostr.Ui.AppSteps
import Monitostr.Ui.CommandBranches

/-! # The buffers that text is typed into

The buffers of the Insert and the Command mode are empty whenever the app is in another mode. Typing keeps a
buffer well-formed as long as Backspace removes single-byte characters only and no character crosses the
length limit: the length is compared before a character of up to four bytes is appended, and one byte is
removed.
-/

namespace Monitostr.Ui
open Foundations Model
set_option autoImplicit false

namespace App
variable (keys : SpecialKeys)

/-- The app as a machine whose labels are events, with what the handler sees of other objects. -/
def step (app : App) (label : Event × Surroundings) : Option App :=
  some (app.catchEvent keys label.2 label.1).app

/-! ## Buffers of modes that were left -/

structure LeftEmpty (app : App) : Prop where
  commandLine : app.mode ≠ .command → app.commandLine = []
  inputNpub : app.mode ≠ .insert → app.inputNpub = []

variable {keys} {surroundings : Surroundings}

theorem LeftEmpty.normalEvent {app : App} (h : LeftEmpty app) (hnormal : app.mode = .normal)
    (event : Event) : LeftEmpty (app.normalEvent keys surroundings event).app := by
  have hstep := @normalEvent_step keys surroundings app hnormal event
  have hline := h.commandLine (by rw [hnormal]; decide)
  have hinput := h.inputNpub (by rw [hnormal]; decide)
  refine ⟨fun _ => ?_, fun _ => hstep.inputNpub.trans hinput⟩
  rcases hstep.commandLine with ⟨-, hnew⟩ | ⟨-, hsame⟩
  · exact hnew
  · exact hsame.trans hline

theorem LeftEmpty.edit {app : App} (h : LeftEmpty app) (text : Str) : LeftEmpty (app.edit text) := by
  cases hmode : app.mode with
  | normal =>
    rw [App.edit, hmode]
    exact h
  | insert =>
    rw [edit_insert hmode]
    exact ⟨h.commandLine, fun hne => absurd hmode hne⟩
  | search =>
    rw [edit_search hmode]
    exact ⟨h.commandLine, h.inputNpub⟩
  | command =>
    rw [edit_command hmode]
    exact ⟨fun hne => absurd hmode hne, h.inputNpub⟩

theorem LeftEmpty.catchEvent {app : App} (h : LeftEmpty app) (event : Event) :
    LeftEmpty (app.catchEvent keys surroundings event).app := by
  by_cases hmode : app.mode = .normal
  · rw [catchEvent_normal hmode]
    exact h.normalEvent hmode event
  by_cases hleft : event.input = keys.escape ∨ event.input = keys.returnKey
  · have hleaves := @catchEvent_leaves keys surroundings app event hmode hleft
    refine ⟨fun _ => ?_, fun _ => ?_⟩
    · rcases hleaves.commandLine with hnil | ⟨hne, hsame⟩
      · exact hnil
      · exact hsame.trans (h.commandLine hne)
    · rcases hleaves.inputNpub with hnil | ⟨hne, hsame⟩
      · exact hnil
      · exact hsame.trans (h.inputNpub hne)
  · obtain ⟨hescape, hreturn⟩ := not_or.mp hleft
    rw [catchEvent_edits hmode hescape hreturn]
    exact h.edit _

/-- **Typed secrets**: no buffer keeps what was typed into it after its mode is left. -/
theorem buffers_left_empty (keys : SpecialKeys) (events : List (Event × Surroundings)) :
    Throughout (step keys) LeftEmpty {} events := by
  refine throughout_of_run fun before app _ hrun => ?_
  refine run_invariant (I := LeftEmpty) ?_ ⟨fun _ => rfl, fun _ => rfl⟩ hrun
  intro app label app' h hstep
  obtain rfl := Option.some.inj hstep
  exact h.catchEvent label.1

/-! ## Well-formed buffers -/

/-- UTF-8 text of at most `kMaxInputLength` bytes. -/
structure GoodBuffer (buffer : Str) : Prop where
  utf8 : IsUtf8 buffer
  fits : buffer.length ≤ kMaxInputLength

structure GoodBuffers (app : App) : Prop where
  commandLine : GoodBuffer app.commandLine
  query : GoodBuffer app.logsSearchQuery
  inputNpub : GoodBuffer app.inputNpub

/-- Backspace finds a last character of one byte, and a character finds room for all its bytes or none. -/
def EditsWell (keys : SpecialKeys) (buffer : Str) (event : Event) : Prop :=
  if event.input = keys.backspace then ∀ b ∈ buffer.getLast?, b.toNat < 128
  else event.isCharacter = true → buffer.length < kMaxInputLength →
    buffer.length + event.input.length ≤ kMaxInputLength

/-- The condition on a step: where the event edits the buffer of the mode, it edits it well. -/
def TypesWell (keys : SpecialKeys) (app : App) (event : Event) : Prop :=
  app.mode ≠ .normal → event.input ≠ keys.escape → event.input ≠ keys.returnKey →
    EditsWell keys app.buffer event

instance (keys : SpecialKeys) (buffer : Str) (event : Event) : Decidable (EditsWell keys buffer event) :=
  inferInstanceAs (Decidable (if event.input = keys.backspace then _ else _))

instance (keys : SpecialKeys) (app : App) (event : Event) : Decidable (TypesWell keys app event) :=
  inferInstanceAs (Decidable (app.mode ≠ .normal → event.input ≠ keys.escape → _ → _))

theorem goodBuffer_nil : GoodBuffer [] := ⟨isUtf8_nil, Nat.zero_le _⟩

theorem goodBuffer_dropLast_iff {buffer : Str} (h : GoodBuffer buffer) :
    GoodBuffer buffer.dropLast ↔ ∀ b ∈ buffer.getLast?, b.toNat < 128 := by
  rcases List.eq_nil_or_concat buffer with rfl | ⟨start, last, rfl⟩
  · simp [goodBuffer_nil]
  · rw [List.concat_eq_append] at h ⊢
    have hutf8 := isUtf8_concat_iff h.utf8
    rw [List.dropLast_concat, List.getLast?_concat]
    constructor
    · rintro hstart b hb
      obtain rfl := Option.some.inj hb
      exact hutf8.mp hstart.utf8
    · intro hlast
      have hlength : start.length ≤ (start ++ [last]).length := by simp
      exact ⟨hutf8.mpr (hlast last rfl), hlength.trans h.fits⟩

/-- An edit keeps a buffer well-formed exactly when it edits well. -/
theorem goodBuffer_edited_iff {buffer : Str} {event : Event} (h : GoodBuffer buffer)
    (hevent : event.isCharacter = true → IsUtf8Char event.input) :
    GoodBuffer (edited keys buffer event) ↔ EditsWell keys buffer event := by
  rw [edited, EditsWell]
  by_cases hback : event.input = keys.backspace
  · rw [if_pos hback, if_pos hback]
    exact goodBuffer_dropLast_iff h
  rw [if_neg hback, if_neg hback]
  cases hchar : event.isCharacter with
  | false => simp [h]
  | true =>
    rw [if_pos rfl, typed]
    by_cases hroom : buffer.length < kMaxInputLength
    · rw [if_pos hroom]
      constructor
      · rintro hgood - -
        rw [← List.length_append]
        exact hgood.fits
      · intro hfits
        refine ⟨h.utf8.append (hevent hchar).isUtf8, ?_⟩
        rw [List.length_append]
        exact hfits rfl hroom
    · rw [if_neg hroom]
      exact iff_of_true h fun _ hlt => absurd hlt hroom

/-! ## The pattern of the filter command -/

theorem isSpace_ascii (b : UInt8) (h : isSpace b = true) : b.toNat < 128 := by
  rw [isSpace, Bool.or_eq_true, Bool.and_eq_true, beq_iff_eq, decide_eq_true_eq, decide_eq_true_eq,
    UInt8.le_iff_toNat_le, UInt8.le_iff_toNat_le] at h
  rcases h with rfl | ⟨-, h⟩
  · decide
  · exact Nat.lt_of_le_of_lt h (by decide)

theorem isUtf8_trimCopy {s : Str} (h : IsUtf8 s) : IsUtf8 (trimCopy s) :=
  (h.dropWhile isSpace_ascii).rdropWhile isSpace_ascii

theorem length_trimCopy_le (s : Str) : (trimCopy s).length ≤ s.length :=
  (List.rdropWhile_prefix _ _).length_le.trans (List.dropWhile_suffix _).length_le

theorem ascii_of_toLower {b : UInt8} (h : (toLower b).toNat < 128) : b.toNat < 128 := by
  cases hupper : isUpper b with
  | true =>
    have := (isUpper_iff.mp hupper).2
    omega
  | false => rwa [toLower_of_not_isUpper hupper] at h

/-- The argument of a command whose name is ASCII text. -/
theorem goodBuffer_argument {raw name : Str} (h : GoodBuffer raw)
    (hname : ∀ b ∈ name, b.toNat < 128) (hstarts : startsWith (toLowerCopy raw) name = true) :
    GoodBuffer (argument raw name.length) := by
  rw [startsWith, List.isPrefixOf_iff_prefix] at hstarts
  have hascii : ∀ b ∈ raw.take name.length, b.toNat < 128 := by
    intro b hb
    refine ascii_of_toLower (hname _ ?_)
    rw [List.prefix_iff_eq_take.mp hstarts, toLowerCopy, ← List.map_take]
    exact List.mem_map_of_mem hb
  rw [argument]
  split
  · refine ⟨isUtf8_trimCopy (h.utf8.drop _ hascii), (length_trimCopy_le _).trans ?_⟩
    rw [List.length_drop]
    exact (Nat.sub_le _ _).trans h.fits
  · exact goodBuffer_nil

theorem goodBuffer_executeCommand {desktop : Desktop} {state : CommandState}
    {log : Option LogBuffer} {callbacks : CommandCallbacks} {rawCommand : Str}
    (hquery : GoodBuffer state.logsSearchQuery) (hraw : GoodBuffer rawCommand) :
    GoodBuffer (executeCommand desktop state log callbacks rawCommand).1.logsSearchQuery := by
  by_cases hbranch : commandBranch (toLowerCopy (trimCopy rawCommand)) = .filter
  · have hascii : (lit "filter").all (fun b => decide (b.toNat < 128)) = true := rfl
    have hargument : GoodBuffer (argument (trimCopy rawCommand) (lit "filter").length) := by
      refine goodBuffer_argument ⟨isUtf8_trimCopy hraw.utf8, ?_⟩ (by simpa using hascii)
        (startsWith_of_commandBranch.1 hbranch)
      exact (length_trimCopy_le _).trans hraw.fits
    rw [executeCommand_filter hbranch, filterCommand]
    split
    · exact goodBuffer_nil
    · exact hargument
  · rw [executeCommand_query hbranch]
    exact hquery

/-! ## Runs -/

variable (keys)

/-- An event whose character, if it is one, is one character. -/
abbrev TextEvent := { event : Event // event.isCharacter = true → IsUtf8Char event.input }

/-- The machine for events of this kind. -/
def typing (app : App) (label : TextEvent × Surroundings) : Option App :=
  step keys app (label.1.1, label.2)

variable {keys}

theorem GoodBuffers.buffer {app : App} (h : GoodBuffers app) : GoodBuffer app.buffer := by
  cases hmode : app.mode with
  | normal =>
    rw [App.buffer, hmode]
    exact goodBuffer_nil
  | insert => exact buffer_insert hmode ▸ h.inputNpub
  | search => exact buffer_search hmode ▸ h.query
  | command => exact buffer_command hmode ▸ h.commandLine

theorem goodBuffers_edit_iff {app : App} (h : GoodBuffers app) (hmode : app.mode ≠ .normal)
    (text : Str) : GoodBuffers (app.edit text) ↔ GoodBuffer text := by
  constructor
  · intro hgood
    rw [← buffer_edit hmode text]
    exact hgood.buffer
  · intro htext
    cases hm : app.mode with
    | normal => exact absurd hm hmode
    | insert =>
      rw [edit_insert hm]
      exact ⟨h.commandLine, h.query, htext⟩
    | search =>
      rw [edit_search hm]
      exact ⟨h.commandLine, htext, h.inputNpub⟩
    | command =>
      rw [edit_command hm]
      exact ⟨htext, h.query, h.inputNpub⟩

theorem GoodBuffers.leaves {app result : App} (h : GoodBuffers app)
    (hleaves : Leaves surroundings app result) : GoodBuffers result := by
  refine ⟨?_, ?_, ?_⟩
  · rcases hleaves.commandLine with hnil | ⟨-, hsame⟩
    · exact hnil ▸ goodBuffer_nil
    · exact hsame ▸ h.commandLine
  · rcases hleaves.query with hsame | ⟨-, hcommand⟩
    · exact hsame ▸ h.query
    · exact hcommand ▸ goodBuffer_executeCommand h.query h.commandLine
  · rcases hleaves.inputNpub with hnil | ⟨-, hsame⟩
    · exact hnil ▸ goodBuffer_nil
    · exact hsame ▸ h.inputNpub

theorem goodBuffers_catchEvent_iff {app : App} (h : GoodBuffers app) {event : Event}
    (hevent : event.isCharacter = true → IsUtf8Char event.input) :
    GoodBuffers (app.catchEvent keys surroundings event).app ↔ TypesWell keys app event := by
  by_cases hmode : app.mode = .normal
  · rw [catchEvent_normal hmode]
    have hstep := @normalEvent_step keys surroundings app hmode event
    refine iff_of_true ⟨?_, ?_, ?_⟩ fun hne => absurd hmode hne
    · rcases hstep.commandLine with ⟨-, hnew⟩ | ⟨-, hsame⟩
      · exact hnew ▸ goodBuffer_nil
      · exact hsame ▸ h.commandLine
    · exact hstep.query ▸ h.query
    · exact hstep.inputNpub ▸ h.inputNpub
  by_cases hleft : event.input = keys.escape ∨ event.input = keys.returnKey
  · refine iff_of_true (h.leaves (catchEvent_leaves hmode hleft)) ?_
    exact fun _ hescape hreturn => absurd hleft (not_or.mpr ⟨hescape, hreturn⟩)
  · obtain ⟨hescape, hreturn⟩ := not_or.mp hleft
    rw [catchEvent_edits hmode hescape hreturn, goodBuffers_edit_iff h hmode,
      goodBuffer_edited_iff h.buffer hevent]
    exact ⟨fun hwell _ _ _ => hwell, fun hwell => hwell hmode hescape hreturn⟩

/-! ## A character and Backspace -/

section Erased
variable (keys)

/-- The handler takes the text as a character for the buffer of the mode. -/
def Accepts (surroundings : Surroundings) (app : App) (text : Str) : Prop :=
  (app.catchEvent keys surroundings (.character text)).app.buffer = app.buffer ++ text

/-- The app after a character and Backspace. -/
def typedAndErased (first second : Surroundings) (app : App) (text : Str) : App :=
  ((app.catchEvent keys first (.character text)).app.catchEvent keys second keys.erase).app

variable {keys}

theorem buffer_of_leaves {app result : App} (h : Leaves surroundings app result) :
    result.buffer = [] := by
  rw [buffer, h.mode]

theorem edited_character (buffer text : Str) :
    edited keys buffer (.character text) =
      if text = keys.backspace then buffer.dropLast else typed buffer (.character text) := rfl

theorem edited_erase (buffer : Str) : edited keys buffer keys.erase = buffer.dropLast := if_pos rfl

theorem typed_of_lt {buffer : Str} {event : Event} (h : buffer.length < kMaxInputLength) :
    typed buffer event = buffer ++ event.input := if_pos h

theorem erase_ne (keys : SpecialKeys) :
    keys.backspace ≠ keys.escape ∧ keys.backspace ≠ keys.returnKey := by
  have h := keys.distinct
  simp only [List.nodup_cons, List.mem_cons, not_or] at h
  exact ⟨fun heq => h.1.2.1 heq.symm, fun heq => h.2.1.1 heq.symm⟩

section Accepted
variable {app : App} {text : Str} {first second : Surroundings} (hmode : app.mode ≠ .normal)
include hmode

/-- A character is accepted when it is none of the keys and there is room for its first byte. -/
theorem accepts_iff (htext : text ≠ []) :
    Accepts keys first app text ↔
      text ∉ [keys.escape, keys.returnKey, keys.backspace] ∧ app.buffer.length < kMaxInputLength := by
  simp only [List.mem_cons, List.not_mem_nil, or_false, not_or]
  by_cases hleft : text = keys.escape ∨ text = keys.returnKey
  · have hempty := buffer_of_leaves
      (@catchEvent_leaves keys first app (.character text) hmode hleft)
    rw [Accepts, hempty]
    refine iff_of_false (fun h => ?_) fun h => hleft.elim h.1.1 h.1.2.1
    exact List.append_ne_nil_of_right_ne_nil _ htext h.symm
  obtain ⟨hescape, hreturn⟩ := not_or.mp hleft
  rw [Accepts, @catchEvent_edits keys first app (.character text) hmode hescape hreturn,
    buffer_edit hmode, edited_character]
  by_cases hback : text = keys.backspace
  · rw [if_pos hback]
    refine iff_of_false (fun h => ?_) fun h => h.1.2.2 hback
    have hlength := congrArg List.length h
    have hpos := List.length_pos_of_ne_nil htext
    rw [List.length_dropLast, List.length_append] at hlength
    omega
  rw [if_neg hback]
  by_cases hroom : app.buffer.length < kMaxInputLength
  · exact iff_of_true (typed_of_lt hroom) ⟨⟨hescape, hreturn, hback⟩, hroom⟩
  · rw [typed, if_neg hroom]
    refine iff_of_false (fun h => ?_) fun h => hroom h.2
    exact htext (List.self_eq_append_right.mp h)

theorem typedAndErased_of_accepts (hescape : text ≠ keys.escape) (hreturn : text ≠ keys.returnKey)
    (h : Accepts keys first app text) :
    (typedAndErased keys first second app text).buffer = (app.buffer ++ text).dropLast := by
  have hmode' : (app.catchEvent keys first (.character text)).app.mode ≠ .normal := by
    rw [@catchEvent_edits keys first app (.character text) hmode hescape hreturn, edit_mode]
    exact hmode
  have herase := @catchEvent_edits keys second _ keys.erase hmode' (erase_ne keys).1 (erase_ne keys).2
  rw [typedAndErased, herase, buffer_edit hmode', edited_erase, h]

/-- Backspace undoes an accepted character exactly when it has one byte. -/
theorem restored_iff (htext : IsUtf8Char text) :
    (Accepts keys first app text →
        (typedAndErased keys first second app text).buffer = app.buffer) ↔
      text ∈ [keys.escape, keys.returnKey, keys.backspace] ∨
        kMaxInputLength ≤ app.buffer.length ∨ text.length = 1 := by
  have hbounds := htext.length_bounds
  have hne : text ≠ [] := List.ne_nil_of_length_pos hbounds.1
  have haccepts := @accepts_iff keys app text first hmode hne
  by_cases h : Accepts keys first app text
  · obtain ⟨hkeys, hroom⟩ := haccepts.mp h
    have hescape : text ≠ keys.escape := fun heq => hkeys (by simp [heq])
    have hreturn : text ≠ keys.returnKey := fun heq => hkeys (by simp [heq])
    rw [typedAndErased_of_accepts hmode hescape hreturn h]
    constructor
    · intro hrestored
      have hlength := congrArg List.length (hrestored h)
      rw [List.length_dropLast, List.length_append] at hlength
      exact .inr (.inr (by omega))
    · rintro (hkey | hfull | hone) -
      · exact absurd hkey hkeys
      · exact absurd hroom (Nat.not_lt.mpr hfull)
      · obtain ⟨b, rfl⟩ := List.length_eq_one_iff.mp hone
        exact List.dropLast_concat
  · refine iff_of_true (fun haccepted => absurd haccepted h) ?_
    by_contra hnot
    rw [not_or, not_or, Nat.not_le] at hnot
    exact h (haccepts.mpr ⟨hnot.1, hnot.2.1⟩)

end Accepted

/-- **Typing and erasing**: which characters Backspace undoes, and in which runs every buffer stays UTF-8
text of at most 512 bytes. -/
theorem typing_iff (keys : SpecialKeys) :
    (∀ (app : App) (text : Str) (first second : Surroundings), app.mode ≠ .normal →
      IsUtf8Char text →
      ((Accepts keys first app text →
          (typedAndErased keys first second app text).buffer = app.buffer) ↔
        text ∈ [keys.escape, keys.returnKey, keys.backspace] ∨
          kMaxInputLength ≤ app.buffer.length ∨ text.length = 1)) ∧
    ∀ (app : App) (events : List (TextEvent × Surroundings)), GoodBuffers app →
      (Throughout (typing keys) GoodBuffers app events ↔
        Along (typing keys) (fun app label => TypesWell keys app label.1.1) app events) := by
  refine ⟨fun app text first second hmode => restored_iff hmode, fun app events hgood => ?_⟩
  refine throughout_iff_along (I := fun _ => True) (fun _ _ _ _ _ => trivial) ?_ trivial hgood
  intro app label app' _ h hstep
  obtain rfl := Option.some.inj hstep
  exact goodBuffers_catchEvent_iff h label.1.2

/-- The letter that UTF-8 encodes as the bytes 195 and 169. -/
def twoByteLetter : Str := String.utf8EncodeChar (Char.ofNat 233)

/-- A command line of 511 bytes. -/
def nearlyFull : App := { mode := .command, commandLine := List.replicate 511 97 }

theorem goodBuffers_nearlyFull : GoodBuffers nearlyFull := by
  refine ⟨⟨isUtf8_of_ascii fun b hb => ?_, ?_⟩, goodBuffer_nil, goodBuffer_nil⟩
  · rw [List.eq_of_mem_replicate hb]
    decide
  · rw [nearlyFull, List.length_replicate]
    decide

/-- Backspace leaves the first byte of the letter, and 511 bytes grow to 513. -/
theorem two_byte_letter_breaks :
    IsUtf8Char twoByteLetter ∧
    Accepts terminalKeys {} { mode := .search } twoByteLetter ∧
    (typedAndErased terminalKeys {} {} { mode := .search } twoByteLetter).buffer = [195] ∧
    GoodBuffers nearlyFull ∧
    (nearlyFull.catchEvent terminalKeys {} (.character twoByteLetter)).app.commandLine.length =
      513 := by
  refine ⟨⟨_, rfl⟩, ?_, by decide, goodBuffers_nearlyFull, ?_⟩
  · unfold Accepts
    decide
  · have hlength : nearlyFull.commandLine.length = 511 := List.length_replicate
    have hroom : nearlyFull.commandLine.length < kMaxInputLength := hlength ▸ by decide
    have hne : twoByteLetter ≠ terminalKeys.backspace := by decide
    have hedits := @catchEvent_edits terminalKeys {} nearlyFull (.character twoByteLetter)
      (by decide) (by decide) (by decide)
    rw [edited_character, if_neg hne, buffer_command rfl, typed_of_lt hroom] at hedits
    have hsum : (nearlyFull.commandLine ++ twoByteLetter).length = 513 := by
      rw [List.length_append, hlength]
      rfl
    rw [hedits, edit_command rfl]
    exact hsum

def eraseTyped : TextEvent × Surroundings := (⟨terminalKeys.erase, nofun⟩, {})

/-- The letter and an `a` are typed, and the `a` is erased. -/
def letterTyped : List (TextEvent × Surroundings) :=
  [(⟨.character twoByteLetter, fun _ => ⟨Char.ofNat 233, rfl⟩⟩, {}),
    (⟨.character (lit "a"), fun _ => ⟨'a', rfl⟩⟩, {}), eraseTyped]

/-- Backspace undoes an `a` and not the letter; the buffers stay well-formed while the letter is not erased,
and no longer. -/
theorem typing_iff_letter :
    (typedAndErased terminalKeys {} {} { mode := .insert } (lit "a")).buffer = [] ∧
      ¬ (Accepts terminalKeys {} { mode := .insert } twoByteLetter →
        (typedAndErased terminalKeys {} {} { mode := .insert } twoByteLetter).buffer = []) ∧
      Throughout (typing terminalKeys) GoodBuffers { mode := .insert } letterTyped ∧
      ¬ Throughout (typing terminalKeys) GoodBuffers { mode := .insert }
        (letterTyped ++ [eraseTyped]) := by
  have hkeys := (typing_iff terminalKeys).1 { mode := .insert }
  have hruns := (typing_iff terminalKeys).2 { mode := .insert }
  have hgood : GoodBuffers { mode := .insert } := ⟨goodBuffer_nil, goodBuffer_nil, goodBuffer_nil⟩
  refine ⟨(hkeys (lit "a") {} {} (by decide) ⟨'a', rfl⟩).mpr (by decide) ?_, ?_, ?_, ?_⟩
  · unfold Accepts
    decide
  · exact fun h => absurd ((hkeys twoByteLetter {} {} (by decide) ⟨_, rfl⟩).mp h) (by decide)
  · exact (hruns _ hgood).mpr (by decide +kernel)
  · exact fun h => absurd ((hruns _ hgood).mp h) (by decide +kernel)

end Erased
end App
end Monitostr.Ui
