import Monitostr.Ui.CommandBranches
import Monitostr.Utils.Words
import Mathlib.Data.List.Infix

/-! # The hint row and the executor

The hint row suggests at most five names, those of the table that the input starts. Three of the names that it
can suggest are no commands: `set`, `set nipswrap` and `set nonipswrap`.
-/

namespace Monitostr.Ui
open Model
set_option autoImplicit false

/-! ## The text of the row -/

/-- The entries that are suggested for an input in lower case. -/
def suggestedEntries (lower : Str) : List CommandEntry :=
  (kCommands.filter fun entry => startsWith entry.name lower).take 5

/-- The names that are suggested. -/
def suggestedNames (input : Str) : List Str :=
  if input.isEmpty then
    [lit "q", lit "cl", lit "set", lit "filter", lit "auth", lit "copylogs", lit "copyrelay",
      lit "relayinfo", lit "wlogs", lit "help"]
  else (suggestedEntries (toLowerCopy input)).map CommandEntry.name

/-- The row in which they are shown. -/
def hintRow (input : Str) : Str :=
  (lit "  ").intercalate
    (if input.isEmpty then suggestedNames input
    else (suggestedEntries (toLowerCopy input)).map CommandEntry.hint)

theorem intercalate_concat {sep : Str} {shown : List Str} (h : shown ≠ []) (text : Str) :
    sep.intercalate (shown ++ [text]) = sep.intercalate shown ++ sep ++ text := by
  induction shown with
  | nil => exact absurd rfl h
  | cons first shown ih =>
    cases shown with
    | nil => simp [List.intercalate]
    | cons second shown =>
      have hrest := ih (List.cons_ne_nil second shown)
      simp only [List.intercalate, List.cons_append, List.intersperse_cons_cons, List.flatten_cons,
        List.append_assoc] at hrest ⊢
      rw [hrest]

theorem intercalate_eq_nil {sep : Str} {shown : List Str} (h : ∀ text ∈ shown, text ≠ []) :
    (sep.intercalate shown).isEmpty = shown.isEmpty := by
  cases shown with
  | nil => rfl
  | cons first shown =>
    have hfirst := h first List.mem_cons_self
    cases first with
    | nil => exact absurd rfl hfirst
    | cons c first => cases shown <;> rfl

/-- The loop appends the entries that are left, up to five in all. -/
theorem hintLoop_eq (lower : Str) (entries : List CommandEntry) (shown : List Str)
    (hshown : ∀ text ∈ shown, text ≠ []) (hcount : shown.length < 5) :
    hintLoop lower entries ((lit "  ").intercalate shown) shown.length =
      (lit "  ").intercalate (shown ++
        ((entries.filter fun entry => startsWith entry.name lower).take (5 - shown.length)).map
          CommandEntry.hint) := by
  induction entries generalizing shown with
  | nil => simp [hintLoop]
  | cons entry entries ih =>
    rw [hintLoop]
    cases hstarts : startsWith entry.name lower with
    | false =>
      rw [if_neg Bool.false_ne_true, List.filter_cons_of_neg (by simpa using hstarts)]
      exact ih shown hshown hcount
    | true =>
      have happended : (if ((lit "  ").intercalate shown).isEmpty then (lit "  ").intercalate shown
          else (lit "  ").intercalate shown ++ lit "  ") ++ entry.hint =
            (lit "  ").intercalate (shown ++ [entry.hint]) := by
        rw [intercalate_eq_nil hshown]
        cases shown with
        | nil => simp [List.intercalate]
        | cons first shown =>
          rw [intercalate_concat (List.cons_ne_nil first shown)]
          rfl
      rw [if_pos rfl, happended, List.filter_cons_of_pos (by simpa using hstarts)]
      dsimp only
      have htake : ∀ rest : List CommandEntry, (entry :: rest).take (5 - shown.length) =
          entry :: rest.take (5 - (shown.length + 1)) := by
        intro rest
        rw [show 5 - shown.length = 5 - (shown.length + 1) + 1 by omega, List.take_succ_cons]
      rw [htake, List.map_cons]
      by_cases hlast : shown.length + 1 ≥ 5
      · rw [if_pos hlast, show 5 - (shown.length + 1) = 0 by omega, List.take_zero, List.map_nil]
      · have hlength : (shown ++ [entry.hint]).length = shown.length + 1 := by simp
        have hne : ∀ text ∈ shown ++ [entry.hint], text ≠ [] := by
          intro text hmem
          rcases List.mem_append.mp hmem with hmem | hmem
          · exact hshown text hmem
          · rw [List.mem_singleton.mp hmem]
            exact List.cons_ne_nil _ _
        rw [if_neg hlast, ← hlength, ih (shown ++ [entry.hint]) hne (by omega), hlength,
          List.append_assoc, List.singleton_append]

theorem computeCommandHint_eq (input : Str) : computeCommandHint input = hintRow input := by
  rw [computeCommandHint, hintRow]
  cases input with
  | nil => decide
  | cons c input =>
    have hloop := hintLoop_eq (toLowerCopy (c :: input)) kCommands [] nofun (by decide)
    exact hloop

/-! ## Executing what is suggested -/

/-- The command is the name in any letter case, with any white space around it. -/
structure IsVariant (name rawCommand : Str) : Prop where
  spelled : ∃ before spelling after, rawCommand = before ++ spelling ++ after ∧
    (∀ c ∈ before, isSpace c = true) ∧ (∀ c ∈ after, isSpace c = true) ∧
    toLowerCopy spelling = toLowerCopy name

/-- The command ends in the branch for unknown commands. -/
def EndsUnknown (rawCommand : Str) : Prop :=
  commandBranch (toLowerCopy (trimCopy rawCommand)) = .unknown

/-- Every name in the hint row is executed, however it is spelled. -/
def HintsExecute (input : Str) : Prop :=
  ∀ name ∈ suggestedNames input, ∀ rawCommand, IsVariant name rawCommand → ¬EndsUnknown rawCommand

/-- The names that a hint row can have. -/
def hintNames : List Str := lit "set" :: kCommands.map CommandEntry.name

/-- The names among them that no branch knows. -/
def unknownNames : List Str := [lit "set", lit "set nipswrap", lit "set nonipswrap"]

theorem toLowerCopy_variant {name rawCommand : Str} (h : IsVariant name rawCommand) :
    toLowerCopy (trimCopy rawCommand) = trimCopy (toLowerCopy name) := by
  obtain ⟨before, spelling, after, rfl, hbefore, hafter, hspelling⟩ := h.spelled
  rw [trimCopy_append_right hafter, trimCopy_append_left hbefore, toLowerCopy_trimCopy, hspelling]

theorem isVariant_self (name : Str) : IsVariant name name :=
  ⟨[], name, [], by simp, nofun, nofun, rfl⟩

theorem suggestedNames_subset (input : Str) : suggestedNames input ⊆ hintNames := by
  rw [suggestedNames]
  split
  · decide
  · intro name hmem
    obtain ⟨entry, hentry, rfl⟩ := List.mem_map.mp hmem
    have hfilter := List.mem_filter.mp (List.mem_of_mem_take hentry)
    exact List.mem_cons_of_mem _ (List.mem_map_of_mem hfilter.1)

/-- A name of the table is unknown to the executor exactly when it is one of the three. -/
theorem endsUnknown_variant_iff {name rawCommand : Str} (hname : name ∈ hintNames)
    (h : IsVariant name rawCommand) : EndsUnknown rawCommand ↔ name ∈ unknownNames := by
  have hall : ∀ name ∈ hintNames,
      commandBranch (trimCopy (toLowerCopy name)) = .unknown ↔ name ∈ unknownNames := by
    decide
  rw [EndsUnknown, toLowerCopy_variant h]
  exact hall name hname

theorem hintsExecute_iff_disjoint (input : Str) :
    HintsExecute input ↔ ∀ name ∈ unknownNames, name ∉ suggestedNames input := by
  constructor
  · intro h name hunknown hmem
    refine h name hmem name (isVariant_self name) ?_
    exact (endsUnknown_variant_iff (suggestedNames_subset input hmem) (isVariant_self name)).mpr hunknown
  · intro h name hmem rawCommand hvariant hunknown
    rw [endsUnknown_variant_iff (suggestedNames_subset input hmem) hvariant] at hunknown
    exact h name hunknown hmem

/-- An entry that is among the first five for every start of its name is suggested for these starts only. -/
theorem mem_suggestedEntries_iff {entry : CommandEntry}
    (hstarts : (entry.name.inits.all fun lower =>
      lower.isEmpty || (suggestedEntries lower).contains entry) = true)
    {lower : Str} (hne : lower ≠ []) :
    entry ∈ suggestedEntries lower ↔ lower <+: entry.name := by
  constructor
  · intro hmem
    have hfilter := List.mem_filter.mp (List.mem_of_mem_take hmem)
    exact List.isPrefixOf_iff_prefix.mp hfilter.2
  · intro hpre
    have hmem := List.all_eq_true.mp hstarts lower ((List.mem_inits _ _).mpr hpre)
    cases lower with
    | nil => exact absurd rfl hne
    | cons c lower => simpa using hmem

def nipswrapEntry : CommandEntry := ⟨lit "set nipswrap", lit "wrap NIPs"⟩
def nonipswrapEntry : CommandEntry := ⟨lit "set nonipswrap", lit "unwrap NIPs"⟩

/-- A name is suggested when the only entry that has it is. -/
theorem mem_map_name_iff {entry : CommandEntry} {lower : Str}
    (hunique : ∀ other ∈ kCommands, other.name = entry.name → other = entry) :
    entry.name ∈ (suggestedEntries lower).map CommandEntry.name ↔ entry ∈ suggestedEntries lower := by
  refine ⟨fun hmem => ?_, fun hmem => List.mem_map_of_mem hmem⟩
  obtain ⟨other, hother, hname⟩ := List.mem_map.mp hmem
  have htable := (List.mem_filter.mp (List.mem_of_mem_take hother)).1
  exact hunique other htable hname ▸ hother

theorem mem_suggested_nipswrap {lower : Str} (hne : lower ≠ []) :
    lit "set nipswrap" ∈ (suggestedEntries lower).map CommandEntry.name ↔
      lower <+: lit "set nipswrap" :=
  (@mem_map_name_iff nipswrapEntry lower (by decide)).trans
    (mem_suggestedEntries_iff (by decide) hne)

theorem mem_suggested_nonipswrap {lower : Str} (hne : lower ≠ []) :
    lit "set nonipswrap" ∈ (suggestedEntries lower).map CommandEntry.name ↔
      lower <+: lit "set nonipswrap" :=
  (@mem_map_name_iff nonipswrapEntry lower (by decide)).trans
    (mem_suggestedEntries_iff (by decide) hne)

theorem not_mem_suggested_set (lower : Str) :
    lit "set" ∉ (suggestedEntries lower).map CommandEntry.name := by
  intro hmem
  obtain ⟨entry, hentry, hname⟩ := List.mem_map.mp hmem
  have hnone : ∀ entry ∈ kCommands, entry.name ≠ lit "set" := by decide
  exact hnone entry (List.mem_filter.mp (List.mem_of_mem_take hentry)).1 hname

/-- **Hints**: the row shows the suggested names, and all of them are executed exactly when the input is not
empty and starts neither `set nipswrap` nor `set nonipswrap`. -/
theorem hintsExecute_iff (input : Str) :
    computeCommandHint input = hintRow input ∧
    (HintsExecute input ↔ input ≠ [] ∧ ¬toLowerCopy input <+: lit "set nipswrap" ∧
      ¬toLowerCopy input <+: lit "set nonipswrap") := by
  refine ⟨computeCommandHint_eq input, ?_⟩
  rw [hintsExecute_iff_disjoint]
  cases input with
  | nil => exact iff_of_false (fun h => h (lit "set") (by decide) (by decide)) fun h => h.1 rfl
  | cons c input =>
    have hne : toLowerCopy (c :: input) ≠ [] := List.cons_ne_nil _ _
    have hnames : suggestedNames (c :: input) =
        (suggestedEntries (toLowerCopy (c :: input))).map CommandEntry.name := rfl
    rw [hnames, unknownNames]
    simp only [List.forall_mem_cons, not_mem_suggested_set, not_false_eq_true, true_and,
      mem_suggested_nipswrap hne, mem_suggested_nonipswrap hne, List.not_mem_nil, false_imp_iff,
      implies_true, and_true, ne_eq, reduceCtorEq]

/-- The row for `set nip` suggests a command that is unknown. -/
theorem nipswrap_unknown :
    suggestedNames (lit "set nip") = [lit "set nipswrap"] ∧ EndsUnknown (lit "set nipswrap") ∧
      ¬HintsExecute (lit "set nip") := by
  have hunknown : EndsUnknown (lit "set nipswrap") := by
    unfold EndsUnknown
    decide
  have hrow : suggestedNames (lit "set nip") = [lit "set nipswrap"] := by decide
  exact ⟨hrow, hunknown, fun h => h _ (by rw [hrow]; exact List.mem_cons_self) _ (isVariant_self _)
    hunknown⟩

end Monitostr.Ui
