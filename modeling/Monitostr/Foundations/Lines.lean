import Mathlib.Data.List.Basic

/-! # Texts made of lines

A line ends with a stop. A list of records is written as one line for each, and is read back line by line
when no record has a stop of its own.
-/

namespace Foundations
set_option autoImplicit false

variable {α β : Type*}

/-- The text of some lines. -/
def unlines (stop : β) (texts : List (List β)) : List β := texts.flatMap (· ++ [stop])

section Lines
variable [BEq β] {stop : β}

/-- The lines of a text; what comes after the last stop is no line. -/
def lines (stop : β) (text : List β) : List (List β) := (text.splitOn stop).dropLast

/-- A text has a line for every stop in it. -/
theorem length_lines (text : List β) : (lines stop text).length = text.count stop := by
  have hsplit : ∀ text : List β, (text.splitOn stop).length = text.count stop + 1 := by
    intro text
    induction text with
    | nil => rfl
    | cons b text ih =>
      rw [List.splitOn_cons_eq_if_modifyHead, List.count_cons]
      split
      · rw [List.length_cons, ih]
      · rw [List.length_modifyHead, ih]
  rw [lines, List.length_dropLast, hsplit, Nat.add_sub_cancel]

variable [LawfulBEq β]

theorem lines_append_stop {line : List β} (h : stop ∉ line) (rest : List β) :
    lines stop (line ++ stop :: rest) = line :: lines stop rest := by
  rw [lines, lines, List.splitOn_append_cons_self_of_not_mem h]
  exact List.dropLast_cons_of_ne_nil (List.splitOn_ne_nil stop rest)

theorem lines_unlines {texts : List (List β)} (h : ∀ line ∈ texts, stop ∉ line) :
    lines stop (unlines stop texts) = texts := by
  induction texts with
  | nil => rfl
  | cons line texts ih =>
    rw [unlines, List.flatMap_cons, List.append_assoc, List.singleton_append,
      lines_append_stop (h line List.mem_cons_self)]
    exact congrArg (line :: ·) (ih fun other hother => h other (List.mem_cons_of_mem _ hother))

/-- The stops in the lines make more lines of them. -/
theorem length_lines_unlines (texts : List (List β)) :
    (lines stop (unlines stop texts)).length = texts.length + texts.flatten.count stop := by
  rw [length_lines]
  induction texts with
  | nil => rfl
  | cons line texts ih =>
    rw [unlines, List.flatMap_cons, List.count_append, List.count_append, ← unlines, ih,
      List.count_singleton_self, List.length_cons, List.flatten_cons, List.count_append]
    omega

/-- There is one line for each text exactly when no text has a stop. -/
theorem length_lines_unlines_eq_iff {texts : List (List β)} :
    (lines stop (unlines stop texts)).length = texts.length ↔ ∀ line ∈ texts, stop ∉ line := by
  rw [length_lines_unlines, Nat.add_eq_left, List.count_eq_zero]
  simp only [List.mem_flatten, not_exists, not_and]

/-- **Records read back**: what the lines of records are read as are the records. -/
theorem filterMap_lines {write : α → List β} {read : List β → Option α} {records : List α}
    (hline : ∀ a ∈ records, stop ∉ write a) (hread : ∀ a ∈ records, read (write a) = some a) :
    (lines stop (unlines stop (records.map write))).filterMap read = records := by
  rw [lines_unlines (by simpa using hline), List.filterMap_map]
  calc records.filterMap (read ∘ write) = records.filterMap some :=
        List.filterMap_congr fun a ha => hread a ha
    _ = records := List.filterMap_some

end Lines
end Foundations
