import Monitostr.Ui.LogPane

/-! # Searching the logs, and what a frame shows of it

The entries that a frame keeps for a query are those that `FindLogMatches` finds. `AdvanceLogMatch` scrolls
to the position of a match among all entries, and the frame takes this for a position among the entries it
keeps; whether the match is shown depends on how many entries before it are not kept.
-/

namespace Monitostr.Ui
open Model
set_option autoImplicit false

/-! ## Positions -/

/-- Before the element at position number `k` there are `k` others. -/
theorem countP_take_findIdxs {α : Type} {p : α → Bool} {l : List α} {k pos : ℕ}
    (h : (l.findIdxs p)[k]? = some pos) : (l.take pos).countP p = k := by
  have hgeneral : ∀ (l : List α) (s k pos : ℕ), (l.findIdxs p s)[k]? = some pos →
      (l.take (pos - s)).countP p = k ∧ s ≤ pos := by
    intro l
    induction l with
    | nil => simp
    | cons a l ih =>
      intro s k pos h
      have hstep : ∀ {k' : ℕ}, (l.findIdxs p (s + 1))[k']? = some pos →
          ((a :: l).take (pos - s)).countP p = k' + (if p a then 1 else 0) ∧ s ≤ pos := by
        intro k' h'
        obtain ⟨hcount, hle⟩ := ih (s + 1) k' pos h'
        rw [show pos - s = pos - (s + 1) + 1 by omega, List.take_succ_cons, List.countP_cons, hcount]
        exact ⟨rfl, by omega⟩
      rw [List.findIdxs_cons] at h
      cases ha : p a with
      | false =>
        rw [ha, if_neg Bool.false_ne_true] at h
        simpa [ha] using hstep h
      | true =>
        rw [ha, if_pos rfl] at h
        cases k with
        | zero =>
          obtain rfl := Option.some.inj h
          simp
        | succ k =>
          rw [List.getElem?_cons_succ] at h
          simpa [ha] using hstep h
  exact (hgeneral l 0 k pos h).1

/-- A position counts the elements before it that are chosen and those that are not. -/
theorem findIdxs_eq_add {α : Type} {p : α → Bool} {l : List α} {k pos : ℕ}
    (h : (l.findIdxs p)[k]? = some pos) : pos = k + (l.take pos).countP fun a => !p a := by
  obtain ⟨hk, hpos⟩ := List.getElem?_eq_some_iff.mp h
  have hlt : pos < l.length := by
    rw [← hpos]
    exact List.getElem_findIdxs_lt hk
  have hcount : (l.take pos).length =
      (l.take pos).countP p + (l.take pos).countP fun a => !p a := by
    simpa using (l.take pos).length_eq_countP_add_countP (p := p)
  rw [List.length_take, Nat.min_eq_left (Nat.le_of_lt hlt), countP_take_findIdxs h] at hcount
  exact hcount

/-! ## The entries that are kept -/

theorem findLogMatches_eq {query : Str} (h : query ≠ []) (logs : List LogEntry) :
    findLogMatches logs query = logs.findIdxs (keepsEntry query) := by
  have hkeeps : (fun entry => (stdFind (toLowerCopy (searchedLine entry))
      (toLowerCopy query)).isSome) = keepsEntry query := by
    funext entry
    rw [keepsEntry, stdSearch_map]
    rfl
  rw [findLogMatches, if_neg (by simpa using h)]
  exact congrArg (fun p => logs.findIdxs p) hkeeps

theorem visibleLogs_eq {query : Str} (h : query ≠ []) (logs : List LogEntry) :
    visibleLogs logs query = logs.filter (keepsEntry query) :=
  if_neg (by simpa using h)

/-- Which entry of the logs is in a row. -/
theorem getElem?_visibleLogs {query : Str} (h : query ≠ []) (logs : List LogEntry) (row : ℕ) :
    (visibleLogs logs query)[row]? =
      (logs.findIdxs (keepsEntry query))[row]?.bind fun index => logs[index]? := by
  have hlength : (logs.findIdxs (keepsEntry query)).length = (logs.filter (keepsEntry query)).length := by
    rw [List.length_findIdxs, List.countP_eq_length_filter]
  rw [visibleLogs_eq h]
  by_cases hrow : row < (logs.filter (keepsEntry query)).length
  · have hidx : row < (logs.findIdxs (keepsEntry query)).length := hlength ▸ hrow
    have hlt : (logs.findIdxs (keepsEntry query))[row] < logs.length := List.getElem_findIdxs_lt hidx
    rw [List.getElem?_eq_getElem hrow, List.getElem?_eq_getElem hidx, Option.bind_some,
      List.getElem?_eq_getElem hlt, List.getElem_filter_eq_getElem_getElem_findIdxs hrow]
  · rw [List.getElem?_eq_none (Nat.le_of_not_lt hrow),
      List.getElem?_eq_none (hlength ▸ Nat.le_of_not_lt hrow), Option.bind_none]

theorem mem_findLogMatches_lt {query : Str} (h : query ≠ []) {logs : List LogEntry} {index : ℕ}
    (hmem : index ∈ findLogMatches logs query) : index < logs.length := by
  rw [findLogMatches_eq h] at hmem
  obtain ⟨k, hk, rfl⟩ := List.getElem_of_mem hmem
  exact List.getElem_findIdxs_lt hk

theorem nodup_findLogMatches (logs : List LogEntry) (query : Str) : (findLogMatches logs query).Nodup := by
  by_cases h : query = []
  · rw [h]
    exact List.nodup_nil
  · rw [findLogMatches_eq h]
    exact List.nodup_findIdxs

/-- **Kept entries**: the entries that a frame keeps for a query are those at the positions of the matches, in
this order, and the positions increase. -/
theorem visibleLogs_matches {query : Str} (h : query ≠ []) (logs : List LogEntry) :
    (visibleLogs logs query).map some = (findLogMatches logs query).map (fun index => logs[index]?) ∧
    (findLogMatches logs query).Pairwise (· < ·) ∧
    ∀ k : ℕ, (visibleLogs logs query)[k]? =
      (findLogMatches logs query)[k]?.bind fun index => logs[index]? := by
  have hentry : ∀ k : ℕ, (visibleLogs logs query)[k]? =
      (findLogMatches logs query)[k]?.bind fun index => logs[index]? := by
    intro k
    rw [getElem?_visibleLogs h, findLogMatches_eq h]
  refine ⟨?_, ?_, hentry⟩
  · refine List.ext_getElem? fun k => ?_
    rw [List.getElem?_map, List.getElem?_map, hentry]
    cases hk : (findLogMatches logs query)[k]? with
    | none => rfl
    | some index =>
      have hlt := mem_findLogMatches_lt h (List.mem_of_getElem? hk)
      rw [Option.bind_some, Option.map_some, List.getElem?_eq_getElem hlt, Option.map_some]
  · rw [findLogMatches_eq h]
    exact List.pairwise_findIdxs

/-- The rows of a frame are those of the window that are there. -/
theorem mem_rows {context : RenderContext} {row : ℕ} :
    row ∈ context.rows ↔ context.start ≤ row ∧ row < context.start + context.logLines ∧
      row < context.visibleLogs.length := by
  have hrange : (List.range context.visibleLogs.length).drop context.start =
      List.range' context.start (context.visibleLogs.length - context.start) := by
    rw [List.range_eq_range', List.drop_range']
    simp
  rw [RenderContext.rows, hrange]
  rcases Nat.le_total (context.visibleLogs.length - context.start) context.logLines with hle | hle
  · rw [List.take_range'_of_length_le hle, List.mem_range'_1]
    omega
  · rw [List.take_range'_of_length_ge hle, List.mem_range'_1]
    omega

theorem logLines_bounds (dimy : ℤ) : 6 ≤ logLines dimy ∧ logLines dimy ≤ 12 := by
  rw [logLines]
  omega

/-! ## The current match in a frame -/

section Frame
variable (dimy : ℤ) (relayCount : ℕ) (logs : List LogEntry)

/-- The next frame draws a row for the entry of the current match. -/
def ShowsCurrentMatch (state : NavigationState) : Prop :=
  ∃ row ∈ (state.render dimy relayCount logs).2.rows,
    (logs.findIdxs (keepsEntry state.logsSearchQuery))[row]? =
      (findLogMatches logs state.logsSearchQuery)[state.logsSearchHitOrdinal]?

instance (state : NavigationState) : Decidable (ShowsCurrentMatch dimy relayCount logs state) :=
  inferInstanceAs (Decidable (∃ row ∈ (state.render dimy relayCount logs).2.rows,
    (logs.findIdxs (keepsEntry state.logsSearchQuery))[row]? =
      (findLogMatches logs state.logsSearchQuery)[state.logsSearchHitOrdinal]?))

/-- The ordinal after a step from one match to the next or the previous one. -/
def stepOrdinal (forward : Bool) (total ordinal : ℕ) : ℕ :=
  if forward then sizeT (ordinal + 1) % total else sizeT (ordinal + total - 1) % total

/-- At most two entries before the match with the ordinal do not match themselves, or the matches from it
on fit into the pane. -/
def NearMatch (query : Str) (ordinal : ℕ) : Prop :=
  (∀ index, (findLogMatches logs query)[ordinal]? = some index →
    (logs.take index).countP (fun entry => !keepsEntry query entry) ≤ 2) ∨
  (findLogMatches logs query).length - ordinal ≤ logLines dimy

variable {dimy relayCount logs}

theorem advanceLogMatch_eq {state : NavigationState} (hpane : state.activePane = .logs)
    (hquery : state.logsSearchQuery ≠ [])
    (hmatch : findLogMatches logs state.logsSearchQuery ≠ []) (forward : Bool) :
    ∃ index, (findLogMatches logs state.logsSearchQuery)[stepOrdinal forward
        (findLogMatches logs state.logsSearchQuery).length state.logsSearchHitOrdinal]? = some index ∧
      state.advanceLogMatch logs forward = { state with
        logsSearchHitOrdinal := stepOrdinal forward
          (findLogMatches logs state.logsSearchQuery).length state.logsSearchHitOrdinal
        logsScrollLines := index - 2
        logsFollow := false } := by
  have hpos := List.length_pos_of_ne_nil hmatch
  have hlt : stepOrdinal forward (findLogMatches logs state.logsSearchQuery).length
      state.logsSearchHitOrdinal < (findLogMatches logs state.logsSearchQuery).length := by
    rw [stepOrdinal]
    split <;> exact Nat.mod_lt _ hpos
  have hscroll : ∀ n : ℕ, (if n > 2 then n - 2 else 0) = n - 2 := by
    intro n
    split <;> omega
  refine ⟨_, List.getElem?_eq_getElem hlt, ?_⟩
  rw [NavigationState.advanceLogMatch, if_neg (by simp [hpane, hquery])]
  dsimp only
  rw [if_neg (by simpa using hmatch), ← stepOrdinal,
    List.getD_eq_getElem?_getD, List.getElem?_eq_getElem hlt, Option.getD_some, hscroll]

/-- The frame of a state that does not follow the logs. -/
theorem render_of_not_follow {state : NavigationState} (h : state.logsFollow = false) :
    (state.render dimy relayCount logs).2 =
      { logLines := logLines dimy, logsScrollLines := state.logsScrollLines
        visibleLogs := visibleLogs logs state.logsSearchQuery } := by
  rw [NavigationState.render]
  simp only [h, Bool.false_eq_true, if_false]
  split <;> simp only [h, Bool.false_eq_true, if_false]

theorem render_visibleLogs (state : NavigationState) :
    (state.render dimy relayCount logs).2.visibleLogs = visibleLogs logs state.logsSearchQuery := by
  rw [NavigationState.render]
  dsimp only
  repeat' split
  all_goals rfl

/-- The row of the current match draws its entry. -/
theorem ShowsCurrentMatch.entry {state : NavigationState} (hquery : state.logsSearchQuery ≠ [])
    (h : ShowsCurrentMatch dimy relayCount logs state) :
    ∃ row ∈ (state.render dimy relayCount logs).2.rows,
      (state.render dimy relayCount logs).2.visibleLogs[row]? =
        (findLogMatches logs state.logsSearchQuery)[state.logsSearchHitOrdinal]?.bind
          fun index => logs[index]? := by
  obtain ⟨row, hmem, hrow⟩ := h
  refine ⟨row, hmem, ?_⟩
  rw [render_visibleLogs, getElem?_visibleLogs hquery, hrow]

theorem start_eq (context : RenderContext) :
    context.start = min (context.visibleLogs.length - context.logLines) context.logsScrollLines := by
  rw [RenderContext.start]
  dsimp only
  split
  · split <;> omega
  · omega

/-- **Stepping from match to match**: the frame after a step shows the current match exactly when it is near
in the list of all entries or close to the last match. -/
theorem advanceLogMatch_shows_iff {state : NavigationState} (hpane : state.activePane = .logs)
    (hquery : state.logsSearchQuery ≠ [])
    (hmatch : findLogMatches logs state.logsSearchQuery ≠ []) (forward : Bool) :
    ShowsCurrentMatch dimy relayCount logs (state.advanceLogMatch logs forward) ↔
      NearMatch dimy logs state.logsSearchQuery (stepOrdinal forward
        (findLogMatches logs state.logsSearchQuery).length state.logsSearchHitOrdinal) := by
  obtain ⟨index, hindex, hadvance⟩ := advanceLogMatch_eq hpane hquery hmatch forward
  generalize stepOrdinal forward (findLogMatches logs state.logsSearchQuery).length
    state.logsSearchHitOrdinal = k at hindex hadvance ⊢
  have hlines := logLines_bounds dimy
  have htotal : (visibleLogs logs state.logsSearchQuery).length =
      (findLogMatches logs state.logsSearchQuery).length := by
    rw [visibleLogs_eq hquery, findLogMatches_eq hquery, List.length_findIdxs,
      List.countP_eq_length_filter]
  have hk : k < (findLogMatches logs state.logsSearchQuery).length :=
    (List.getElem?_eq_some_iff.mp hindex).1
  have hadd := hindex
  rw [findLogMatches_eq hquery] at hadd
  have hbefore := findIdxs_eq_add hadd
  -- The row of the match is its ordinal.
  have hrow : ShowsCurrentMatch dimy relayCount logs (state.advanceLogMatch logs forward) ↔
      k ∈ ((state.advanceLogMatch logs forward).render dimy relayCount logs).2.rows := by
    rw [ShowsCurrentMatch, hadvance, ← findLogMatches_eq hquery]
    constructor
    · rintro ⟨row, hmem, hrow⟩
      have heq : k = row := (List.getElem?_inj hk (nodup_findLogMatches _ _)).mp hrow.symm
      exact heq ▸ hmem
    · exact fun hmem => ⟨k, hmem, rfl⟩
  have hnear : NearMatch dimy logs state.logsSearchQuery k ↔
      (logs.take index).countP (fun entry => !keepsEntry state.logsSearchQuery entry) ≤ 2 ∨
        (findLogMatches logs state.logsSearchQuery).length - k ≤ logLines dimy := by
    rw [NearMatch, hindex]
    simp
  rw [hrow, mem_rows, start_eq, hadvance, render_of_not_follow rfl, hnear]
  dsimp only
  rw [htotal]
  omega

/-- Five entries that do not match, and nine that do. -/
def nineMatches : List LogEntry :=
  List.replicate 5 { timestamp := [], message := lit "idle" } ++
    List.replicate 9 { timestamp := [], message := lit "relay" }

def searchState (query : Str) : NavigationState := { activePane := .logs, logsSearchQuery := query }

/-- In a pane of six lines the second match is scrolled out of the frame. -/
theorem second_match_not_shown :
    findLogMatches nineMatches (lit "relay") ≠ [] ∧ logLines 18 = 6 ∧
      ¬ShowsCurrentMatch 18 0 nineMatches
        ((searchState (lit "relay")).advanceLogMatch nineMatches true) := by
  decide

theorem visibleLogs_matches_nine :
    (visibleLogs nineMatches (lit "RELAY")).map some =
        (findLogMatches nineMatches (lit "RELAY")).map (fun index => nineMatches[index]?) ∧
      (findLogMatches nineMatches (lit "RELAY")).Pairwise (· < ·) ∧
      ∀ k : ℕ, (visibleLogs nineMatches (lit "RELAY"))[k]? =
        (findLogMatches nineMatches (lit "RELAY"))[k]?.bind fun index => nineMatches[index]? :=
  visibleLogs_matches (by decide) nineMatches

theorem advanceLogMatch_shows_iff_third :
    ShowsCurrentMatch 18 0 nineMatches
        ((searchState (lit "relay")).advanceLogMatch nineMatches false) ↔
      NearMatch 18 nineMatches (lit "relay")
        (stepOrdinal false (findLogMatches nineMatches (lit "relay")).length 0) :=
  advanceLogMatch_shows_iff rfl (by decide) (by decide) false

end Frame
end Monitostr.Ui
