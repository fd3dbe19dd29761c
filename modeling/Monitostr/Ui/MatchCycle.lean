import Monitostr.Foundations.Cycle
import Monitostr.Ui.LogSearch

/-! # A round of the matches

`AdvanceLogMatch` goes from match to match in a cycle, in one direction or the other: a step is a stride of
one place among the matches, or of all places but one.
-/

namespace Monitostr.Ui
open Model Foundations
set_option autoImplicit false

/-- The entries in a `std::vector`, which holds fewer than `2 ^ 63` of them. -/
def LogVector := { logs : List LogEntry // logs.length < 2 ^ 63 }

/-- The position that the ordinal of a state stands for. -/
def currentMatch (logs : List LogEntry) (state : NavigationState) : Option ℕ :=
  (findLogMatches logs state.logsSearchQuery)[state.logsSearchHitOrdinal]?

/-- The states after as many steps as there are matches. -/
def matchRound (logs : List LogEntry) (forward : Bool) (state : NavigationState) : List NavigationState :=
  List.iterate (fun s => s.advanceLogMatch logs forward) (state.advanceLogMatch logs forward)
    (findLogMatches logs state.logsSearchQuery).length

/-- Stepping goes round the matches. -/
structure CyclesMatches (logs : List LogEntry) (state : NavigationState) : Prop where
  distinct : (findLogMatches logs state.logsSearchQuery).Nodup
  visits : ∀ forward : Bool, ((matchRound logs forward state).map (currentMatch logs)).Perm
    ((findLogMatches logs state.logsSearchQuery).map some)
  scrolled : ∀ forward : Bool, ∀ stop ∈ matchRound logs forward state,
    ∃ index, currentMatch logs stop = some index ∧ stop.logsScrollLines = index - 2 ∧
      stop.logsFollow = false
  returns : ∀ first forward : Bool,
    ((state.advanceLogMatch logs first).advanceLogMatch logs forward).advanceLogMatch logs (!forward) =
      state.advanceLogMatch logs first

/-! ## Strides -/

/-- The matches that a step goes on by. -/
def matchStride (forward : Bool) (total : ℕ) : ℕ := if forward then 1 else total - 1

theorem stepOrdinal_eq_stride {total ordinal : ℕ} (hpos : 0 < total) (h : ordinal + total < 2 ^ 64)
    (forward : Bool) :
    stepOrdinal forward total ordinal = stride total (matchStride forward total) ordinal := by
  cases forward with
  | true =>
    have hfits : sizeT (ordinal + 1) = ordinal + 1 := Nat.mod_eq_of_lt (by omega)
    show sizeT (ordinal + 1) % total = (ordinal + 1) % total
    rw [hfits]
  | false =>
    have hfits : sizeT (ordinal + total - 1) = ordinal + total - 1 := Nat.mod_eq_of_lt (by omega)
    show sizeT (ordinal + total - 1) % total = (ordinal + (total - 1)) % total
    rw [hfits, Nat.add_sub_assoc hpos]

theorem matchStride_coprime {total : ℕ} (hpos : 0 < total) (forward : Bool) :
    Nat.Coprime total (matchStride forward total) := by
  cases forward with
  | true => exact Nat.coprime_one_right total
  | false =>
    show Nat.Coprime total (total - 1)
    obtain ⟨n, rfl⟩ : ∃ n, total = n + 1 := ⟨total - 1, by omega⟩
    exact (Nat.coprime_self_add_left).mpr (Nat.coprime_one_left n)

theorem matchStride_round {total : ℕ} (hpos : 0 < total) (forward : Bool) :
    total ∣ matchStride forward total + matchStride (!forward) total := by
  have hsum : matchStride forward total + matchStride (!forward) total = total := by
    cases forward with
    | true => exact Nat.add_sub_cancel' hpos
    | false => exact Nat.sub_add_cancel hpos
  rw [hsum]

/-! ## The states at the matches -/

section Steps
variable {logs : List LogEntry} {query : Str}

/-- The state at the match with an ordinal. -/
def atMatch (logs : List LogEntry) (state : NavigationState) (ordinal : ℕ) : NavigationState :=
  { state with
    logsSearchHitOrdinal := ordinal
    logsScrollLines := (findLogMatches logs state.logsSearchQuery).getD ordinal 0 - 2
    logsFollow := false }

/-- The ordinal that a stride among the matches comes to. -/
def nextOrdinal (logs : List LogEntry) (query : Str) (forward : Bool) : ℕ → ℕ :=
  stride (findLogMatches logs query).length (matchStride forward (findLogMatches logs query).length)

/-- The pane has the logs of a query, and the sum with the ordinal does not wrap around. -/
structure Searching (logs : List LogEntry) (query : Str) (state : NavigationState) : Prop where
  pane : state.activePane = .logs
  search : state.logsSearchQuery = query
  range : state.logsSearchHitOrdinal + (findLogMatches logs query).length < 2 ^ 64

theorem Searching.advance_eq {state : NavigationState} (h : Searching logs query state)
    (hmatch : findLogMatches logs query ≠ []) (forward : Bool) :
    state.advanceLogMatch logs forward =
      atMatch logs state (nextOrdinal logs query forward state.logsSearchHitOrdinal) := by
  have hquery : state.logsSearchQuery ≠ [] := by
    rintro hnil
    rw [← h.search, hnil] at hmatch
    exact hmatch rfl
  obtain ⟨pane, hq, range⟩ := h
  subst hq
  obtain ⟨index, hindex, hadvance⟩ := advanceLogMatch_eq pane hquery hmatch forward
  rw [stepOrdinal_eq_stride (List.length_pos_of_ne_nil hmatch) range] at hindex hadvance
  rw [hadvance, atMatch, nextOrdinal, List.getD_eq_getElem?_getD, hindex, Option.getD_some]

theorem Searching.advance {state : NavigationState} (h : Searching logs query state)
    (hmatch : findLogMatches logs query ≠ []) (hlogs : logs.length < 2 ^ 63) (forward : Bool) :
    Searching logs query (state.advanceLogMatch logs forward) := by
  have hpos := List.length_pos_of_ne_nil hmatch
  have hle : (findLogMatches logs query).length ≤ logs.length := by
    by_cases hquery : query = []
    · exact absurd (hquery ▸ rfl) hmatch
    · rw [findLogMatches_eq hquery, List.length_findIdxs]
      exact List.countP_le_length
  have hlt : nextOrdinal logs query forward state.logsSearchHitOrdinal < (findLogMatches logs query).length :=
    stride_lt hpos
  rw [h.advance_eq hmatch]
  -- Twice the number of matches does not wrap around.
  exact ⟨h.pane, h.search, by dsimp only [atMatch]; omega⟩

/-- A state in a round is at a match. -/
theorem Searching.mem_round {state stop : NavigationState} (h : Searching logs query state)
    (hmatch : findLogMatches logs query ≠ []) (hlogs : logs.length < 2 ^ 63) {forward : Bool}
    (hstop : stop ∈ matchRound logs forward state) :
    Searching logs query stop ∧ ∃ index, currentMatch logs stop = some index ∧
      stop.logsScrollLines = index - 2 ∧ stop.logsFollow = false := by
  obtain ⟨k, -, rfl⟩ := List.mem_iterate.mp hstop
  rw [← Function.iterate_succ_apply, Function.iterate_succ_apply']
  have hbefore : Searching logs query ((fun s => s.advanceLogMatch logs forward)^[k] state) :=
    iterate_inv (fun s hs => hs.advance hmatch hlogs forward) h k
  generalize (fun s => NavigationState.advanceLogMatch s logs forward)^[k] state = before at hbefore ⊢
  refine ⟨hbefore.advance hmatch hlogs forward, ?_⟩
  have hlt : nextOrdinal logs query forward before.logsSearchHitOrdinal < (findLogMatches logs query).length :=
    stride_lt (List.length_pos_of_ne_nil hmatch)
  have hindex := List.getElem?_eq_getElem hlt
  rw [hbefore.advance_eq hmatch]
  refine ⟨(findLogMatches logs query)[nextOrdinal logs query forward before.logsSearchHitOrdinal],
    ?_, ?_, rfl⟩
  · show (findLogMatches logs before.logsSearchQuery)[nextOrdinal logs query forward _]? = _
    rw [hbefore.search, hindex]
  · show (findLogMatches logs before.logsSearchQuery).getD (nextOrdinal logs query forward _) 0 - 2 = _
    rw [hbefore.search, List.getD_eq_getElem?_getD, hindex, Option.getD_some]

/-- The states of a round are at all matches. -/
theorem Searching.visits {state : NavigationState} (h : Searching logs query state)
    (hmatch : findLogMatches logs query ≠ []) (hlogs : logs.length < 2 ^ 63) (forward : Bool) :
    ((matchRound logs forward state).map (currentMatch logs)).Perm ((findLogMatches logs query).map some) := by
  have hmap : (matchRound logs forward state).map (currentMatch logs) =
      ((matchRound logs forward state).map NavigationState.logsSearchHitOrdinal).map
        fun ordinal => (findLogMatches logs query)[ordinal]? := by
    rw [List.map_map]
    refine List.map_congr_left fun stop hstop => ?_
    show (findLogMatches logs stop.logsSearchQuery)[stop.logsSearchHitOrdinal]? = _
    rw [(h.mem_round hmatch hlogs hstop).1.search]
    rfl
  have hstep : ∀ s, Searching logs query s → (s.advanceLogMatch logs forward).logsSearchHitOrdinal =
      nextOrdinal logs query forward s.logsSearchHitOrdinal :=
    fun s hs => congrArg NavigationState.logsSearchHitOrdinal (hs.advance_eq hmatch forward)
  have hplaces := map_iterate_of_step (fun s hs => hs.advance hmatch hlogs forward) hstep
    (h.advance hmatch hlogs forward) (findLogMatches logs query).length
  have hpos := List.length_pos_of_ne_nil hmatch
  rw [hstep state h] at hplaces
  rw [hmap, matchRound, h.search, hplaces]
  exact iterate_stride_items hpos (matchStride_coprime hpos forward) _

/-- From a match, a step in one direction is undone by one in the other. -/
theorem Searching.returns {state : NavigationState} (h : Searching logs query state)
    (hmatch : findLogMatches logs query ≠ []) (hlogs : logs.length < 2 ^ 63) (first forward : Bool) :
    ((state.advanceLogMatch logs first).advanceLogMatch logs forward).advanceLogMatch logs (!forward) =
      state.advanceLogMatch logs first := by
  have hpos := List.length_pos_of_ne_nil hmatch
  have hfirst := h.advance hmatch hlogs first
  have hback : nextOrdinal logs query (!forward) (nextOrdinal logs query forward
      (nextOrdinal logs query first state.logsSearchHitOrdinal)) =
        nextOrdinal logs query first state.logsSearchHitOrdinal :=
    stride_back (matchStride_round hpos forward) (stride_lt hpos)
  rw [(hfirst.advance hmatch hlogs forward).advance_eq hmatch, hfirst.advance_eq hmatch,
    h.advance_eq hmatch]
  show atMatch logs state (nextOrdinal logs query (!forward) _) = _
  exact congrArg (atMatch logs state) hback

end Steps

/-- **Round the matches**: with a match in the logs, as many steps in one direction as there are matches come
to every match once, and after a first step a step in one direction is undone by one in the other. -/
theorem advanceLogMatch_cycles (logs : LogVector) {state : NavigationState}
    (hpane : state.activePane = .logs) (hmatch : findLogMatches logs.1 state.logsSearchQuery ≠ [])
    (hwrap : state.logsSearchHitOrdinal + (findLogMatches logs.1 state.logsSearchQuery).length < 2 ^ 64) :
    CyclesMatches logs.1 state :=
  have hstart : Searching logs.1 state.logsSearchQuery state := ⟨hpane, rfl, hwrap⟩
  { distinct := nodup_findLogMatches _ _
    visits := hstart.visits hmatch logs.2
    scrolled := fun _ _ hstop => (hstart.mem_round hmatch logs.2 hstop).2
    returns := hstart.returns hmatch logs.2 }

/-- From a stale ordinal, round the nine matches. -/
theorem advanceLogMatch_cycles_nine :
    CyclesMatches nineMatches { searchState (lit "relay") with logsSearchHitOrdinal := 40 } :=
  advanceLogMatch_cycles ⟨nineMatches, by decide⟩ rfl (by decide) (by decide)

end Monitostr.Ui
