import Monitostr.Foundations.ListWindow
import Monitostr.Foundations.Runs
import Monitostr.Foundations.SortedPosition
import Monitostr.Model.StatsLog
import Monitostr.Ui.AppSteps
import Monitostr.Ui.RelayTable

/-! # The selected relay

The user interface keeps the selection as an index into the sorted snapshot, which the sessions make longer at
any time. Each key moves the index by a number of rows and stops it at the ends of the list, so it stays in the
list. The relay at the index changes when one is added that sorts before it.
-/

namespace Monitostr.Ui
open Foundations Model
set_option autoImplicit false

/-! ## The user interface and the store -/

structure Display where
  app : App
  stats : RelayStats

/-- What happens to the two: an event of the terminal, an update of the store by a session, a frame. What an
event or a frame sees besides the snapshot of the store is given with it. -/
inductive DisplayEvent
  | key (event : Event) (surroundings : Surroundings)
  | update (call : StatsCall ℤ)
  | frame (surroundings : Surroundings) (dimy : ℤ)

/-- An update that is no reset of the store. -/
def DisplayEvent.KeepsRelays : DisplayEvent → Prop
  | .update call => call.2 ≠ .reset
  | _ => True

def DisplayEvent.IsKey : DisplayEvent → Prop
  | .key _ _ => True
  | _ => False

/-- The relay that an update may add. -/
def DisplayEvent.adds : DisplayEvent → Option Str
  | .update call => call.relayUrl?
  | _ => none

namespace Display
variable (keys : SpecialKeys)

def relays (display : Display) : List RelayStat := display.stats.snapshot

/-- The surroundings of the handler, with the snapshot that it takes. -/
def seen (display : Display) (surroundings : Surroundings) : Surroundings :=
  { surroundings with relays := display.relays }

def step (display : Display) : DisplayEvent → Option Display
  | .key event surroundings =>
    some { display with app := (display.app.catchEvent keys (display.seen surroundings) event).app }
  | .update call => some { display with stats := display.stats.apply call.1 call.2 }
  | .frame surroundings dimy =>
    some { display with app := (display.app.frame (display.seen surroundings) dimy).1 }

/-- The URL at the selected index of a snapshot, which `:copyrelay` copies. -/
def selectedUrl (display : Display) : Option Str :=
  display.relays[display.app.selectedRelay]?.map RelayStat.relayUrl

/-! ## The URLs of a snapshot -/

def urls (display : Display) : List Str := display.relays.map RelayStat.relayUrl

theorem mem_urls (display : Display) (url : Str) : url ∈ display.urls ↔ display.stats.Has url :=
  display.stats.mem_snapshot_urls url

theorem urls_sorted (display : Display) : display.urls.Pairwise (· < ·) := by
  unfold urls
  rw [List.pairwise_map]
  exact RelayStats.pairwise_sortByUrl display.stats.nodup_records_urls

theorem str_asymm (a b : Str) (h : a < b) : ¬ b < a := List.lt_asymm h

theorem selectedUrl_eq (display : Display) :
    display.selectedUrl = display.urls[display.app.selectedRelay]? := by
  unfold selectedUrl urls
  rw [List.getElem?_map]

theorem length_urls (display : Display) : display.urls.length = display.relays.length :=
  List.length_map _

theorem length_urls_le {display display' : Display} (h : display.urls ⊆ display'.urls) :
    display.urls.length ≤ display'.urls.length :=
  (List.subperm_of_subset (nodup_of_sorted str_asymm display.urls_sorted) h).length_le

/-! ## Steps and runs without a key -/

variable {keys}

theorem step_has {display display' : Display} {e : DisplayEvent} (he : e.KeepsRelays)
    (h : display.step keys e = some display') (url : Str) :
    display'.stats.Has url ↔ e.adds = some url ∨ display.stats.Has url := by
  cases e with
  | key event surroundings =>
    obtain rfl := Option.some.inj h
    simp [DisplayEvent.adds]
  | frame surroundings dimy =>
    obtain rfl := Option.some.inj h
    simp [DisplayEvent.adds]
  | update call =>
    obtain rfl := Option.some.inj h
    obtain ⟨m, op⟩ := call
    obtain ⟨added, hadded⟩ : ∃ added, op.relayUrl? = some added := by
      cases op with
      | reset => exact absurd rfl he
      | _ => exact ⟨_, rfl⟩
    show (display.stats.apply m op).Has url ↔ op.relayUrl? = some url ∨ _
    rw [RelayStats.has_apply hadded, hadded, Option.some.injEq, eq_comm]

theorem step_selected {display display' : Display} {e : DisplayEvent} (he : ¬ e.IsKey)
    (hrange : display.app.selectedRelay < display.relays.length)
    (h : display.step keys e = some display') :
    display'.app.selectedRelay = display.app.selectedRelay := by
  cases e with
  | key event surroundings => exact absurd trivial he
  | update call =>
    obtain rfl := Option.some.inj h
    rfl
  | frame surroundings dimy =>
    obtain rfl := Option.some.inj h
    show (display.app.frame (display.seen surroundings) dimy).1.selectedRelay = _
    rw [App.frame_selectedRelay]
    have hlength : (display.seen surroundings).relays.length = display.relays.length := rfl
    split <;> omega

/-- What updates and frames do to a selection in range: the index stays, and the relays are those that were
there and those that the updates name. -/
theorem run_without_keys {display display' : Display} {events : List DisplayEvent}
    (hevents : ∀ e ∈ events, e.KeepsRelays ∧ ¬ e.IsKey)
    (hrange : display.app.selectedRelay < display.relays.length)
    (hrun : run (step keys) display events = some display') :
    display'.app.selectedRelay = display.app.selectedRelay ∧
      ∀ url, display'.stats.Has url ↔ (∃ e ∈ events, e.adds = some url) ∨ display.stats.Has url := by
  induction events generalizing display with
  | nil =>
    rw [run_nil, Option.some.injEq] at hrun
    subst hrun
    simp
  | cons e events ih =>
    obtain ⟨middle, hstep, hrest⟩ := run_cons_eq_some.mp hrun
    obtain ⟨hkeeps, hkey⟩ := hevents e List.mem_cons_self
    have hselected := step_selected hkey hrange hstep
    have hhas := step_has hkeeps hstep
    have hsub : display.urls ⊆ middle.urls := fun url hurl =>
      (mem_urls _ _).mpr ((hhas url).mpr (.inr ((mem_urls _ _).mp hurl)))
    have hle := length_urls_le hsub
    rw [length_urls, length_urls] at hle
    obtain ⟨hsame, hrelays⟩ := ih (fun f hf => hevents f (List.mem_cons_of_mem _ hf))
      (by omega) hrest
    refine ⟨hsame.trans hselected, fun url => ?_⟩
    rw [hrelays, hhas]
    simp only [List.mem_cons, exists_eq_or_imp]
    rw [or_left_comm, or_assoc]

section Added
variable {display display' : Display} {events : List DisplayEvent} {url : Str}
  (hselected : display.selectedUrl = some url) (hevents : ∀ e ∈ events, e.KeepsRelays ∧ ¬ e.IsKey)
  (hrun : run (step keys) display events = some display')
include hselected hevents hrun

/-- The index keeps its relay exactly when no relay is added that sorts before it. -/
theorem selectedUrl_eq_iff :
    display'.selectedUrl = some url ↔
      ∀ e ∈ events, ∀ added, e.adds = some added → added < url → display.stats.Has added := by
  rw [selectedUrl_eq] at hselected
  obtain ⟨hrange, -⟩ := List.getElem?_eq_some_iff.mp hselected
  rw [length_urls] at hrange
  obtain ⟨hsame, hrelays⟩ := run_without_keys hevents hrange hrun
  have hsub : display.urls ⊆ display'.urls := fun added hadded =>
    (mem_urls _ _).mpr ((hrelays added).mpr (.inr ((mem_urls _ _).mp hadded)))
  rw [selectedUrl_eq, hsame,
    getElem?_kept_iff str_asymm display.urls_sorted display'.urls_sorted hsub hselected]
  simp only [mem_urls, hrelays]
  constructor
  · intro hall e he added hadds hless
    exact hall added (.inl ⟨e, he, hadds⟩) hless
  · rintro hall added (⟨e, he, hadds⟩ | hhas) hless
    · exact hall e he added hadds hless
    · exact hhas

/-- The relay is further down by the number of those. -/
theorem urls_moved :
    display'.urls[display.app.selectedRelay +
      countBelow (· < ·) url (display'.urls.filter (· ∉ display.urls))]? = some url := by
  rw [selectedUrl_eq] at hselected
  obtain ⟨hrange, -⟩ := List.getElem?_eq_some_iff.mp hselected
  rw [length_urls] at hrange
  have hrelays := (run_without_keys hevents hrange hrun).2
  have hsub : display.urls ⊆ display'.urls := fun added hadded =>
    (mem_urls _ _).mpr ((hrelays added).mpr (.inr ((mem_urls _ _).mp hadded)))
  convert getElem?_add_countBelow str_asymm display.urls_sorted display'.urls_sorted hsub hselected

/-- **The selection and new relays**: after updates and frames, the selected index still denotes its relay exactly
when no relay was added that sorts before it, and that relay is further down by the number of those. -/
theorem selection_kept_iff :
    (display'.selectedUrl = display.selectedUrl ↔
        ∀ e ∈ events, ∀ added, e.adds = some added → added < url → display.stats.Has added) ∧
      display'.urls[display.app.selectedRelay +
        countBelow (· < ·) url (display'.urls.filter (· ∉ display.urls))]? = some url := by
  refine ⟨?_, urls_moved hselected hevents hrun⟩
  rw [hselected]
  exact selectedUrl_eq_iff hselected hevents hrun

end Added

/-! ### One relay, and another one -/

/-- The user interface at the start, with one relay in the store. -/
def oneRelay : Display :=
  { app := {}, stats := RelayStats.empty.ensureRelay (lit "wss://b.example") }

theorem oneRelay_urls : oneRelay.urls = [lit "wss://b.example"] := by
  simp [oneRelay, urls, relays, RelayStats.snapshot, RelayStats.ensureRelay, RelayStats.empty]

theorem oneRelay_selectedUrl : oneRelay.selectedUrl = some (lit "wss://b.example") := by
  rw [selectedUrl_eq, oneRelay_urls]
  rfl

/-- A session adds a relay, and a frame is drawn. -/
def addRelay (url : Str) : List DisplayEvent :=
  [.update ({}, .ensureRelay url), .frame {} 24]

theorem addRelay_noKeys (url : Str) : ∀ e ∈ addRelay url, e.KeepsRelays ∧ ¬ e.IsKey := by
  simp [addRelay, DisplayEvent.KeepsRelays, DisplayEvent.IsKey]

theorem run_addRelay (url : Str) :
    ∃ display', run (step terminalKeys) oneRelay (addRelay url) = some display' :=
  ⟨_, rfl⟩

theorem selection_kept_iff_later : ∃ display',
    run (step terminalKeys) oneRelay (addRelay (lit "wss://c.example")) = some display' ∧
      display'.selectedUrl = oneRelay.selectedUrl := by
  obtain ⟨display', hrun⟩ := run_addRelay (lit "wss://c.example")
  refine ⟨display', hrun,
    (selection_kept_iff oneRelay_selectedUrl (addRelay_noKeys _) hrun).1.mpr ?_⟩
  intro e he added hadds hless
  have hadded : added = lit "wss://c.example" := by
    simp only [addRelay, List.mem_cons, List.not_mem_nil, or_false] at he
    rcases he with rfl | rfl
    · exact (Option.some.inj hadds).symm
    · cases hadds
  subst hadded
  exact absurd hless (by decide)

/-- A relay that sorts before the selected one takes its place. -/
theorem earlier_relay_selected : ∃ display',
    run (step terminalKeys) oneRelay (addRelay (lit "wss://a.example")) = some display' ∧
      oneRelay.selectedUrl = some (lit "wss://b.example") ∧
      display'.selectedUrl ≠ oneRelay.selectedUrl := by
  obtain ⟨display', hrun⟩ := run_addRelay (lit "wss://a.example")
  refine ⟨display', hrun, oneRelay_selectedUrl, fun hsame => ?_⟩
  rw [oneRelay_selectedUrl] at hsame
  have hnone := (selectedUrl_eq_iff oneRelay_selectedUrl (addRelay_noKeys _) hrun).mp hsame
    (.update ({}, .ensureRelay (lit "wss://a.example"))) List.mem_cons_self
    (lit "wss://a.example") rfl (by decide)
  rw [← mem_urls, oneRelay_urls] at hnone
  exact absurd hnone (by decide)

end Display
/-! ## Keys and the selection -/

/-- A change of the index of the selection, in a list of `count` relays: it stays in the list, and is a move by
`d` in the integers when the list is no longer than a `std::vector` can be. -/
structure SelectionStep (count selected selected' : ℕ) (d : ℤ) : Prop where
  inList : InList count selected → InList count selected'
  exact_ : InList count selected → count < 2 ^ 63 → selected' = moved count selected d

theorem SelectionStep.of_moved {count selected selected' : ℕ} {d : ℤ}
    (h : InList count selected → selected' = moved count selected d) :
    SelectionStep count selected selected' d where
  inList hin := h hin ▸ inList_moved count selected d
  exact_ hin _ := h hin

theorem SelectionStep.stay (count selected : ℕ) : SelectionStep count selected selected 0 :=
  .of_moved fun h => h.moved_zero.symm

namespace NavigationState
variable (state : NavigationState) (relayCount logCount logPageLines : ℕ)

/-- A move that only the keys of the relay pane make. -/
def paneMove (d : ℤ) : ℤ :=
  match state.activePane with
  | .relays => d
  | .logs => 0

theorem jumpToTop_selection :
    SelectionStep relayCount state.selectedRelay state.jumpToTop.selectedRelay (-relayCount) :=
  .of_moved fun h => h.moved_to_first.symm

/-- `JumpToBottom` and `JumpToPaneEnd` select the last relay, if there is one. -/
theorem selectLast_selection {selected' : ℕ}
    (h : selected' = if relayCount > 0 then relayCount - 1 else state.selectedRelay) :
    SelectionStep relayCount state.selectedRelay selected' relayCount := by
  refine .of_moved fun hin => ?_
  rw [moved_to_last, h]
  unfold InList at hin
  split <;> omega

theorem jumpToBottom_selection :
    SelectionStep relayCount state.selectedRelay
      (state.jumpToBottom relayCount logCount logPageLines).selectedRelay
      (state.paneMove relayCount) := by
  unfold jumpToBottom paneMove
  cases state.activePane with
  | relays => exact state.selectLast_selection relayCount (apply_ite selectedRelay _ _ _)
  | logs =>
    dsimp only
    split <;> exact .stay _ _

theorem jumpToPaneEnd_selection :
    SelectionStep relayCount state.selectedRelay
      (state.jumpToPaneEnd relayCount logCount logPageLines).selectedRelay
      (state.paneMove relayCount) := by
  unfold jumpToPaneEnd paneMove
  cases state.activePane with
  | relays => exact state.selectLast_selection relayCount (apply_ite selectedRelay _ _ _)
  | logs => exact .stay _ _

theorem jumpToPaneStart_selection :
    SelectionStep relayCount state.selectedRelay state.jumpToPaneStart.selectedRelay
      (state.paneMove (-relayCount)) := by
  unfold jumpToPaneStart paneMove
  cases state.activePane with
  | relays => exact .of_moved fun h => h.moved_to_first.symm
  | logs => exact .stay _ _

/-- The sum that `j` checks does not wrap around in a list that fits into memory; in any other, the check
itself keeps the index in the list. -/
theorem moveSelectionDown_selection :
    SelectionStep relayCount state.selectedRelay (state.moveSelectionDown relayCount).selectedRelay
      (state.paneMove 1) := by
  unfold moveSelectionDown paneMove
  cases state.activePane with
  | logs => exact .stay _ _
  | relays =>
    dsimp only
    by_cases hnext : relayCount > 0 ∧ sizeT (state.selectedRelay + 1) < relayCount
    · rw [if_pos hnext]
      refine ⟨fun _ => ?_, fun hin hcount => ?_⟩
      · show sizeT (state.selectedRelay + 1) < max 1 relayCount
        omega
      · show sizeT (state.selectedRelay + 1) = moved relayCount state.selectedRelay (1 : ℕ)
        rw [moved_down]
        unfold InList at hin
        unfold sizeT at hnext ⊢
        omega
    · rw [if_neg hnext]
      refine ⟨fun hin => hin, fun hin hcount => ?_⟩
      show state.selectedRelay = moved relayCount state.selectedRelay (1 : ℕ)
      rw [moved_down]
      unfold InList at hin
      unfold sizeT at hnext
      omega

theorem moveSelectionUp_selection :
    SelectionStep relayCount state.selectedRelay state.moveSelectionUp.selectedRelay
      (state.paneMove (-1)) := by
  unfold moveSelectionUp paneMove
  cases state.activePane with
  | logs => exact .stay _ _
  | relays =>
    refine .of_moved fun hin => ?_
    show _ = moved relayCount state.selectedRelay (-(1 : ℕ))
    rw [hin.moved_up 1]
    dsimp only
    split
    · rfl
    · omega

theorem movePageDown_selection :
    SelectionStep relayCount state.selectedRelay
      (state.movePageDown relayCount logPageLines).selectedRelay (state.paneMove 5) := by
  unfold movePageDown paneMove
  cases state.activePane with
  | logs => exact .stay _ _
  | relays =>
    dsimp only
    by_cases hrelays : relayCount > 0
    · rw [if_pos hrelays]
      refine ⟨fun _ => ?_, fun hin hcount => ?_⟩
      · show min _ (relayCount - 1) < max 1 relayCount
        omega
      · show min (sizeT (state.selectedRelay + 5)) (relayCount - 1) =
          moved relayCount state.selectedRelay (5 : ℕ)
        unfold InList at hin
        rw [moved_down, sizeT_of_lt (by omega)]
    · rw [if_neg hrelays]
      refine .of_moved fun hin => ?_
      unfold InList at hin
      show state.selectedRelay = moved relayCount state.selectedRelay (5 : ℕ)
      rw [moved_down]
      omega

theorem movePageUp_selection :
    SelectionStep relayCount state.selectedRelay (state.movePageUp logPageLines).selectedRelay
      (state.paneMove (-5)) := by
  unfold movePageUp paneMove
  cases state.activePane with
  | logs => exact .stay _ _
  | relays =>
    refine .of_moved fun hin => ?_
    show (if state.selectedRelay > 5 then state.selectedRelay - 5 else 0) =
      moved relayCount state.selectedRelay (-(5 : ℕ))
    rw [hin.moved_up 5]
    split <;> omega

theorem advanceLogMatch_selectedRelay (logs : List LogEntry) (forward : Bool) :
    (state.advanceLogMatch logs forward).selectedRelay = state.selectedRelay := by
  unfold advanceLogMatch
  split
  · rfl
  · dsimp only
    split <;> rfl

end NavigationState

/-- The rows by which a key moves the selection in Normal mode. -/
def selectionMove (keys : SpecialKeys) (state : NavigationState) (relayCount : ℕ) (event : Event) : ℤ :=
  if event.input = lit "g" then if state.pendingG then -relayCount else 0
  else if event.input = lit "G" then state.paneMove relayCount
  else if event.input = lit "0" then state.paneMove (-relayCount)
  else if event.input = lit "$" then state.paneMove relayCount
  else if event.input = lit "j" then state.paneMove 1
  else if event.input = lit "k" then state.paneMove (-1)
  else if event.input = keys.ctrlD ∨ event.input = keys.pageDown ∨ event.input = lit "d" then
    state.paneMove 5
  else if event.input = keys.ctrlU ∨ event.input = keys.pageUp ∨ event.input = lit "u" then
    state.paneMove (-5)
  else 0

/-- The letters for moves. -/
def moveLetters : List Str :=
  [lit "g", lit "G", lit "0", lit "$", lit "j", lit "k", lit "d", lit "u"]

theorem selectionMove_of_letter {keys : SpecialKeys} {state : NavigationState} {relayCount : ℕ}
    {event : Event} (c : UInt8) (hlow : 32 ≤ c) (hhigh : c < 127) (hmove : [c] ∉ moveLetters)
    (h : event.input = [c]) : selectionMove keys state relayCount event = 0 := by
  have hspecial := keys.notPrintable c hlow hhigh
  simp only [List.mem_cons, List.not_mem_nil, or_false, not_or] at hspecial
  obtain ⟨-, -, -, hctrlD, hctrlU, hpageDown, hpageUp, -⟩ := hspecial
  simp only [moveLetters, List.mem_cons, List.not_mem_nil, or_false, not_or] at hmove
  obtain ⟨hg, hG, h0, hdollar, hj, hk, hd, hu⟩ := hmove
  unfold selectionMove
  rw [h, if_neg hg, if_neg hG, if_neg h0, if_neg hdollar, if_neg hj, if_neg hk,
    if_neg (not_or.mpr ⟨hctrlD, not_or.mpr ⟨hpageDown, hd⟩⟩),
    if_neg (not_or.mpr ⟨hctrlU, not_or.mpr ⟨hpageUp, hu⟩⟩)]

/-- The rows by which the selection moves when a key asks for this. -/
def NormalKey.move (state : NavigationState) (relayCount : ℕ) : NormalKey → ℤ
  | .pendingG => if state.pendingG then -relayCount else 0
  | .bottom => state.paneMove relayCount
  | .paneStart => state.paneMove (-relayCount)
  | .paneEnd => state.paneMove relayCount
  | .down => state.paneMove 1
  | .up => state.paneMove (-1)
  | .pageDown => state.paneMove 5
  | .pageUp => state.paneMove (-5)
  | _ => 0

/-- The letters of Normal mode that are no moves. -/
def otherLetters : List Str :=
  [lit "i", lit ":", lit "/", lit "h", lit "l", lit "f", lit "n", lit "N"]

theorem selectionMove_eq (keys : SpecialKeys) (state : NavigationState) (relayCount : ℕ) (event : Event) :
    selectionMove keys state relayCount event = (normalKey keys event).move state relayCount := by
  by_cases hletter : event.input ∈ otherLetters
  · simp only [otherLetters, List.mem_cons, List.not_mem_nil, or_false] at hletter
    rcases hletter with h | h | h | h | h | h | h | h
    · rw [selectionMove_of_letter 105 (by decide) (by decide) (by decide) h, normalKey, h]
      rfl
    · rw [selectionMove_of_letter 58 (by decide) (by decide) (by decide) h, normalKey, h]
      rfl
    · rw [selectionMove_of_letter 47 (by decide) (by decide) (by decide) h, normalKey, h]
      rfl
    · rw [selectionMove_of_letter 104 (by decide) (by decide) (by decide) h, normalKey, h]
      rfl
    · rw [selectionMove_of_letter 108 (by decide) (by decide) (by decide) h, normalKey, h]
      rfl
    · rw [selectionMove_of_letter 102 (by decide) (by decide) (by decide) h, normalKey, h]
      rfl
    · rw [selectionMove_of_letter 110 (by decide) (by decide) (by decide) h, normalKey, h]
      rfl
    · rw [selectionMove_of_letter 78 (by decide) (by decide) (by decide) h, normalKey, h]
      rfl
  · -- Without these letters the two chains make the same tests.
    simp only [otherLetters, List.mem_cons, List.not_mem_nil, or_false, not_or] at hletter
    obtain ⟨hi, hcolon, hslash, hh, hl, hf, hn, hN⟩ := hletter
    unfold selectionMove normalKey
    rw [if_neg hi, if_neg hcolon, if_neg hslash, if_neg hh, if_neg hl, if_neg hf,
      if_neg (not_or.mpr ⟨hn, hN⟩)]
    simp only [apply_ite (NormalKey.move state relayCount)]
    simp only [NormalKey.move, ite_self]

namespace App
variable {keys : SpecialKeys} {surroundings : Surroundings}

theorem onNormalKey_selection (app : App) (key : NormalKey) :
    SelectionStep surroundings.relays.length app.selectedRelay
      (app.onNormalKey surroundings key).app.selectedRelay
      (key.move app.toNavigationState surroundings.relays.length) := by
  cases key with
  | pendingG =>
    unfold onNormalKey NormalKey.move
    cases app.pendingG with
    | true => exact app.toNavigationState.jumpToTop_selection _
    | false => exact .stay _ _
  | bottom => exact app.cleared.jumpToBottom_selection _ _ _
  | paneStart => exact app.cleared.jumpToPaneStart_selection _
  | paneEnd => exact app.cleared.jumpToPaneEnd_selection _ _ _
  | down => exact app.cleared.moveSelectionDown_selection _
  | up => exact app.cleared.moveSelectionUp_selection _
  | pageDown => exact app.cleared.movePageDown_selection _ _
  | pageUp => exact app.cleared.movePageUp_selection _ _
  | nextMatch forward =>
    show SelectionStep _ _ (app.cleared.advanceLogMatch _ _).selectedRelay 0
    rw [app.cleared.advanceLogMatch_selectedRelay]
    exact .stay _ _
  | insert => exact .stay _ _
  | command => exact .stay _ _
  | search => exact .stay _ _
  | relays => exact .stay _ _
  | logs => exact .stay _ _
  | follow => exact .stay _ _
  | escape => exact .stay _ _
  | unbound => exact .stay _ _

theorem normalEvent_selection (app : App) (event : Event) :
    SelectionStep surroundings.relays.length app.selectedRelay
      (app.normalEvent keys surroundings event).app.selectedRelay
      (selectionMove keys app.toNavigationState surroundings.relays.length event) := by
  rw [normalEvent_eq, selectionMove_eq]
  exact app.onNormalKey_selection (normalKey keys event)

/-- Outside Normal mode no key moves the selection. -/
theorem catchEvent_selectedRelay {app : App} (hmode : app.mode ≠ .normal) (event : Event) :
    (app.catchEvent keys surroundings event).app.selectedRelay = app.selectedRelay := by
  cases hm : app.mode with
  | normal => exact absurd hm hmode
  | insert =>
    rw [catchEvent_insert hm]
    unfold insertEvent
    repeat' split
    all_goals rfl
  | search =>
    rw [catchEvent_search hm]
    unfold searchEvent
    repeat' split
    all_goals rfl
  | command =>
    rw [catchEvent_command hm]
    unfold commandEvent commandReturn
    repeat' split
    all_goals rfl

/-- The rows by which an event moves the selection. -/
def moveBy (keys : SpecialKeys) (app : App) (relayCount : ℕ) (event : Event) : ℤ :=
  if app.mode = .normal then selectionMove keys app.toNavigationState relayCount event else 0

theorem catchEvent_selection (app : App) (event : Event) :
    SelectionStep surroundings.relays.length app.selectedRelay
      (app.catchEvent keys surroundings event).app.selectedRelay
      (app.moveBy keys surroundings.relays.length event) := by
  unfold moveBy
  by_cases hmode : app.mode = .normal
  · rw [if_pos hmode, catchEvent_normal hmode]
    exact app.normalEvent_selection event
  · rw [if_neg hmode, catchEvent_selectedRelay hmode]
    exact .stay _ _

end App

/-! ## Runs with keys -/

namespace Display
variable (keys : SpecialKeys)

def SelectionInList (display : Display) : Prop :=
  InList display.relays.length display.app.selectedRelay

/-- A key moves the selection by its number of rows, in the integers, to a place in the list. -/
def MovesExactly (display : Display) (e : DisplayEvent) : Prop :=
  ∀ event surroundings, e = .key event surroundings →
    (display.app.catchEvent keys (display.seen surroundings) event).app.selectedRelay =
      moved display.relays.length display.app.selectedRelay
        (display.app.moveBy keys display.relays.length event)

variable {keys}

theorem step_inList {display display' : Display} {e : DisplayEvent} (hin : display.SelectionInList)
    (he : e.KeepsRelays) (h : display.step keys e = some display') : display'.SelectionInList := by
  cases e with
  | key event surroundings =>
    obtain rfl := Option.some.inj h
    exact (display.app.catchEvent_selection event).inList hin
  | update call =>
    have hhas := step_has he h
    obtain rfl := Option.some.inj h
    refine hin.mono ?_
    rw [← length_urls, ← length_urls]
    refine length_urls_le fun url hurl => ?_
    exact (mem_urls _ _).mpr ((hhas url).mpr (.inr ((mem_urls _ _).mp hurl)))
  | frame surroundings dimy =>
    obtain rfl := Option.some.inj h
    show InList display.relays.length (display.app.frame (display.seen surroundings) dimy).1.selectedRelay
    rw [App.frame_selectedRelay]
    show InList display.relays.length (if display.relays.length > 0 ∧ _ ≥ display.relays.length then
      display.relays.length - 1 else display.app.selectedRelay)
    unfold SelectionInList InList at hin
    unfold InList
    split <;> omega

theorem step_exact {display : Display} (hin : display.SelectionInList)
    (hcount : display.relays.length < 2 ^ 63) (e : DisplayEvent) : MovesExactly keys display e := by
  rintro event surroundings rfl
  exact (display.app.catchEvent_selection event).exact_ hin hcount

/-- **The selection stays in the list**, whatever keys are pressed while relays are added, and no sum or difference
wraps around: the keys move it as they would in the integers. -/
theorem selection_in_list (keys : SpecialKeys) (stats : RelayStats) {events : List DisplayEvent}
    (hevents : ∀ e ∈ events, e.KeepsRelays) :
    Throughout (step keys)
        (fun display => display.app.selectedRelay < max 1 display.relays.length)
        { app := {}, stats := stats } events ∧
      (Throughout (step keys) (fun display => display.relays.length < 2 ^ 63)
          { app := {}, stats := stats } events →
        Along (step keys) (MovesExactly keys) { app := {}, stats := stats } events) := by
  have hstart : SelectionInList { app := {}, stats := stats } := by
    show 0 < max 1 _
    omega
  have hkeeps : Along (step keys) (fun _ e => e.KeepsRelays) { app := {}, stats := stats } events :=
    along_of_forall fun e he _ => hevents e he
  refine ⟨throughout_keeps (fun _ _ _ hin he h => step_inList hin he h) (fun _ hin => hin) hstart hkeeps,
    fun hcount => ?_⟩
  refine along_keeps (I := SelectionInList) ?_ hstart (hkeeps.and hcount.along)
  exact fun _ e _ hin ⟨he, hless⟩ h => ⟨step_inList hin he h, step_exact hin hless e⟩

/-- `j` before and after a second relay, and `G`. -/
def keysAndRelays : List DisplayEvent :=
  addRelay (lit "wss://b.example") ++ [.key (.character (lit "j")) {}] ++
    addRelay (lit "wss://a.example") ++
    [.key (.character (lit "j")) {}, .key (.character (lit "G")) {}]

theorem selection_in_list_two :
    Throughout (step terminalKeys)
        (fun display => display.app.selectedRelay < max 1 display.relays.length)
        { app := {}, stats := .empty } keysAndRelays ∧
      (Throughout (step terminalKeys) (fun display => display.relays.length < 2 ^ 63)
          { app := {}, stats := .empty } keysAndRelays →
        Along (step terminalKeys) (MovesExactly terminalKeys) { app := {}, stats := .empty }
          keysAndRelays) :=
  selection_in_list terminalKeys .empty
    (by simp [keysAndRelays, addRelay, DisplayEvent.KeepsRelays])

end Display
end Monitostr.Ui
