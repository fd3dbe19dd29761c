import Monitostr.Ui.App

/-! # The relay table and the scroll bars, of `ui/ui_renderer.cpp`

Colours other than those of a scroll bar and the sparklines, which plot floating point numbers, are left out.
-/

namespace Monitostr.Ui
open Model
set_option autoImplicit false

/-! ## Arithmetic -/

/-- Subtraction of `std::size_t` wraps around, too. -/
def sizeSub (a b : ℕ) : ℕ := sizeT (a + 2 ^ 64 - b)

/-- Division of `std::size_t`; `none` where it is undefined. -/
def sizeDiv (a b : ℕ) : Option ℕ := if b = 0 then none else some (a / b)

theorem sizeT_of_lt {n : ℕ} (h : n < 2 ^ 64) : sizeT n = n := Nat.mod_eq_of_lt h

theorem sizeSub_of_le {a b : ℕ} (ha : a < 2 ^ 64) (h : b ≤ a) : sizeSub a b = a - b := by
  unfold sizeSub sizeT
  omega

theorem sizeDiv_of_pos {a b : ℕ} (h : 0 < b) : sizeDiv a b = some (a / b) :=
  if_neg (Nat.ne_of_gt h)

/-! ## Texts -/

def truncateWithEllipsis (value : Str) (maxLen : ℕ) : Str :=
  if value.length ≤ maxLen then value
  else if maxLen ≤ 3 then value.take maxLen
  else value.take (maxLen - 3) ++ lit "..."

/-! ## The viewport -/

structure RelayListViewport where
  start : ℕ := 0
  end_ : ℕ := 0
  meta_ : Str := []
  deriving DecidableEq

def computeRelayListViewport (totalRelays selectedRelay visibleRows : ℕ) : RelayListViewport :=
  if totalRelays = 0 then { meta_ := lit "0 discovered" }
  else
    let clampedVisible := if visibleRows = 0 then totalRelays else min visibleRows totalRelays
    let clampedSelected := min selectedRelay (sizeSub totalRelays 1)
    let preferredOffset := if clampedVisible > 2 then clampedVisible / 2 else 0
    let start :=
      if clampedSelected > preferredOffset then sizeSub clampedSelected preferredOffset else 0
    let start :=
      if sizeT (start + clampedVisible) > totalRelays then sizeSub totalRelays clampedVisible
      else start
    let end_ := sizeT (start + clampedVisible)
    { start := start
      end_ := end_
      meta_ := stdToString (sizeT (start + 1)) ++ lit "-" ++ stdToString end_ ++ lit " of " ++
        stdToString totalRelays }

/-- The positions of the loop of `RenderRelayTable`. -/
def RelayListViewport.indices (viewport : RelayListViewport) : List ℕ :=
  List.range' viewport.start (viewport.end_ - viewport.start)

theorem RelayListViewport.mem_indices {viewport : RelayListViewport} {idx : ℕ} :
    idx ∈ viewport.indices ↔ viewport.start ≤ idx ∧ idx < viewport.end_ := by
  unfold indices
  rw [List.mem_range'_1]
  omega

/-! ## Scroll bars -/

/-- The arguments of `RenderVerticalScrollBar`, but for the focus. -/
structure ScrollBarCall where
  totalItems : ℕ
  firstVisible : ℕ
  visibleItems : ℕ
  height : ℕ
  deriving DecidableEq

/-- The colours that `RenderVerticalScrollBar` takes from the palette. -/
inductive BarColor
  | borderFocus
  | border
  | accent
  | textMuted
  deriving DecidableEq

structure ScrollCell where
  glyph : Str
  color : BarColor
  deriving DecidableEq

def thumbCell (focused : Bool) : ScrollCell :=
  { glyph := lit "█", color := if focused then .accent else .textMuted }

def trackCell (focused : Bool) : ScrollCell :=
  { glyph := lit "│", color := if focused then .borderFocus else .border }

namespace ScrollBarCall

/-- `thumb_pos` and `thumb_size`. -/
def thumb (call : ScrollBarCall) : Option (ℕ × ℕ) :=
  if call.totalItems > 0 ∧ call.visibleItems > 0 ∧ call.totalItems > call.visibleItems then
    (sizeDiv (sizeT (call.height * call.visibleItems)) call.totalItems).bind fun share =>
      let thumbSize := max 1 share
      let trackSpace := if call.height > thumbSize then sizeSub call.height thumbSize else 0
      let scrollSpace := sizeSub call.totalItems call.visibleItems
      let thumbPos :=
        if scrollSpace > 0 then sizeDiv (sizeT (trackSpace * call.firstVisible)) scrollSpace
        else some 0
      thumbPos.map fun thumbPos => (thumbPos, thumbSize)
  else some (0, call.height)

/-- `RenderVerticalScrollBar`: the cells from top to bottom. -/
def render (call : ScrollBarCall) (focused : Bool) : Option (List ScrollCell) :=
  if call.height = 0 then some []
  else
    call.thumb.map fun (thumbPos, thumbSize) =>
      (List.range call.height).map fun i =>
        if i ≥ thumbPos ∧ i < sizeT (thumbPos + thumbSize) then thumbCell focused
        else trackCell focused

end ScrollBarCall

/-- The scroll bar of `RenderLogs`. -/
def RenderContext.scrollBarCall (context : RenderContext) : ScrollBarCall where
  totalItems := context.visibleLogs.length
  firstVisible := context.start
  visibleItems := context.logLines
  height := context.logLines

/-! ## The table -/

/-- The members of `RenderContext` that `RenderRelayTable` reads. -/
structure RelayTableContext where
  compact : Bool := false
  relayRows : ℕ := 0
  selectedRelay : ℕ := 0
  relayStats : List RelayStat := []

/-- The texts of one row of the table, and whether it is the selected one. -/
structure RelayRow where
  ordinal : Str
  relay : Str
  status : Str
  latency : Str
  events : Str
  nips : Str
  isSelected : Bool
  deriving DecidableEq

namespace RelayTableContext
variable (context : RelayTableContext)

def viewport : RelayListViewport :=
  computeRelayListViewport context.relayStats.length context.selectedRelay context.relayRows

/-- The number of a row, as far as it fits. -/
def ordinal (indexW idx : ℕ) : Str :=
  let ordinal := stdToString (sizeT (idx + 1))
  if ordinal.length > indexW then ordinal.take (indexW - 1) ++ lit "+" else ordinal

/-- The body of the loop of `RenderRelayTable`. -/
def relayRow (idx : ℕ) (stat : RelayStat) : RelayRow :=
  let indexW := if context.compact then 4 else 5
  let relayW := if context.compact then 21 else 31
  let nipsW := if context.compact then 12 else 16
  { ordinal := ordinal indexW idx
    relay := truncateWithEllipsis stat.relayUrl (relayW - 1)
    status := stat.status.toText
    latency :=
      match stat.latencyMs with
      | none => lit "-"
      | some latency => stdToStringInt latency ++ lit " ms"
    events := stdToString stat.eventsCount.toNat
    nips := truncateWithEllipsis (formatNips stat.supportedNips) (nipsW - 1)
    isSelected := idx = context.selectedRelay }

/-- The rows of the table. An index that is out of range, which would be undefined, gives no row here. -/
def rows : List RelayRow :=
  context.viewport.indices.filterMap fun idx =>
    context.relayStats[idx]?.map (context.relayRow idx)

def shownRows : ℕ :=
  if context.viewport.end_ > context.viewport.start then
    sizeSub context.viewport.end_ context.viewport.start
  else 0

def relayPanelHeight : ℕ := sizeT (4 + sizeT (context.shownRows * 2))

/-- The scroll bar of `RenderRelayTable`. -/
def scrollBarCall : ScrollBarCall where
  totalItems := context.relayStats.length
  firstVisible := context.viewport.start
  visibleItems := context.relayRows
  height := context.relayPanelHeight

end RelayTableContext

/-! ## The table in a frame -/

/-- `compact` for the width of the terminal. -/
def isCompact (dimx : ℤ) : CompactMode → Bool
  | .auto => dimx < 140
  | .forceCompact => true
  | .forceWide => false

/-- `relay_rows` for the height of the terminal. -/
def relayRows (dimy : ℤ) (compact : Bool) : ℕ := (max 8 (min 16 (dimy - if compact then 16 else 18))).toNat

/-- The context that the render function gives to `RenderRelayTable`. -/
def App.relayTableContext (app : App) (surroundings : Surroundings) (dimx dimy : ℤ) :
    RelayTableContext where
  compact := isCompact dimx app.compactMode
  relayRows := relayRows dimy (isCompact dimx app.compactMode)
  selectedRelay := (app.frame surroundings dimy).1.selectedRelay
  relayStats := surroundings.relays

/-- A frame moves a selection that is behind the last relay to it. -/
theorem App.frame_selectedRelay (app : App) (surroundings : Surroundings) (dimy : ℤ) :
    (app.frame surroundings dimy).1.selectedRelay =
      if surroundings.relays.length > 0 ∧ app.selectedRelay ≥ surroundings.relays.length then
        surroundings.relays.length - 1
      else app.selectedRelay := by
  unfold App.frame App.applyNavigationState NavigationState.render
  by_cases hbehind : surroundings.relays.length > 0 ∧ app.selectedRelay ≥ surroundings.relays.length
  all_goals cases hfollow : app.logsFollow <;> simp [hbehind, hfollow]

end Monitostr.Ui
