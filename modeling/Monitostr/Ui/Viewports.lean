import Monitostr.Foundations.ListWindow
import Monitostr.Ui.LogScrolling
import Monitostr.Ui.RelayTable

/-! # What the relay table and the scroll bars show

`ComputeRelayListViewport` puts a window around the selected relay, in arithmetic that wraps around only for
lists that no memory holds. `RenderVerticalScrollBar` draws the thumb of the window that it is called for.
-/

namespace Monitostr.Ui
open Foundations Model
set_option autoImplicit false

/-! ## The viewport -/

/-- The rows of the table for a list of relays that is not empty: all of them when there is no limit. -/
def visibleCount (total rows : ℕ) : ℕ := if rows = 0 then total else min rows total

/-- The rows above the selected one, when there are as many. -/
def rowsAbove (visible : ℕ) : ℕ := if visible > 2 then visible / 2 else 0

/-- The first row, before it is checked against the end of the list. -/
def firstRow (total selected rows : ℕ) : ℕ :=
  min selected (total - 1) - rowsAbove (visibleCount total rows)

/-- The sum that is checked against the end of the list does not wrap around. -/
def SumFits (total selected rows : ℕ) : Prop :=
  firstRow total selected rows + visibleCount total rows < 2 ^ 64

instance (total selected rows : ℕ) : Decidable (SumFits total selected rows) := Nat.decLt _ _

section Viewport
variable {total selected rows : ℕ}

theorem visibleCount_le (total rows : ℕ) : visibleCount total rows ≤ total := by
  unfold visibleCount
  split <;> omega

theorem visibleCount_pos (rows : ℕ) (htotal : 0 < total) : 0 < visibleCount total rows := by
  unfold visibleCount
  split <;> omega

theorem rowsAbove_lt {visible : ℕ} (h : 0 < visible) : rowsAbove visible < visible := by
  unfold rowsAbove
  split <;> omega

theorem sumFits_of_le (h : total ≤ 2 ^ 63) : SumFits total selected rows := by
  have hvisible := visibleCount_le total rows
  unfold SumFits firstRow
  omega

/-- The two assignments to `start`, with the subtractions in natural numbers. -/
theorem computeRelayListViewport_bounds (selected rows : ℕ) (htotal : 0 < total)
    (hrange : total < 2 ^ 64) :
    ∃ start, (computeRelayListViewport total selected rows).start = start ∧
      (computeRelayListViewport total selected rows).end_ = sizeT (start + visibleCount total rows) ∧
      start =
        if sizeT (firstRow total selected rows + visibleCount total rows) > total then
          total - visibleCount total rows
        else firstRow total selected rows := by
  have hvisible := visibleCount_le total rows
  have hselected : min selected (sizeSub total 1) = min selected (total - 1) := by
    rw [sizeSub_of_le hrange htotal]
  have hfirst :
      (if min selected (total - 1) > rowsAbove (visibleCount total rows) then
        sizeSub (min selected (total - 1)) (rowsAbove (visibleCount total rows)) else 0) =
        firstRow total selected rows := by
    unfold firstRow
    split
    · rw [sizeSub_of_le (by omega) (by omega)]
    · omega
  unfold computeRelayListViewport
  rw [if_neg (by omega)]
  refine ⟨_, rfl, rfl, ?_⟩
  show (if sizeT ((if min selected (sizeSub total 1) > rowsAbove (visibleCount total rows) then
      sizeSub (min selected (sizeSub total 1)) (rowsAbove (visibleCount total rows)) else 0) +
      visibleCount total rows) > total then _ else _) = _
  rw [hselected, hfirst]
  split
  · exact sizeSub_of_le hrange hvisible
  · exact hfirst

/-- The window that the viewport is meant to be. -/
def tableWindow (total selected rows : ℕ) : ListWindow total :=
  ListWindow.around total (visibleCount total rows) (rowsAbove (visibleCount total rows)) selected

theorem tableWindow_size (total selected rows : ℕ) :
    (tableWindow total selected rows).size = visibleCount total rows :=
  Nat.min_eq_left (visibleCount_le total rows)

/-- Without wrapping around, the viewport is that window. -/
theorem viewport_eq_window (htotal : 0 < total) (hrange : total < 2 ^ 64)
    (hfits : SumFits total selected rows) :
    (computeRelayListViewport total selected rows).start = (tableWindow total selected rows).start ∧
      (computeRelayListViewport total selected rows).end_ =
        (tableWindow total selected rows).start + (tableWindow total selected rows).size := by
  obtain ⟨start, hstart, hend, heq⟩ := computeRelayListViewport_bounds selected rows htotal hrange
  have hwindow := (tableWindow total selected rows).fits
  rw [tableWindow_size] at hwindow ⊢
  rw [sizeT_of_lt hfits] at heq
  have hsame : start = (tableWindow total selected rows).start := by
    show start = min (firstRow total selected rows) (total - visibleCount total rows)
    have hvisible := visibleCount_le total rows
    split at heq <;> omega
  rw [hstart, hend, hsame, sizeT_of_lt (by omega)]
  exact ⟨rfl, rfl⟩

/-- A sum that wraps around passes the check, and the viewport ends above its start. -/
theorem viewport_of_wrap (htotal : 0 < total) (hrange : total < 2 ^ 64)
    (hwrap : ¬ SumFits total selected rows) :
    (computeRelayListViewport total selected rows).end_ <
      (computeRelayListViewport total selected rows).start := by
  obtain ⟨start, hstart, hend, heq⟩ := computeRelayListViewport_bounds selected rows htotal hrange
  have hvisible := visibleCount_le total rows
  have hfirst : firstRow total selected rows < total := by
    unfold firstRow
    omega
  have hsum : sizeT (firstRow total selected rows + visibleCount total rows) =
      firstRow total selected rows + visibleCount total rows - 2 ^ 64 := by
    unfold SumFits at hwrap
    unfold sizeT
    omega
  unfold SumFits at hwrap
  rw [hsum, if_neg (by omega)] at heq
  rw [hstart, hend, heq, hsum]
  omega

/-- What a viewport is for: it has as many rows as there is room for, all of them in the list, and the
selected relay is one of them. The subtractions do not wrap around: `start` is that of the integers. -/
structure ShowsSelected (total selected rows : ℕ) (viewport : RelayListViewport) : Prop where
  nonempty : viewport.start < viewport.end_
  inRange : viewport.end_ ≤ total
  size : viewport.end_ - viewport.start = if rows = 0 then total else min rows total
  hasSelected : viewport.start ≤ min selected (total - 1) ∧ min selected (total - 1) < viewport.end_
  computed : (viewport.start : ℤ) =
    max 0 (min (min (selected : ℤ) (total - 1) - rowsAbove (visibleCount total rows))
      (total - visibleCount total rows))
  drawn : (∀ idx ∈ viewport.indices, idx < total) ∧ min selected (total - 1) ∈ viewport.indices

theorem showsSelected_of_sumFits (htotal : 0 < total) (hrange : total < 2 ^ 64)
    (hfits : SumFits total selected rows) :
    ShowsSelected total selected rows (computeRelayListViewport total selected rows) := by
  obtain ⟨hstart, hend⟩ := viewport_eq_window htotal hrange hfits
  have hpos := visibleCount_pos rows htotal
  have hvisible := visibleCount_le total rows
  have hwindow := (tableWindow total selected rows).fits
  have hsize := tableWindow_size total selected rows
  have hshows : (tableWindow total selected rows).Shows (min selected (total - 1)) :=
    ListWindow.around_shows htotal hpos (rowsAbove_lt hpos)
  have hselected : (computeRelayListViewport total selected rows).start ≤ min selected (total - 1) ∧
      min selected (total - 1) < (computeRelayListViewport total selected rows).end_ := by
    rw [hstart, hend]
    exact hshows
  refine ⟨by omega, by omega, ?_, hselected, ?_, fun idx hidx => ?_,
    RelayListViewport.mem_indices.mpr hselected⟩
  · show _ = visibleCount total rows
    omega
  · rw [hstart]
    show ((min (min selected (total - 1) - rowsAbove (visibleCount total rows))
      (total - visibleCount total rows) : ℕ) : ℤ) = _
    omega
  · have hidx' := (RelayListViewport.mem_indices.mp hidx).2
    omega

/-- **The viewport of the relay table**: it shows the selected relay exactly when the sum that it checks does
not wrap around, so for every list of up to `2 ^ 63` relays. -/
theorem viewport_showsSelected_iff (htotal : 0 < total) (hrange : total < 2 ^ 64) :
    (ShowsSelected total selected rows (computeRelayListViewport total selected rows) ↔
        firstRow total selected rows + visibleCount total rows < 2 ^ 64) ∧
      (total ≤ 2 ^ 63 →
        ShowsSelected total selected rows (computeRelayListViewport total selected rows)) := by
  refine ⟨⟨fun hshows => ?_, showsSelected_of_sumFits htotal hrange⟩,
    fun hle => showsSelected_of_sumFits htotal hrange (sumFits_of_le hle)⟩
  by_contra hwrap
  have hends := viewport_of_wrap htotal hrange hwrap
  have hnonempty := hshows.nonempty
  omega

end Viewport

/-- The list of the clamped test: five relays, a selection behind the end, three rows. -/
theorem viewport_showsSelected_five :
    (ShowsSelected 5 100 3 (computeRelayListViewport 5 100 3) ↔
        firstRow 5 100 3 + visibleCount 5 3 < 2 ^ 64) ∧
      (5 ≤ 2 ^ 63 → ShowsSelected 5 100 3 (computeRelayListViewport 5 100 3)) :=
  viewport_showsSelected_iff (by decide) (by decide)

/-- With the largest count, the last relay selected and no limit, the viewport ends above its start. -/
theorem not_showsSelected_largest :
    ¬ ShowsSelected (2 ^ 64 - 1) (2 ^ 64 - 2) 0
      (computeRelayListViewport (2 ^ 64 - 1) (2 ^ 64 - 2) 0) := by
  intro hshows
  have hends := @viewport_of_wrap (2 ^ 64 - 1) (2 ^ 64 - 2) 0 (by decide) (by decide) (by decide)
  exact Nat.lt_asymm hends hshows.nonempty

/-- The row of the selected relay is drawn in every frame. -/
theorem App.selected_row_drawn (app : App) {surroundings : Surroundings} (dimx dimy : ℤ)
    (hrelays : surroundings.relays ≠ []) (hle : surroundings.relays.length ≤ 2 ^ 63) :
    ∃ row ∈ (app.relayTableContext surroundings dimx dimy).rows, row.isSelected = true := by
  have htotal : 0 < surroundings.relays.length := List.length_pos_iff.mpr hrelays
  have hselected : (app.frame surroundings dimy).1.selectedRelay < surroundings.relays.length := by
    rw [app.frame_selectedRelay]
    split <;> omega
  have hshows := (@viewport_showsSelected_iff _ (app.frame surroundings dimy).1.selectedRelay
    (relayRows dimy (isCompact dimx app.compactMode)) htotal (by omega)).2 hle
  have hdrawn := hshows.drawn.2
  rw [Nat.min_eq_left (by omega)] at hdrawn
  refine ⟨(app.relayTableContext surroundings dimx dimy).relayRow
    (app.frame surroundings dimy).1.selectedRelay (surroundings.relays.get ⟨_, hselected⟩),
    List.mem_filterMap.mpr ⟨_, hdrawn, ?_⟩, ?_⟩
  · show Option.map _ surroundings.relays[(app.frame surroundings dimy).1.selectedRelay]? = _
    rw [List.getElem?_eq_getElem hselected]
    rfl
  · show decide (_ = (app.frame surroundings dimy).1.selectedRelay) = true
    exact decide_eq_true rfl

/-! ## Thumbs -/

/-- The calls of `RenderVerticalScrollBar`, with what it means that the window shows the last item. -/
inductive IsDrawn : ScrollBarCall → Prop → Prop
  | relayTable (context : RelayTableContext) :
    IsDrawn context.scrollBarCall (context.viewport.end_ = context.relayStats.length)
  | logs (context : RenderContext) : IsDrawn context.scrollBarCall (ShowsLast context)

/-- The heights and lists for which the products of the thumb fit into `std::size_t`. -/
structure ProductsFit (call : ScrollBarCall) : Prop where
  height : 0 < call.height
  range : call.height < 2 ^ 64
  product : call.height * call.totalItems < 2 ^ 64

/-- The window that a scroll bar is drawn for. -/
structure Frames (call : ScrollBarCall) (window : ListWindow call.totalItems) : Prop where
  start : window.start = call.firstVisible
  size : window.size = visibleCount call.totalItems call.visibleItems

section Thumb
variable {call : ScrollBarCall}

theorem ProductsFit.total_lt (h : ProductsFit call) : call.totalItems < 2 ^ 64 := by
  have hle : 1 * call.totalItems ≤ call.height * call.totalItems :=
    Nat.mul_le_mul_right _ h.height
  have hproduct := h.product
  omega

/-- A thumb is computed without a division by zero, and nothing wraps around: it is that of the window. -/
theorem thumb_of_frames {window : ListWindow call.totalItems} (hfit : ProductsFit call)
    (hframes : Frames call window) :
    call.thumb = some ((window.thumb hfit.height).pos, (window.thumb hfit.height).size) := by
  have hsize := hframes.size
  have hrange := hfit.range
  have htotal := hfit.total_lt
  unfold ScrollBarCall.thumb ListWindow.thumb
  by_cases hover : call.totalItems > 0 ∧ call.visibleItems > 0 ∧ call.totalItems > call.visibleItems
  · obtain ⟨hpos, hvisible, hless⟩ := hover
    have hcount : window.size = call.visibleItems := by
      unfold visibleCount at hsize
      rw [hsize, if_neg (by omega)]
      omega
    have hwindow := window.fits
    rw [if_pos ⟨hpos, hvisible, hless⟩, dif_pos ⟨by omega, by omega⟩]
    show _ = some (thumbPos call.height call.totalItems window.size window.start,
      thumbSize call.height call.totalItems window.size)
    rw [hcount, hframes.start] at hwindow ⊢
    have hshare : call.height * call.visibleItems < 2 ^ 64 :=
      Nat.lt_of_le_of_lt (Nat.mul_le_mul_left _ (Nat.le_of_lt hless)) hfit.product
    have hle := thumbSize_le hfit.height hless
    have htrack : (if call.height > thumbSize call.height call.totalItems call.visibleItems then
        sizeSub call.height (thumbSize call.height call.totalItems call.visibleItems) else 0) =
        call.height - thumbSize call.height call.totalItems call.visibleItems := by
      split
      · exact sizeSub_of_le hrange hle
      · omega
    have hoffset : (call.height - thumbSize call.height call.totalItems call.visibleItems) *
        call.firstVisible < 2 ^ 64 :=
      Nat.lt_of_le_of_lt (Nat.mul_le_mul (Nat.sub_le _ _) (by omega)) hfit.product
    rw [sizeT_of_lt hshare, sizeDiv_of_pos hpos, Option.bind_some]
    unfold thumbSize at htrack hoffset
    dsimp only
    rw [htrack, sizeT_of_lt hoffset, sizeSub_of_le htotal (Nat.le_of_lt hless), if_pos (by omega),
      sizeDiv_of_pos (by omega)]
    rfl
  · have hwhole : ¬ (0 < window.size ∧ window.size < call.totalItems) := by
      unfold visibleCount at hsize
      split at hsize <;> omega
    rw [if_neg hover, dif_neg hwhole]
    rfl

/-- The cells of a track with a thumb. -/
def barCells (height pos size : ℕ) (focused : Bool) : List ScrollCell :=
  List.replicate pos (trackCell focused) ++ List.replicate size (thumbCell focused) ++
    List.replicate (height - (pos + size)) (trackCell focused)

theorem render_of_thumb {pos size : ℕ} (hfit : ProductsFit call) (hthumb : call.thumb = some (pos, size))
    (hinside : pos + size ≤ call.height) (focused : Bool) :
    call.render focused = some (barCells call.height pos size focused) := by
  have hrange := hfit.range
  unfold ScrollBarCall.render barCells
  rw [if_neg (Nat.ne_of_gt hfit.height), hthumb]
  show some ((List.range call.height).map fun i =>
    if i ≥ pos ∧ i < sizeT (pos + size) then thumbCell focused else trackCell focused) = _
  rw [sizeT_of_lt (by omega)]
  congr 1
  refine List.ext_getElem (by simp; omega) fun i hi hi' => ?_
  simp only [List.getElem_map, List.getElem_range, List.getElem_append, List.length_append,
    List.length_replicate, List.getElem_replicate]
  by_cases hbelow : i < pos + size
  · by_cases habove : i < pos
    · rw [if_neg (by omega), dif_pos hbelow, dif_pos habove]
    · rw [if_pos (by omega), dif_pos hbelow, dif_neg habove]
  · rw [if_neg (by omega), dif_neg hbelow]

theorem relayPanelHeight_even (context : RelayTableContext) : 2 ∣ context.relayPanelHeight := by
  unfold RelayTableContext.relayPanelHeight sizeT
  omega

/-- The height of the bar is even, so the product bounds the number of relays by half the range. -/
theorem relays_le_of_productsFit {context : RelayTableContext}
    (hfit : ProductsFit context.scrollBarCall) : context.relayStats.length ≤ 2 ^ 63 := by
  have hheight : 2 ≤ context.relayPanelHeight :=
    Nat.le_of_dvd hfit.height (relayPanelHeight_even context)
  have hle : 2 * context.relayStats.length ≤ context.relayPanelHeight * context.relayStats.length :=
    Nat.mul_le_mul_right _ hheight
  have hproduct : context.relayPanelHeight * context.relayStats.length < 2 ^ 64 := hfit.product
  omega

theorem frames_relayTable {context : RelayTableContext} (hfit : ProductsFit context.scrollBarCall) :
    ∃ window, Frames context.scrollBarCall window ∧
      (context.viewport.end_ = context.relayStats.length →
        window.start + window.size = context.relayStats.length) := by
  refine ⟨tableWindow context.relayStats.length context.selectedRelay context.relayRows,
    ⟨?_, tableWindow_size _ _ _⟩, fun hlast => ?_⟩
  all_goals
    have hfits := (tableWindow context.relayStats.length context.selectedRelay context.relayRows).fits
    have hle := relays_le_of_productsFit hfit
    by_cases htotal : 0 < context.relayStats.length
  · exact (viewport_eq_window htotal (by omega) (sumFits_of_le hle)).1.symm
  · show _ = context.viewport.start
    unfold RelayTableContext.viewport computeRelayListViewport
    rw [if_pos (by omega)]
    show _ = 0
    omega
  · rw [← (viewport_eq_window htotal (by omega) (sumFits_of_le hle)).2]
    exact hlast
  · omega

theorem frames_logs {context : RenderContext} (hfit : ProductsFit context.scrollBarCall) :
    ∃ window, Frames context.scrollBarCall window ∧
      (ShowsLast context → window.start + window.size = context.visibleLogs.length) := by
  have hlines : 0 < context.logLines := hfit.height
  have hstart := start_eq context
  refine ⟨ListWindow.scrolled context.visibleLogs.length context.logLines context.logsScrollLines,
    ⟨?_, ?_⟩, fun hlast => ?_⟩
  · show min _ _ = context.start
    omega
  · show min _ _ = if context.logLines = 0 then _ else _
    rw [if_neg (by omega)]
    rfl
  · rw [showsLast_iff hlines] at hlast
    show min _ _ + min _ _ = _
    omega

theorem frames_of_isDrawn {showsLast : Prop} (h : IsDrawn call showsLast) (hfit : ProductsFit call) :
    ∃ window, Frames call window ∧ (showsLast → window.start + window.size = call.totalItems) := by
  cases h with
  | relayTable context => exact frames_relayTable hfit
  | logs context => exact frames_logs hfit

/-- What a scroll bar shows: the cells of its thumb stand in a row on the track, with no division by zero on
the way, and reach the bottom when the window shows the last item. -/
structure DrawsThumb (call : ScrollBarCall) (showsLast : Prop) (pos size : ℕ) : Prop where
  computed : call.thumb = some (pos, size)
  nonempty : 0 < size
  inside : pos + size ≤ call.height
  cells : ∀ focused, call.render focused = some (barCells call.height pos size focused)
  bottom : showsLast → pos + size = call.height

theorem drawsThumb_of_isDrawn {showsLast : Prop} (h : IsDrawn call showsLast)
    (hfit : ProductsFit call) : ∃ pos size, DrawsThumb call showsLast pos size := by
  obtain ⟨window, hframes, hlast⟩ := frames_of_isDrawn h hfit
  have hthumb := thumb_of_frames hfit hframes
  exact ⟨_, _,
    { computed := hthumb
      nonempty := (window.thumb hfit.height).nonempty
      inside := (window.thumb hfit.height).fits
      cells := render_of_thumb hfit hthumb (window.thumb hfit.height).fits
      bottom := fun h => ListWindow.thumb_bottom (hlast h) }⟩

/-- The later the window starts, the lower the thumb. -/
theorem thumb_pos_mono {call' : ScrollBarCall} {showsLast showsLast' : Prop} (h : IsDrawn call showsLast)
    (h' : IsDrawn call' showsLast') (hfit : ProductsFit call)
    (htotal : call.totalItems = call'.totalItems) (hvisible : call.visibleItems = call'.visibleItems)
    (hheight : call.height = call'.height) (hfirst : call.firstVisible ≤ call'.firstVisible)
    {pos size pos' size' : ℕ} (hthumb : call.thumb = some (pos, size))
    (hthumb' : call'.thumb = some (pos', size')) : pos ≤ pos' := by
  have hfit' : ProductsFit call' := by
    obtain ⟨hpos, hrange, hproduct⟩ := hfit
    rw [hheight] at hpos hrange hproduct
    rw [htotal] at hproduct
    exact ⟨hpos, hrange, hproduct⟩
  obtain ⟨window, hframes, -⟩ := frames_of_isDrawn h hfit
  obtain ⟨window', hframes', -⟩ := frames_of_isDrawn h' hfit'
  have hcomputed := thumb_of_frames hfit hframes
  have hcomputed' := thumb_of_frames hfit' hframes'
  rw [hthumb] at hcomputed
  rw [hthumb'] at hcomputed'
  obtain ⟨rfl, -⟩ := Prod.mk.inj (Option.some.inj hcomputed)
  obtain ⟨rfl, -⟩ := Prod.mk.inj (Option.some.inj hcomputed')
  clear hthumb hthumb' hcomputed hcomputed'
  have hstart : window.start ≤ window'.start := by
    rw [hframes.start, hframes'.start]
    exact hfirst
  have hsize : window.size = window'.size := by
    rw [hframes.size, hframes'.size, htotal, hvisible]
  obtain ⟨total, first, visible, height⟩ := call
  obtain ⟨total', first', visible', height'⟩ := call'
  obtain rfl : total = total' := htotal
  obtain rfl : height = height' := hheight
  exact ListWindow.thumb_mono hsize hstart

/-- **The scroll bars** of the relay table and the log pane show a thumb that is inside the track, moves with
the window and touches the bottom when the last item is shown. -/
theorem scrollBars_drawn :
    (∀ call showsLast, IsDrawn call showsLast → ProductsFit call →
      ∃ pos size, DrawsThumb call showsLast pos size) ∧
    (∀ call call' showsLast showsLast', IsDrawn call showsLast → IsDrawn call' showsLast' →
      ProductsFit call → call.totalItems = call'.totalItems → call.visibleItems = call'.visibleItems →
      call.height = call'.height → call.firstVisible ≤ call'.firstVisible →
      ∀ pos size pos' size', call.thumb = some (pos, size) → call'.thumb = some (pos', size') →
        pos ≤ pos') :=
  ⟨fun _ _ h hfit => drawsThumb_of_isDrawn h hfit,
    fun _ _ _ _ h h' hfit htotal hvisible hheight hfirst _ _ _ _ hthumb hthumb' =>
      thumb_pos_mono h h' hfit htotal hvisible hheight hfirst hthumb hthumb'⟩

end Thumb

/-- Twenty relays in a table of eight rows, with the last one selected. -/
def crowdedTable : RelayTableContext :=
  { relayRows := 8, selectedRelay := 19, relayStats := List.replicate 20 {} }

theorem scrollBars_drawn_crowded : ∃ pos size,
    DrawsThumb crowdedTable.scrollBarCall
      (crowdedTable.viewport.end_ = crowdedTable.relayStats.length) pos size :=
  scrollBars_drawn.1 _ _ (.relayTable crowdedTable) ⟨by decide, by decide, by decide⟩

end Monitostr.Ui
