import Monitostr.Foundations.Runs
import Monitostr.Ui.App
import Monitostr.Ui.LogSearch

/-! # Jumping and scrolling in the log pane

A frame draws the window that the stored scroll position selects, moved back to the last full window when the
position is behind it. The handler does not know the height of the pane or the filter: it jumps to a position
that leaves eight of all entries, it does not stop at the last window, and only some of the keys leave follow
mode, in which a frame always draws the last window.
-/

namespace Monitostr.Ui
open Foundations Model
set_option autoImplicit false

/-! ## Frames -/

theorem followScroll_eq (entries lines : ℕ) : followScroll entries lines = entries - lines := by
  rw [followScroll]
  split <;> omega

/-- What a frame is drawn from. -/
theorem render_context (state : NavigationState) (dimy : ℤ) (relayCount : ℕ) (logs : List LogEntry) :
    (state.render dimy relayCount logs).2 =
      { logLines := logLines dimy
        logsScrollLines :=
          if state.logsFollow then (visibleLogs logs state.logsSearchQuery).length - logLines dimy
          else state.logsScrollLines
        visibleLogs := visibleLogs logs state.logsSearchQuery } := by
  cases hfollow : state.logsFollow with
  | false => exact render_of_not_follow hfollow
  | true =>
    rw [NavigationState.render]
    simp only [hfollow, if_true, followScroll_eq]
    split <;> rfl

/-- What a frame changes of the state that it is drawn from. -/
theorem render_state (state : NavigationState) (dimy : ℤ) (relayCount : ℕ) (logs : List LogEntry) :
    (state.render dimy relayCount logs).1.logsScrollLines =
        (state.render dimy relayCount logs).2.logsScrollLines ∧
      (state.render dimy relayCount logs).1.logsSearchQuery = state.logsSearchQuery ∧
      (state.render dimy relayCount logs).1.logsFollow = state.logsFollow ∧
      (state.render dimy relayCount logs).1.activePane = state.activePane ∧
      (state.render dimy relayCount logs).1.pendingG = state.pendingG := by
  rw [NavigationState.render]
  dsimp only
  refine ⟨rfl, ?_⟩
  repeat' split
  all_goals exact ⟨rfl, rfl, rfl, rfl⟩

/-- The first of the entries that are kept is drawn, if there are any. -/
def ShowsFirst (context : RenderContext) : Prop := context.visibleLogs ≠ [] → 0 ∈ context.rows

/-- The last of the entries that are kept is drawn, if there are any. -/
def ShowsLast (context : RenderContext) : Prop :=
  context.visibleLogs ≠ [] → context.visibleLogs.length - 1 ∈ context.rows

instance (context : RenderContext) : Decidable (ShowsFirst context) :=
  inferInstanceAs (Decidable (context.visibleLogs ≠ [] → 0 ∈ context.rows))

theorem showsFirst_iff {context : RenderContext} (h : 0 < context.logLines) :
    ShowsFirst context ↔ context.start = 0 := by
  rw [ShowsFirst, mem_rows, start_eq, ← List.length_pos_iff]
  omega

theorem showsLast_iff {context : RenderContext} (h : 0 < context.logLines) :
    ShowsLast context ↔
      context.visibleLogs.length - context.logLines ≤ context.logsScrollLines := by
  rw [ShowsLast, mem_rows, start_eq, ← List.length_pos_iff]
  omega

/-! ## Keys in the log pane -/

namespace App
section Keys
variable {keys : SpecialKeys} {surroundings : Surroundings} {app : App}

/-- The app after a key. -/
def press (keys : SpecialKeys) (surroundings : Surroundings) (text : Str) (app : App) : App :=
  (app.catchEvent keys surroundings (.character text)).app

variable (hnormal : app.mode = .normal)
include hnormal

theorem press_g :
    press keys surroundings (lit "g") app = app.applyNavigationState
      (if app.pendingG then app.toNavigationState.jumpToTop
      else { app.toNavigationState with pendingG := true }) := by
  rw [press, catchEvent, hnormal]
  rfl

theorem press_G :
    press keys surroundings (lit "G") app = app.applyNavigationState
      ({ app.toNavigationState with pendingG := false }.jumpToBottom surroundings.relays.length
        (logs surroundings).length kLogPageLines) := by
  rw [press, catchEvent, hnormal]
  rfl

theorem press_zero :
    press keys surroundings (lit "0") app = app.applyNavigationState
      { app.toNavigationState with pendingG := false }.jumpToPaneStart := by
  rw [press, catchEvent, hnormal]
  rfl

theorem press_dollar :
    press keys surroundings (lit "$") app = app.applyNavigationState
      ({ app.toNavigationState with pendingG := false }.jumpToPaneEnd surroundings.relays.length
        (logs surroundings).length kLogPageLines) := by
  rw [press, catchEvent, hnormal]
  rfl

end Keys

theorem catchEvent_k {keys : SpecialKeys} {surroundings : Surroundings} {app : App} {event : Event}
    (hnormal : app.mode = .normal) (h : event.input = lit "k") :
    (app.catchEvent keys surroundings event).app =
      app.applyNavigationState { app.toNavigationState with pendingG := false }.moveSelectionUp := by
  rw [catchEvent, hnormal]
  dsimp only
  rw [normalEvent, h]
  rfl

/-! ## Jumps -/

section Jumps
variable (keys : SpecialKeys) (surroundings : Surroundings) (dimy : ℤ) (app : App)

/-- The context of the next frame. -/
def drawn (app : App) : RenderContext := (app.frame surroundings dimy).2

/-- The app after `g` and `g`, with or without a frame between them. -/
def pressGg (redraw : Bool) (app : App) : App :=
  let first := press keys surroundings (lit "g") app
  press keys surroundings (lit "g") (if redraw then (first.frame surroundings dimy).1 else first)

/-- How many entries the filter of the app keeps. -/
def keptCount (app : App) : ℕ := (visibleLogs (logs surroundings) app.logsSearchQuery).length

variable {keys surroundings dimy app}

theorem drawn_eq (app : App) :
    drawn surroundings dimy app =
      { logLines := logLines dimy
        logsScrollLines :=
          if app.logsFollow then keptCount surroundings app - logLines dimy else app.logsScrollLines
        visibleLogs := visibleLogs (logs surroundings) app.logsSearchQuery } :=
  render_context app.toNavigationState dimy surroundings.relays.length (logs surroundings)

theorem drawn_showsFirst_iff (app : App) :
    ShowsFirst (drawn surroundings dimy app) ↔
      keptCount surroundings app ≤ logLines dimy ∨
        app.logsFollow = false ∧ app.logsScrollLines = 0 := by
  have hlines := logLines_bounds dimy
  rw [drawn_eq, showsFirst_iff (by dsimp only; omega), start_eq]
  dsimp only
  rw [← keptCount]
  cases app.logsFollow with
  | true => simp; omega
  | false => simp; omega

theorem drawn_showsLast_iff (app : App) :
    ShowsLast (drawn surroundings dimy app) ↔
      app.logsFollow = true ∨
        keptCount surroundings app - logLines dimy ≤ app.logsScrollLines := by
  have hlines := logLines_bounds dimy
  rw [drawn_eq, showsLast_iff (by dsimp only; omega)]
  dsimp only
  rw [← keptCount]
  cases app.logsFollow with
  | true => simp
  | false => simp

/-- What a `g` makes of the state of the log pane. -/
structure AfterG (app result : App) : Prop where
  mode : result.mode = app.mode
  query : result.logsSearchQuery = app.logsSearchQuery
  follow : result.logsFollow = app.logsFollow
  pendingG : result.pendingG = !app.pendingG
  scroll : result.logsScrollLines = if app.pendingG then 0 else app.logsScrollLines

theorem press_g_spec (hnormal : app.mode = .normal) :
    AfterG app (press keys surroundings (lit "g") app) := by
  rw [press_g hnormal]
  cases hpending : app.pendingG with
  | true =>
    rw [if_pos rfl]
    exact ⟨rfl, rfl, rfl, by rw [hpending]; rfl, by rw [hpending]; rfl⟩
  | false =>
    rw [if_neg Bool.false_ne_true]
    exact ⟨rfl, rfl, rfl, by rw [hpending]; rfl, by rw [hpending]; rfl⟩

/-- A frame moves the scroll position in follow mode only. -/
theorem frame_scroll (h : app.logsFollow = false) :
    (app.frame surroundings dimy).1.logsScrollLines = app.logsScrollLines := by
  have hstate := render_state app.toNavigationState dimy surroundings.relays.length (logs surroundings)
  rw [render_context] at hstate
  dsimp only at hstate
  rw [h, if_neg Bool.false_ne_true] at hstate
  exact hstate.1

theorem pressGg_spec (redraw : Bool) (hnormal : app.mode = .normal) :
    (pressGg keys surroundings dimy redraw app).logsSearchQuery = app.logsSearchQuery ∧
      (pressGg keys surroundings dimy redraw app).logsFollow = app.logsFollow ∧
      (app.logsFollow = false →
        (pressGg keys surroundings dimy redraw app).logsScrollLines = 0) := by
  have hfirst := @press_g_spec keys surroundings app hnormal
  -- The state before the second `g`, drawn or not.
  obtain ⟨middle, hmiddle, hmode, hquery, hfollow, hpending, hscroll⟩ : ∃ middle,
      pressGg keys surroundings dimy redraw app = press keys surroundings (lit "g") middle ∧
      middle.mode = .normal ∧ middle.logsSearchQuery = app.logsSearchQuery ∧
      middle.logsFollow = app.logsFollow ∧ middle.pendingG = !app.pendingG ∧
      (app.logsFollow = false →
        middle.logsScrollLines = if app.pendingG then 0 else app.logsScrollLines) := by
    cases redraw with
    | false =>
      exact ⟨_, rfl, hfirst.mode.trans hnormal, hfirst.query, hfirst.follow, hfirst.pendingG,
        fun _ => hfirst.scroll⟩
    | true =>
      obtain ⟨-, hq, hf, -, hp⟩ := render_state
        (press keys surroundings (lit "g") app).toNavigationState dimy surroundings.relays.length
        (logs surroundings)
      exact ⟨_, rfl, hfirst.mode.trans hnormal, hq.trans hfirst.query, hf.trans hfirst.follow,
        hp.trans hfirst.pendingG, fun h => (frame_scroll (hfirst.follow.trans h)).trans hfirst.scroll⟩
  have hsecond := @press_g_spec keys surroundings middle hmode
  rw [hmiddle]
  refine ⟨hsecond.query.trans hquery, hsecond.follow.trans hfollow, fun h => ?_⟩
  rw [hsecond.scroll, hpending, hscroll h]
  cases app.pendingG with
  | true => rfl
  | false => rfl

/-- **Jumps in the log pane**: when the next frame shows the first entry that is kept after `gg` and `0`, and the
last one after `G` and `$`. -/
theorem jumps_show_iff (hnormal : app.mode = .normal) (hpane : app.activePane = .logs)
    (redraw : Bool) :
    (ShowsFirst (drawn surroundings dimy (pressGg keys surroundings dimy redraw app)) ↔
      keptCount surroundings app ≤ logLines dimy ∨ app.logsFollow = false) ∧
    ShowsFirst (drawn surroundings dimy (press keys surroundings (lit "0") app)) ∧
    (ShowsLast (drawn surroundings dimy (press keys surroundings (lit "G") app)) ↔
      app.logsFollow = true ∨ keptCount surroundings app - logLines dimy ≤
        if (logs surroundings).length > kLogPageLines then (logs surroundings).length - kLogPageLines
        else app.logsScrollLines) ∧
    (ShowsLast (drawn surroundings dimy (press keys surroundings (lit "$") app)) ↔
      keptCount surroundings app - logLines dimy ≤ (logs surroundings).length - kLogPageLines) := by
  have hpane' : ({ app.toNavigationState with pendingG := false } : NavigationState).activePane =
      .logs := hpane
  refine ⟨?_, ?_, ?_, ?_⟩
  · obtain ⟨hquery, hfollow, hscroll⟩ := @pressGg_spec keys surroundings dimy app redraw hnormal
    rw [drawn_showsFirst_iff, hfollow, keptCount, hquery, ← keptCount]
    exact or_congr_right (and_iff_left_of_imp hscroll)
  · rw [press_zero hnormal, NavigationState.jumpToPaneStart, hpane', drawn_showsFirst_iff]
    exact .inr ⟨rfl, rfl⟩
  · rw [press_G hnormal, NavigationState.jumpToBottom, hpane']
    dsimp only
    split
    · exact drawn_showsLast_iff _
    · exact drawn_showsLast_iff _
  · rw [press_dollar hnormal, NavigationState.jumpToPaneEnd, hpane', drawn_showsLast_iff]
    have hscroll : (if (logs surroundings).length > kLogPageLines then
        (logs surroundings).length - kLogPageLines else 0) =
          (logs surroundings).length - kLogPageLines := by
      split <;> omega
    dsimp only [applyNavigationState]
    rw [hscroll]
    exact or_iff_right Bool.false_ne_true

/-- Seven entries, one more than a small terminal has lines for. -/
def sevenEntries : Surroundings where
  logBuffer := some { entries := List.replicate 7 { timestamp := [], message := lit "idle" } }

theorem jumps_show_iff_seven :
    (ShowsFirst (drawn sevenEntries 18
        (pressGg terminalKeys sevenEntries 18 true { activePane := .logs })) ↔
      keptCount sevenEntries { activePane := .logs } ≤ logLines 18 ∨ true = false) ∧
    ShowsFirst (drawn sevenEntries 18
      (press terminalKeys sevenEntries (lit "0") { activePane := .logs })) ∧
    (ShowsLast (drawn sevenEntries 18
        (press terminalKeys sevenEntries (lit "G") { activePane := .logs })) ↔
      true = true ∨ keptCount sevenEntries { activePane := .logs } - logLines 18 ≤
        if (logs sevenEntries).length > kLogPageLines then
          (logs sevenEntries).length - kLogPageLines
        else 0) ∧
    (ShowsLast (drawn sevenEntries 18
        (press terminalKeys sevenEntries (lit "$") { activePane := .logs })) ↔
      keptCount sevenEntries { activePane := .logs } - logLines 18 ≤
        (logs sevenEntries).length - kLogPageLines) :=
  jumps_show_iff rfl rfl true

/-- In follow mode the frame after `gg` is at the end of the logs. -/
theorem gg_not_at_first_entry :
    ¬ShowsFirst (drawn sevenEntries 18
      (pressGg terminalKeys sevenEntries 18 true { activePane := .logs })) := by
  decide

end Jumps

/-! ## Scrolling -/

section Scrolling
variable (keys : SpecialKeys) (dimy : ℤ) (logBuffer : Option LogBuffer)

/-- What the handler sees, with the logs that do not change. -/
def withLogs (surroundings : Surroundings) : Surroundings :=
  { surroundings with logBuffer := logBuffer }

/-- An event and the frame after it. -/
def catchAndDraw (p : App × RenderContext) (label : Event × Surroundings) :
    Option (App × RenderContext) :=
  some ((p.1.catchEvent keys (withLogs logBuffer label.2) label.1).app.frame
    (withLogs logBuffer label.2) dimy)

/-- The key `k` in the log pane, when the window does not start at the first entry that is kept. -/
def IsUp (p : App × RenderContext) (label : Event × Surroundings) : Prop :=
  p.1.mode = .normal ∧ p.1.activePane = .logs ∧ label.1.input = lit "k" ∧ 0 < p.2.start

/-- The key moves the start of the window up by one entry. -/
def MovesUp (p : App × RenderContext) (label : Event × Surroundings) : Prop :=
  IsUp p label → ∀ q, catchAndDraw keys dimy logBuffer p label = some q → q.2.start + 1 = p.2.start

/-- The stored scroll position is not behind the last full window of the entries that are kept. -/
def ScrollInRange (p : App × RenderContext) (label : Event × Surroundings) : Prop :=
  IsUp p label → p.1.logsScrollLines ≤
    keptCount (withLogs logBuffer label.2) p.1 - logLines dimy

/-- The context of a frame, and the app after it: the position that the frame was drawn from is stored. -/
structure Drawn (p : App × RenderContext) : Prop where
  lines : p.2.logLines = logLines dimy
  visible : p.2.visibleLogs = visibleLogs (logs (withLogs logBuffer {})) p.1.logsSearchQuery
  scroll : p.2.logsScrollLines = p.1.logsScrollLines

variable {keys dimy logBuffer}

theorem Drawn.of_frame (app : App) (surroundings : Surroundings) :
    Drawn dimy logBuffer (app.frame (withLogs logBuffer surroundings) dimy) := by
  obtain ⟨hscroll, hquery, -⟩ := render_state app.toNavigationState dimy surroundings.relays.length
    (logs (withLogs logBuffer surroundings))
  have hcontext := @drawn_eq (withLogs logBuffer surroundings) dimy app
  refine ⟨congrArg RenderContext.logLines hcontext, ?_, hscroll.symm⟩
  exact (congrArg RenderContext.visibleLogs hcontext).trans
    (congrArg (visibleLogs (logs (withLogs logBuffer {}))) hquery.symm)

theorem Drawn.start_eq {p : App × RenderContext} (h : Drawn dimy logBuffer p)
    (surroundings : Surroundings) :
    p.2.start = min (keptCount (withLogs logBuffer surroundings) p.1 - logLines dimy)
      p.1.logsScrollLines := by
  rw [Ui.start_eq, h.lines, h.visible, h.scroll]
  rfl

/-- What `k` stores. -/
theorem catchEvent_k_spec {p : App × RenderContext} {label : Event × Surroundings}
    (h : IsUp p label) (surroundings : Surroundings) :
    (p.1.catchEvent keys surroundings label.1).app.logsFollow = false ∧
      (p.1.catchEvent keys surroundings label.1).app.logsScrollLines = p.1.logsScrollLines - 1 ∧
      (p.1.catchEvent keys surroundings label.1).app.logsSearchQuery = p.1.logsSearchQuery := by
  obtain ⟨hnormal, hpane, hkey, -⟩ := h
  have hpane' : ({ p.1.toNavigationState with pendingG := false } : NavigationState).activePane =
      .logs := hpane
  rw [catchEvent_k hnormal hkey, NavigationState.moveSelectionUp, hpane']
  refine ⟨rfl, ?_, rfl⟩
  dsimp only [applyNavigationState]
  split <;> omega

/-- The law of `k` in a state after a frame. -/
theorem movesUp_iff {p : App × RenderContext} {label : Event × Surroundings}
    (h : Drawn dimy logBuffer p) :
    MovesUp keys dimy logBuffer p label ↔ ScrollInRange dimy logBuffer p label := by
  refine forall_congr' fun hup => ?_
  obtain ⟨hfollow, hscroll, hquery⟩ := @catchEvent_k_spec keys p label hup (withLogs logBuffer label.2)
  have hstart := h.start_eq label.2
  have hpos := hup.2.2.2
  -- The start of the next window, which is drawn from the position that `k` stores.
  have hnext : ((p.1.catchEvent keys (withLogs logBuffer label.2) label.1).app.frame
        (withLogs logBuffer label.2) dimy).2.start =
      min (keptCount (withLogs logBuffer label.2) p.1 - logLines dimy) (p.1.logsScrollLines - 1) := by
    have hdrawn := @drawn_eq (withLogs logBuffer label.2) dimy
      (p.1.catchEvent keys (withLogs logBuffer label.2) label.1).app
    rw [hfollow, if_neg Bool.false_ne_true, hscroll, hquery] at hdrawn
    rw [← drawn, hdrawn, Ui.start_eq]
    rfl
  constructor
  · intro hmoves
    have hmove := hmoves _ rfl
    rw [hnext] at hmove
    omega
  · rintro hrange q hstep
    obtain rfl := Option.some.inj hstep
    rw [hnext]
    omega

/-- **Scrolling up**: after a frame, and with a frame after every event, every `k` in the log pane moves the
window up by one entry until it starts at the first one, if and only if each of them finds the stored position
within the list. -/
theorem k_moves_up_iff (app : App) (first : Surroundings) (labels : List (Event × Surroundings)) :
    Along (catchAndDraw keys dimy logBuffer) (MovesUp keys dimy logBuffer)
        (app.frame (withLogs logBuffer first) dimy) labels ↔
      Along (catchAndDraw keys dimy logBuffer) (ScrollInRange dimy logBuffer)
        (app.frame (withLogs logBuffer first) dimy) labels := by
  refine along_congr (I := Drawn dimy logBuffer) (K := fun _ _ => True) ?_ ?_
    (Drawn.of_frame app first) (along_of_forall fun _ _ _ => trivial)
  · rintro p label q - - hstep
    obtain rfl := Option.some.inj hstep
    exact Drawn.of_frame _ label.2
  · exact fun p label q hp _ _ => movesUp_iff hp

/-- After a `j` at the end of seven entries in six lines, a `k` does not move the window. -/
theorem k_after_j_stays :
    ¬Along (catchAndDraw terminalKeys 18 sevenEntries.logBuffer)
      (MovesUp terminalKeys 18 sevenEntries.logBuffer)
      (({ activePane := .logs } : App).frame (withLogs sevenEntries.logBuffer {}) 18)
      [(.character (lit "j"), {}), (.character (lit "k"), {})] := by
  intro h
  obtain ⟨-, hk⟩ := h _ rfl
  obtain ⟨hmoves, -⟩ := hk _ rfl
  have hstart := hmoves ⟨by decide, by decide, by decide, by decide⟩ _ rfl
  exact absurd hstart (by decide)

end Scrolling
end App
end Monitostr.Ui
