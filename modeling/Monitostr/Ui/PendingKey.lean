import Monitostr.Foundations.Runs
import Monitostr.Ui.AppSteps

/-! # The key `g` and the one before it

A second `g` runs `JumpToTop`. Every key that the handler knows cancels the first one. An event that it does not
handle cancels it in the local state only, which is not written back: a tick must not cancel it, but a key that
is not bound does not either.
-/

namespace Monitostr.Ui
open Foundations Model
set_option autoImplicit false

namespace App
variable (keys : SpecialKeys)

/-! ## Keys -/

def keyG : Event := .character (lit "g")

/-- The inputs that Normal mode handles. -/
def boundKeys : List Str :=
  [lit "i", lit ":", lit "/", lit "h", lit "l", lit "f", lit "g", lit "G", lit "0", lit "$", lit "n",
    lit "N", lit "j", lit "k", keys.ctrlD, keys.pageDown, lit "d", keys.ctrlU, keys.pageUp, lit "u",
    keys.escape]

variable {keys} {surroundings : Surroundings}

theorem normalEvent_handled (app : App) (event : Event) :
    (app.normalEvent keys surroundings event).handled = true ↔ event.input ∈ boundKeys keys := by
  unfold normalEvent boundKeys
  simp only [apply_ite Handled.handled, Bool.if_true_left, Bool.or_false, Bool.or_eq_true,
    decide_eq_true_eq, List.mem_cons, List.not_mem_nil, or_false, or_assoc]

/-- A tick is none of the keys of Normal mode. -/
theorem custom_not_mem_boundKeys : keys.custom ∉ boundKeys keys := by
  have hletter : ∀ {text : Str} (c : UInt8), 32 ≤ c → c < 127 → text = [c] → keys.custom ≠ text := by
    rintro text c hlow hhigh rfl heq
    exact keys.notPrintable c hlow hhigh (by simp [heq])
  have hdistinct := keys.distinct
  simp only [List.nodup_cons, List.mem_cons, List.not_mem_nil, or_false, not_or] at hdistinct
  obtain ⟨⟨-, -, -, -, -, -, hescape⟩, -, -, ⟨-, -, -, hctrlD⟩, ⟨-, -, hctrlU⟩, ⟨-, hpageDown⟩,
    hpageUp, -⟩ := hdistinct
  simp only [boundKeys, List.mem_cons, List.not_mem_nil, or_false, not_or]
  exact ⟨hletter 105 (by decide) (by decide) rfl, hletter 58 (by decide) (by decide) rfl,
    hletter 47 (by decide) (by decide) rfl, hletter 104 (by decide) (by decide) rfl,
    hletter 108 (by decide) (by decide) rfl, hletter 102 (by decide) (by decide) rfl,
    hletter 103 (by decide) (by decide) rfl, hletter 71 (by decide) (by decide) rfl,
    hletter 48 (by decide) (by decide) rfl, hletter 36 (by decide) (by decide) rfl,
    hletter 110 (by decide) (by decide) rfl, hletter 78 (by decide) (by decide) rfl,
    hletter 106 (by decide) (by decide) rfl, hletter 107 (by decide) (by decide) rfl,
    Ne.symm hctrlD, Ne.symm hpageDown, hletter 100 (by decide) (by decide) rfl, Ne.symm hctrlU,
    Ne.symm hpageUp, hletter 117 (by decide) (by decide) rfl, Ne.symm hescape⟩

theorem tick_ne (keys : SpecialKeys) :
    keys.tick.input ≠ keys.escape ∧ keys.tick.input ≠ keys.returnKey ∧
      keys.tick.input ≠ keys.backspace := by
  have hdistinct := keys.distinct
  simp only [List.nodup_cons, List.mem_cons, List.not_mem_nil, or_false, not_or] at hdistinct
  obtain ⟨⟨-, -, -, -, -, -, hescape⟩, ⟨-, -, -, -, -, hreturn⟩, ⟨-, -, -, -, hback⟩, -⟩ := hdistinct
  exact ⟨Ne.symm hescape, Ne.symm hreturn, Ne.symm hback⟩

/-- A tick changes nothing in any mode. -/
theorem catchEvent_tick (app : App) :
    (app.catchEvent keys surroundings keys.tick).app = app := by
  obtain ⟨hescape, hreturn, hback⟩ := tick_ne keys
  have hedit : ∀ buffer : Str, edited keys buffer keys.tick = buffer := by
    intro buffer
    rw [edited, if_neg hback]
    rfl
  by_cases hmode : app.mode = .normal
  · rw [catchEvent_normal hmode]
    refine (normalEvent_step hmode keys.tick).unhandled ?_
    rw [← Bool.not_eq_true, normalEvent_handled]
    exact custom_not_mem_boundKeys
  · rw [catchEvent_edits hmode hescape hreturn, hedit, edit_buffer]

/-! ## What a `g` does -/

section Recorded
variable (keys)

/-- A `g` runs `JumpToTop`: it comes in Normal mode, and the navigation state after it is the one that the
function makes. -/
def JumpsOnG (app : App) : Prop :=
  app.mode = .normal ∧ ∀ surroundings,
    (app.catchEvent keys surroundings keyG).app.toNavigationState = app.toNavigationState.jumpToTop

/-- What is recorded of a run: whether the last event other than a tick was a `g` in Normal mode that did not
run `JumpToTop`. -/
def recordG (record : Bool) (app : App) (label : Event × Surroundings) (result : App × Unit) : Bool :=
  if label.1 = keys.tick then record
  else decide (label.1.input = lit "g") && decide (app.mode = .normal) &&
    decide (result.1.toNavigationState ≠ app.toNavigationState.jumpToTop)

/-- The handler with the record. -/
def recorded : App × Bool → Event × Surroundings → Option (App × Bool) :=
  watched (fun app label => some ((app.catchEvent keys label.2 label.1).app, ())) (recordG keys)

/-- In Normal mode, no event other than a tick comes that is not bound while a `g` is pending. -/
def NoStrayKey (p : App × Bool) (label : Event × Surroundings) : Prop :=
  p.1.mode = .normal → p.1.pendingG = true → label.1 ≠ keys.tick → label.1.input ∈ boundKeys keys

variable {keys}

theorem normalEvent_g {app : App} {event : Event} (h : event.input = lit "g") :
    (app.normalEvent keys surroundings event).app.toNavigationState =
      if app.pendingG then app.toNavigationState.jumpToTop
      else { app.toNavigationState with pendingG := true } := by
  rw [normalEvent_eq, normalKey_g_iff.mpr h]
  rfl

theorem normalEvent_g_jumps_iff {app : App} {event : Event} (h : event.input = lit "g") :
    (app.normalEvent keys surroundings event).app.toNavigationState = app.toNavigationState.jumpToTop ↔
      app.pendingG = true := by
  rw [normalEvent_g h]
  cases app.pendingG with
  | true => simp
  | false =>
    refine iff_of_false (fun heq => ?_) Bool.false_ne_true
    exact nomatch (congrArg NavigationState.pendingG heq : true = false)

theorem jumpsOnG_iff {app : App} :
    JumpsOnG keys app ↔ app.mode = .normal ∧ app.pendingG = true := by
  refine and_congr_right fun hmode => ?_
  have hjumps : ∀ surroundings, (app.catchEvent keys surroundings keyG).app.toNavigationState =
      app.toNavigationState.jumpToTop ↔ app.pendingG = true := by
    intro surroundings
    rw [catchEvent_normal hmode]
    exact normalEvent_g_jumps_iff rfl
  exact ⟨fun h => (hjumps {}).mp (h {}), fun h surroundings => (hjumps surroundings).mpr h⟩

/-! ## The record along a run -/

/-- A `g` is pending in Normal mode only, and when one is recorded. -/
structure PendingInNormal (p : App × Bool) : Prop where
  normal : p.1.mode ≠ .normal → p.1.pendingG = false
  pending : p.2 = true → p.1.mode = .normal ∧ p.1.pendingG = true

theorem pendingG_of_ne_normal {app : App} (hmode : app.mode ≠ .normal) (h : app.pendingG = false)
    (event : Event) : (app.catchEvent keys surroundings event).app.pendingG = false := by
  by_cases hleft : event.input = keys.escape ∨ event.input = keys.returnKey
  · exact (catchEvent_leaves hmode hleft).pendingG
  · obtain ⟨hescape, hreturn⟩ := not_or.mp hleft
    rw [catchEvent_edits hmode hescape hreturn, edit_pendingG]
    exact h

/-- What a handled event leaves pending in Normal mode. -/
theorem pendingG_of_bound {app : App} (hmode : app.mode = .normal) {event : Event}
    (h : event.input ∈ boundKeys keys) :
    (app.normalEvent keys surroundings event).app.pendingG =
      (decide (event.input = lit "g") && !app.pendingG) :=
  (normalEvent_step hmode event).pendingG ((normalEvent_handled app event).mpr h)

theorem normalEvent_unbound {app : App} (hmode : app.mode = .normal) {event : Event}
    (h : event.input ∉ boundKeys keys) : (app.normalEvent keys surroundings event).app = app := by
  refine (normalEvent_step hmode event).unhandled ?_
  rw [← Bool.not_eq_true, normalEvent_handled]
  exact h

/-- The record after an event other than a tick in Normal mode. -/
theorem recordG_normal {app : App} (hmode : app.mode = .normal) {event : Event}
    (htick : event ≠ keys.tick) (record : Bool) :
    recordG keys record app (event, surroundings)
        ((app.catchEvent keys surroundings event).app, ()) =
      (decide (event.input = lit "g") && !app.pendingG) := by
  rw [recordG, if_neg htick, decide_eq_true hmode, Bool.and_true]
  by_cases hg : event.input = lit "g"
  · have hjumps := @normalEvent_g_jumps_iff keys surroundings app event hg
    rw [catchEvent_normal hmode]
    dsimp only
    rw [decide_eq_true hg, Bool.true_and, Bool.true_and]
    cases hpending : app.pendingG with
    | true => simpa using hjumps.mpr hpending
    | false => simpa [hpending] using hjumps
  · rw [decide_eq_false hg, Bool.false_and, Bool.false_and]

/-- The law of the two keys in a state: a `g` jumps exactly when one is recorded. -/
def JumpsAsRecorded (keys : SpecialKeys) (p : App × Bool) : Prop := JumpsOnG keys p.1 ↔ p.2 = true

theorem recorded_eq (app : App) (record : Bool) (event : Event) (surroundings : Surroundings) :
    recorded keys (app, record) (event, surroundings) =
      some ((app.catchEvent keys surroundings event).app,
        recordG keys record app (event, surroundings)
          ((app.catchEvent keys surroundings event).app, ())) := rfl

/-- In a state where nothing is pending in another mode, the flag alone decides. -/
theorem PendingInNormal.jumpsOnG_iff {p : App × Bool} (h : PendingInNormal p) :
    JumpsOnG keys p.1 ↔ p.1.pendingG = true := by
  rw [App.jumpsOnG_iff]
  refine and_iff_right_of_imp fun hpending => ?_
  by_contra hmode
  rw [h.normal hmode] at hpending
  exact Bool.false_ne_true hpending

/-- With no `g` recorded, only the other modes matter. -/
theorem PendingInNormal.unrecorded {app : App} (h : app.mode ≠ .normal → app.pendingG = false) :
    PendingInNormal (app, false) where
  normal := h
  pending := fun hrecord => absurd hrecord Bool.false_ne_true

/-- A step keeps the invariant, and it keeps the law exactly when it brings no stray key. -/
theorem recorded_step {app : App} {record : Bool} {event : Event} {q : App × Bool}
    (h : PendingInNormal (app, record))
    (hstep : recorded keys (app, record) (event, surroundings) = some q) :
    PendingInNormal q ∧ (JumpsAsRecorded keys (app, record) →
      (JumpsAsRecorded keys q ↔ NoStrayKey keys (app, record) (event, surroundings))) := by
  rw [recorded_eq, Option.some.injEq] at hstep
  subst hstep
  by_cases htick : event = keys.tick
  · subst htick
    rw [recordG, if_pos rfl, catchEvent_tick]
    exact ⟨h, fun hlaw => iff_of_true hlaw fun _ _ hne => absurd rfl hne⟩
  by_cases hmode : app.mode = .normal
  · rw [recordG_normal hmode htick]
    rw [catchEvent_normal hmode]
    by_cases hbound : event.input ∈ boundKeys keys
    · -- A key that is bound: the flag and the record are the same.
      have hmodes := (@normalEvent_step keys surroundings app hmode event).modes
      have hflag := @pendingG_of_bound keys surroundings app hmode event hbound
      rw [← hflag]
      have hinv : PendingInNormal ((app.normalEvent keys surroundings event).app,
          (app.normalEvent keys surroundings event).app.pendingG) := by
        refine ⟨hmodes, fun hpending => ⟨?_, hpending⟩⟩
        by_contra hne
        rw [hmodes hne] at hpending
        exact Bool.false_ne_true hpending
      exact ⟨hinv, fun _ => iff_of_true hinv.jumpsOnG_iff fun _ _ _ => hbound⟩
    · -- A stray key: the flag stays, and nothing is recorded.
      have hg : event.input ≠ lit "g" := by
        rintro hg
        exact hbound (by rw [hg]; simp [boundKeys])
      rw [normalEvent_unbound hmode hbound, decide_eq_false hg, Bool.false_and]
      have hinv : PendingInNormal (app, false) := .unrecorded h.normal
      refine ⟨hinv, fun _ => ?_⟩
      rw [JumpsAsRecorded, hinv.jumpsOnG_iff]
      constructor
      · exact fun hlaw _ hpending _ => absurd (hlaw.mp hpending) Bool.false_ne_true
      · exact fun hstray =>
          iff_of_false (fun hpending => hbound (hstray hmode hpending htick)) Bool.false_ne_true
  · have hflag := @pendingG_of_ne_normal keys surroundings app hmode (h.normal hmode) event
    rw [recordG, if_neg htick, decide_eq_false hmode, Bool.and_false, Bool.false_and]
    have hinv : PendingInNormal ((app.catchEvent keys surroundings event).app, false) :=
      .unrecorded fun _ => hflag
    refine ⟨hinv, fun _ => iff_of_true ?_ fun hnormal => absurd hnormal hmode⟩
    rw [JumpsAsRecorded, hinv.jumpsOnG_iff]
    exact iff_of_false (by rw [hflag]; exact Bool.false_ne_true) Bool.false_ne_true

/-- **The two-key jump**: from a state in which no `g` is pending, a `g` always jumps exactly when the last
event other than a tick was a `g` that did not, if and only if no key that is not bound comes while one is
pending. -/
theorem jumps_as_recorded_iff {app : App} (hpending : app.pendingG = false)
    (events : List (Event × Surroundings)) :
    Throughout (recorded keys) (JumpsAsRecorded keys) (app, false) events ↔
      Along (recorded keys) (NoStrayKey keys) (app, false) events := by
  have hstart : PendingInNormal (app, false) := .unrecorded fun _ => hpending
  refine throughout_iff_along (I := PendingInNormal) ?_ ?_ hstart ?_
  · exact fun p label q h hstep => (recorded_step h hstep).1
  · exact fun p label q h hlaw hstep => (recorded_step h hstep).2 hlaw
  · rw [JumpsAsRecorded, hstart.jumpsOnG_iff]
    exact iff_of_false (by rw [hpending]; exact Bool.false_ne_true) Bool.false_ne_true

/-- The keys `g`, `x` and `g`. -/
def strayKeys : List (Event × Surroundings) :=
  [(keyG, {}), (.character (lit "x"), {}), (keyG, {})]

theorem jumps_as_recorded_iff_strayKeys :
    Throughout (recorded terminalKeys) (JumpsAsRecorded terminalKeys) ({}, false) strayKeys ↔
      Along (recorded terminalKeys) (NoStrayKey terminalKeys) ({}, false) strayKeys :=
  jumps_as_recorded_iff rfl strayKeys

/-- The second `g` jumps to the top, although the event before it was an `x`. -/
theorem stray_key_keeps_pending :
    run (recorded terminalKeys) ({}, false) (strayKeys.take 2) = some ({ pendingG := true }, false) ∧
      JumpsOnG terminalKeys { pendingG := true } :=
  ⟨by decide, jumpsOnG_iff.mpr ⟨rfl, rfl⟩⟩

end Recorded
end App
end Monitostr.Ui
