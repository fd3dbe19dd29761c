import Monitostr.Foundations.Simulation
import Monitostr.Main.Control
import Monitostr.Ui.App

/-! # The program while `app.Run()` runs

The user interface runs on the main thread, the sessions and the bootstraps on the others. The handler of a
terminal event reads the log and the relays, and then makes its calls one after the other; the sessions and
the bootstraps go on between them. Behind the program is the machine of `main.cpp`, which gets the keys that
the handler submits and does not depend on the log.
-/

namespace Monitostr.Main
open Foundations Model Net Nip19 Nostr Ui
set_option autoImplicit false

structure Program where
  ui : App := {}
  app : Application
  /-- The calls that the handler of the last event is still to make. -/
  calls : List AppEffect := []
  /-- `request_exit_` has been called. -/
  exiting : Bool := false

inductive ProgramEvent
  /-- The loop passes an event on to the handler. -/
  | event (m : Moment) (desktop : Desktop) (event : Event)
  /-- The handler makes its next call. -/
  | call (m : Moment)
  /-- A frame is drawn. -/
  | frame (dimy : ℤ)
  | bootstrapCompletes (m : Moment) (behaviour : ℕ → SeedBehaviour)
  | session (m : Moment) (group : SessionGroup) (i : ℕ) (io : SessionIo)

namespace Program

def start (m : Moment) : Program := { app := .start m }

/-- What the user interface sees of the objects it shares. -/
def surroundings (p : Program) (m : Moment) (desktop : Desktop) : Surroundings where
  logBuffer := some p.app.logBuffer
  relays := p.app.sharedStats.snapshot
  desktop := desktop
  moment := m

section Step
variable (pf : Platform) (keys : SpecialKeys)

/-- A call of the handler. The calls that reach the desktop do nothing in the program. -/
def perform (p : Program) (m : Moment) : AppEffect → Program
  | .onSubmit npub => { p with app := p.app.onNpubSubmit m npub }
  | .onAuth nsec | .command (.onAuth nsec) => { p with app := p.app.onNsecSubmit pf m nsec }
  | .command (.log level message) => { p with app := p.app.log m level message }
  | .command .clearLogs => { p with app := { p.app with logBuffer := p.app.logBuffer.clear } }
  | .command .requestExit => { p with exiting := true }
  | .command _ => p

/-- One event; `none` when the handler is still busy, has no call to make, or nothing is there to complete. -/
def step (p : Program) : ProgramEvent → Option Program
  | .event m desktop event =>
    if p.calls.isEmpty then
      let handled := p.ui.catchEvent keys (p.surroundings m desktop) event
      some { p with ui := handled.app, calls := handled.effects }
    else none
  | .call m =>
    match p.calls with
    | [] => none
    | call :: calls => some ({ p with calls := calls }.perform pf m call)
  | .frame dimy =>
    if p.calls.isEmpty then some { p with ui := (p.ui.frame (p.surroundings {} {}) dimy).1 } else none
  | .bootstrapCompletes m behaviour =>
    (p.app.step pf (.bootstrapCompletes m behaviour)).map fun app => { p with app := app }
  | .session m group i io => (p.app.step pf (.session m group i io)).map fun app => { p with app := app }

end Step

/-! ## The machine of `main.cpp` behind the program -/

/-- The event of `main.cpp` in an event of the program. -/
def appEvent (p : Program) : ProgramEvent → Option AppEvent
  | .event _ _ _ | .frame _ => none
  | .call m =>
    match p.calls.head? with
    | some (.onSubmit npub) => some (.npubSubmit m npub)
    | some (.onAuth nsec) | some (.command (.onAuth nsec)) => some (.nsecSubmit m nsec)
    | _ => none
  | .bootstrapCompletes m behaviour => some (.bootstrapCompletes m behaviour)
  | .session m group i io => some (.session m group i io)

end Program

namespace Application
variable {pf : Platform}

/-- The state but for the log. -/
def silent (app : Application) : Application := { app with logBuffer := {} }

theorem silent_onNpubSubmit (app : Application) (m : Moment) (npub : Str) :
    (app.onNpubSubmit m npub).silent = (app.silent.onNpubSubmit m npub).silent := by
  rw [onNpubSubmit, onNpubSubmit]
  dsimp only
  split <;> rfl

theorem silent_onNsecSubmit (app : Application) (m : Moment) (nsec : Str) :
    (app.onNsecSubmit pf m nsec).silent = (app.silent.onNsecSubmit pf m nsec).silent := by
  cases hkey : acceptedKey pf nsec with
  | none =>
    obtain ⟨message, heq⟩ := onNsecSubmit_of_rejected hkey
    rw [heq, heq]
    rfl
  | some key =>
    obtain ⟨logBuffer, heq⟩ := onNsecSubmit_of_accepted hkey app m
    obtain ⟨logBuffer', heq'⟩ := onNsecSubmit_of_accepted hkey app.silent m
    have hactive : app.silent.sessionManager.hasActiveSessions =
        app.sessionManager.hasActiveSessions := rfl
    rw [heq, heq', hactive]
    split <;> rfl

theorem silent_completeBootstrap (app : Application) (m : Moment) (bootstrap : PendingBootstrap)
    (behaviour : ℕ → SeedBehaviour) :
    (app.completeBootstrap pf m bootstrap behaviour).silent =
      (app.silent.completeBootstrap pf m bootstrap behaviour).silent := by
  obtain ⟨logBuffer, heq⟩ := @completeBootstrap_eq pf app m bootstrap behaviour _ rfl
  obtain ⟨logBuffer', heq'⟩ := @completeBootstrap_eq pf app.silent m bootstrap behaviour _ rfl
  rw [heq, heq']
  split <;> rfl

theorem silent_effects (app : Application) (m : Moment) (effects : List Effect) :
    (effects.foldl (applyEffect m) app).silent = (effects.foldl (applyEffect m) app.silent).silent := by
  obtain ⟨logBuffer, heq⟩ := applyEffects_eq app m effects
  obtain ⟨logBuffer', heq'⟩ := applyEffects_eq app.silent m effects
  rw [heq, heq']
  rfl

variable (pf) in
/-- The machine of `main.cpp`, without the log. -/
def silentStep (app : Application) (e : AppEvent) : Option Application := (step pf app e).map silent

/-- What happens does not depend on the log. -/
theorem silent_step (app : Application) (e : AppEvent) :
    (step pf app e).map silent = silentStep pf app.silent e := by
  rw [silentStep]
  cases e with
  | npubSubmit m npub => exact congrArg some (silent_onNpubSubmit app m npub)
  | nsecSubmit m nsec => exact congrArg some (silent_onNsecSubmit app m nsec)
  | bootstrapCompletes m behaviour =>
    have hpending : app.silent.pending = app.pending := rfl
    rw [step, step, hpending]
    split
    · rfl
    · exact congrArg some (silent_completeBootstrap _ m _ behaviour)
  | session m group i io =>
    have hmanager : app.silent.sessionManager = app.sessionManager := rfl
    rw [step, step, hmanager, Option.map_map, Option.map_map]
    refine congrFun (congrArg _ (funext fun result => ?_)) _
    exact silent_effects { app with sessionManager := result.1 } m result.2

end Application

namespace Program
variable {pf : Platform} {keys : SpecialKeys}

theorem perform_of_stutter (p : Program) (m : Moment) {call : AppEffect} {calls : List AppEffect}
    (h : appEvent { p with calls := call :: calls } (.call m) = none) :
    (p.perform pf m call).app.silent = p.app.silent := by
  cases call with
  | onSubmit npub => cases h
  | onAuth nsec => cases h
  | command effect =>
    cases effect with
    | onAuth nsec => cases h
    | _ => rfl

theorem perform_of_event (p : Program) (m : Moment) {call : AppEffect} {calls : List AppEffect}
    {e : AppEvent} (h : appEvent { p with calls := call :: calls } (.call m) = some e) :
    Application.silentStep pf p.app.silent e = some (p.perform pf m call).app.silent := by
  rw [← Application.silent_step]
  cases call with
  | onSubmit npub =>
    obtain rfl := Option.some.inj h
    rfl
  | onAuth nsec =>
    obtain rfl := Option.some.inj h
    rfl
  | command effect =>
    cases effect with
    | onAuth nsec =>
      obtain rfl := Option.some.inj h
      rfl
    | _ => cases h

variable (pf keys) in
/-- The program simulates the machine of `main.cpp`. -/
def behindLog : Simulation (step pf keys) (Application.silentStep pf) where
  abs p := p.app.silent
  event := appEvent
  stutters := by
    intro p e p' hstep hevent
    cases e with
    | event m desktop event =>
      rw [step] at hstep
      split at hstep
      · obtain rfl := Option.some.inj hstep
        rfl
      · cases hstep
    | call m =>
      obtain ⟨ui, app, calls, exiting⟩ := p
      cases calls with
      | nil => cases hstep
      | cons call calls =>
        obtain rfl := Option.some.inj hstep
        exact perform_of_stutter { ui := ui, app := app, calls := calls, exiting := exiting } m hevent
    | frame dimy =>
      rw [step] at hstep
      split at hstep
      · obtain rfl := Option.some.inj hstep
        rfl
      · cases hstep
    | bootstrapCompletes m behaviour => cases hevent
    | session m group i io => cases hevent
  steps := by
    intro p e p' a hstep hevent
    cases e with
    | event m desktop event => cases hevent
    | call m =>
      obtain ⟨ui, app, calls, exiting⟩ := p
      cases calls with
      | nil => cases hstep
      | cons call calls =>
        obtain rfl := Option.some.inj hstep
        exact perform_of_event { ui := ui, app := app, calls := calls, exiting := exiting } m hevent
    | frame dimy => cases hevent
    | bootstrapCompletes m behaviour =>
      obtain rfl := Option.some.inj hevent
      rw [step, Option.map_eq_some_iff] at hstep
      obtain ⟨app, happ, rfl⟩ := hstep
      rw [← Application.silent_step, happ]
      rfl
    | session m group i io =>
      obtain rfl := Option.some.inj hevent
      rw [step, Option.map_eq_some_iff] at hstep
      obtain ⟨app, happ, rfl⟩ := hstep
      rw [← Application.silent_step, happ]
      rfl

end Program
end Monitostr.Main
