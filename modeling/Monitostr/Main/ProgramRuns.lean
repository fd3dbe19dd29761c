import Monitostr.Main.Program
import Monitostr.Net.SeedOrder
import Monitostr.Ui.TypedKeys
import Monitostr.Utils.SamplePlatform

/-! # Runs of the program

The program and the machine of `main.cpp` reach the same states, but for the log: a run of the program is one
of that machine, with the keys that were typed as its submissions, and a run of that machine is one of the
program, with its submissions typed. What is typed is submitted once and in order, whatever the sessions and
the bootstraps do meanwhile.
-/

namespace Monitostr.Main
open Foundations Model Net Nip19 Nostr Ui
set_option autoImplicit false

def AppEvent.submission : AppEvent → Option Submission
  | .npubSubmit _ npub => some (.npub npub)
  | .nsecSubmit _ nsec => some (.nsec nsec)
  | _ => none

def submissionEvent (m : Moment) : Submission → AppEvent
  | .npub npub => .npubSubmit m npub
  | .nsec nsec => .nsecSubmit m nsec

/-- The terminal events among the events. -/
def terminalEvents (es : List ProgramEvent) : List Event :=
  es.filterMap fun e =>
    match e with
    | .event _ _ event => some event
    | _ => none

theorem submission_submissionEvent (m : Moment) (submission : Submission) :
    (submissionEvent m submission).submission = some submission := by
  cases submission <;> rfl

theorem terminalEvents_append (es fs : List ProgramEvent) :
    terminalEvents (es ++ fs) = terminalEvents es ++ terminalEvents fs := List.filterMap_append

namespace Program
variable {pf : Platform} {keys : SpecialKeys}

/-! ## Calls -/

theorem appEvent_call {p : Program} (m : Moment) {call : AppEffect} {calls : List AppEffect}
    (h : p.calls = call :: calls) :
    appEvent p (.call m) = call.submission.map (submissionEvent m) := by
  rw [appEvent, h]
  cases call with
  | onSubmit npub => rfl
  | onAuth nsec => rfl
  | command effect => cases effect <;> rfl

theorem perform_ui (p : Program) (m : Moment) (call : AppEffect) : (p.perform pf m call).ui = p.ui := by
  cases call with
  | onSubmit npub => rfl
  | onAuth nsec => rfl
  | command effect => cases effect <;> rfl

theorem perform_calls (p : Program) (m : Moment) (call : AppEffect) :
    (p.perform pf m call).calls = p.calls := by
  cases call with
  | onSubmit npub => rfl
  | onAuth nsec => rfl
  | command effect => cases effect <;> rfl

theorem perform_exiting (p : Program) (m : Moment) (call : AppEffect) :
    (p.perform pf m call).exiting = true ↔ p.exiting = true ∨ .command .requestExit = call := by
  cases call with
  | onSubmit npub => exact (or_iff_left nofun).symm
  | onAuth nsec => exact (or_iff_left nofun).symm
  | command effect =>
    cases effect with
    | requestExit => exact iff_of_true rfl (Or.inr rfl)
    | _ => exact (or_iff_left nofun).symm

/-! ## One event -/

/-- What an event does to what is typed, what is submitted and the wish to exit. -/
structure Follows (keys : SpecialKeys) (p : Program) (e : ProgramEvent) (q : Program) : Prop where
  leftEmpty : App.LeftEmpty q.ui
  draft : q.ui.draft = (terminalEvents [e]).foldl (Draft.next keys) p.ui.draft
  submissions : ((appEvent p e).bind AppEvent.submission).toList ++
    q.calls.filterMap AppEffect.submission =
      p.calls.filterMap AppEffect.submission ++ p.ui.draft.allSubmissions keys (terminalEvents [e])
  exits : q.exiting = true ∨ .command .requestExit ∈ q.calls ↔
    (p.exiting = true ∨ .command .requestExit ∈ p.calls) ∨
      p.ui.draft.everExits keys (terminalEvents [e]) = true

/-- An event that is not for the user interface. -/
theorem follows_of_same {p q : Program} {e : ProgramEvent} (hempty : App.LeftEmpty q.ui)
    (hdraft : q.ui.draft = p.ui.draft) (hcalls : q.calls = p.calls) (hexiting : q.exiting = p.exiting)
    (hterminal : terminalEvents [e] = []) (happ : (appEvent p e).bind AppEvent.submission = none) :
    Follows keys p e q where
  leftEmpty := hempty
  draft := by rw [hdraft, hterminal]; rfl
  submissions := by
    rw [happ, hcalls, hterminal, Draft.allSubmissions, List.append_nil]
    rfl
  exits := by
    rw [hcalls, hexiting, hterminal, Draft.everExits]
    simp

theorem follows_event {p : Program} {m : Moment} {desktop : Desktop} {event : Event}
    (hempty : App.LeftEmpty p.ui) (hidle : p.calls = []) :
    Follows keys p (.event m desktop event)
      { p with
        ui := (p.ui.catchEvent keys (p.surroundings m desktop) event).app
        calls := (p.ui.catchEvent keys (p.surroundings m desktop) event).effects } := by
  have hasks := @App.catchEvent_asks keys (p.surroundings m desktop) p.ui event rfl rfl
  refine ⟨hempty.catchEvent event, App.draft_catchEvent hempty, ?_, ?_⟩
  · rw [hidle]
    change _ = p.ui.draft.submissions keys event ++ []
    rw [List.append_nil, ← hasks.submissions]
    rfl
  · rw [hidle]
    change _ ∨ _ ↔ _ ∨ (p.ui.draft.exits keys event || false) = true
    rw [Bool.or_false, ← hasks.exits]
    simp

theorem step_call {p : Program} (m : Moment) {call : AppEffect} {calls : List AppEffect}
    (h : p.calls = call :: calls) :
    step pf keys p (.call m) = some ({ p with calls := calls }.perform pf m call) := by
  rw [step, h]

theorem follows_call {p : Program} (m : Moment) {call : AppEffect} {calls : List AppEffect}
    (h : p.calls = call :: calls) (hempty : App.LeftEmpty p.ui) :
    Follows keys p (.call m) ({ p with calls := calls }.perform pf m call) := by
  have hui : ({ p with calls := calls }.perform pf m call).ui = p.ui := perform_ui _ m call
  refine ⟨?_, ?_, ?_, ?_⟩
  · rw [hui]
    exact hempty
  · rw [hui]
    rfl
  · rw [appEvent_call m h, perform_calls, h]
    change _ = _ ++ []
    rw [List.append_nil]
    cases hcall : call.submission with
    | none =>
      rw [List.filterMap_cons_none hcall]
      rfl
    | some submission =>
      rw [List.filterMap_cons_some hcall, Option.map_some, Option.bind_some,
        submission_submissionEvent]
      rfl
  · rw [perform_exiting, perform_calls, h, List.mem_cons]
    change _ ↔ _ ∨ false = true
    rw [or_iff_left Bool.false_ne_true, or_assoc]

theorem follows_step {p q : Program} {e : ProgramEvent} (hempty : App.LeftEmpty p.ui)
    (h : step pf keys p e = some q) : Follows keys p e q := by
  cases e with
  | event m desktop event =>
    rw [step] at h
    split at h
    · next hidle =>
      obtain rfl := Option.some.inj h
      exact follows_event hempty (List.isEmpty_iff.mp hidle)
    · cases h
  | call m =>
    cases hcalls : p.calls with
    | nil =>
      rw [step, hcalls] at h
      cases h
    | cons call calls =>
      obtain rfl := Option.some.inj ((step_call m hcalls).symm.trans h)
      exact follows_call m hcalls hempty
  | frame dimy =>
    rw [step] at h
    split at h
    · obtain rfl := Option.some.inj h
      exact follows_of_same ⟨hempty.commandLine, hempty.inputNpub⟩ rfl rfl rfl rfl rfl
    · cases h
  | bootstrapCompletes m behaviour =>
    rw [step, Option.map_eq_some_iff] at h
    obtain ⟨app, -, rfl⟩ := h
    exact follows_of_same hempty rfl rfl rfl rfl rfl
  | session m group i io =>
    rw [step, Option.map_eq_some_iff] at h
    obtain ⟨app, -, rfl⟩ := h
    exact follows_of_same hempty rfl rfl rfl rfl rfl

/-! ## What the keys decide -/

/-- The program after these events has submitted what was typed, or is about to, in this order. -/
structure Obeys (pf : Platform) (keys : SpecialKeys) (m : Moment) (es : List ProgramEvent) (p : Program) :
    Prop where
  draft : p.ui.draft = (terminalEvents es).foldl (Draft.next keys) .nothing
  submissions : ((behindLog pf keys).events (start m) es).filterMap AppEvent.submission ++
    p.calls.filterMap AppEffect.submission = Draft.nothing.allSubmissions keys (terminalEvents es)
  exits : p.exiting = true ∨ .command .requestExit ∈ p.calls ↔
    Draft.nothing.everExits keys (terminalEvents es) = true

theorem filterMap_event (p : Program) (e : ProgramEvent) :
    ((behindLog pf keys).event p e).toList.filterMap AppEvent.submission =
      ((appEvent p e).bind AppEvent.submission).toList := by
  change (appEvent p e).toList.filterMap AppEvent.submission = _
  cases appEvent p e with
  | none => rfl
  | some a =>
    rw [Option.toList_some, Option.bind_some]
    cases ha : a.submission with
    | none => exact List.filterMap_cons_none ha
    | some submission => exact List.filterMap_cons_some ha

theorem Obeys.step {m : Moment} {es : List ProgramEvent} {p q : Program} {e : ProgramEvent}
    (h : Obeys pf keys m es p) (hrun : run (step pf keys) (start m) es = some p)
    (hstep : Program.step pf keys p e = some q) (hfollows : Follows keys p e q) :
    Obeys pf keys m (es ++ [e]) q where
  draft := by rw [terminalEvents_append, List.foldl_append, ← h.draft, hfollows.draft]
  submissions := by
    rw [terminalEvents_append, Draft.allSubmissions_append, ← h.draft, ← h.submissions,
      (behindLog pf keys).events_append hrun, (behindLog pf keys).events_singleton hstep,
      List.filterMap_append, filterMap_event, List.append_assoc, List.append_assoc, hfollows.submissions]
  exits := by
    rw [terminalEvents_append, Draft.everExits_append, ← h.draft, Bool.or_eq_true, ← h.exits,
      hfollows.exits]

theorem obeys_run {m : Moment} {es : List ProgramEvent} {p : Program}
    (hrun : run (step pf keys) (start m) es = some p) : App.LeftEmpty p.ui ∧ Obeys pf keys m es p := by
  refine run_history (I := fun es p => App.LeftEmpty p.ui ∧ Obeys pf keys m es p) ?_ ?_ hrun
  · exact ⟨⟨fun _ => rfl, fun _ => rfl⟩, rfl, rfl, by simp [start, terminalEvents, Draft.everExits]⟩
  · rintro es p e q hrun ⟨hempty, hobeys⟩ hstep
    have hfollows := follows_step hempty hstep
    exact ⟨hfollows.leftEmpty, hobeys.step hrun hstep hfollows⟩

/-- **The program obeys the keys**: it does what the machine of `main.cpp` does with the submissions that were
typed, each once and in order, and wishes to exit exactly when an exit command was typed, whatever the sessions
and the bootstraps do meanwhile. -/
theorem program_obeys_keys {m : Moment} {es : List ProgramEvent} {p : Program}
    (hrun : run (step pf keys) (start m) es = some p) :
    (∃ app, run (Application.step pf) (Application.start m) ((behindLog pf keys).events (start m) es) =
      some app ∧ app.silent = p.app.silent) ∧ Obeys pf keys m es p := by
  refine ⟨?_, (obeys_run hrun).2⟩
  have hevents := (behindLog pf keys).run_events hrun
  have hsilent := run_map (@Application.silent_step pf) (Application.start m)
    ((behindLog pf keys).events (start m) es)
  rw [← Option.map_eq_some_iff]
  exact hsilent.trans hevents

/-- An npub is typed while nothing runs, submitted, and a relay is found for it. -/
def typedNpub : List ProgramEvent :=
  .event {} {} (.character (lit "i")) ::
    ((sampleNpub 1).map (fun c => ProgramEvent.event {} {} (.character [c])) ++
      [.event {} {} { isCharacter := false, input := terminalKeys.returnKey }, .call {},
        .bootstrapCompletes {} (seedsKnow sampleRelay), .session {} .running 0 .run])

theorem program_obeys_keys_typed : ∃ p,
    run (step samplePlatform terminalKeys) (start {}) typedNpub = some p ∧
      p.app.sessionManager.hasActiveSessions = true ∧ Obeys samplePlatform terminalKeys {} typedNpub p := by
  have hseen : (run (step samplePlatform terminalKeys) (start {}) typedNpub).map
      (fun p => p.app.sessionManager.hasActiveSessions) = some true := by decide +kernel
  obtain ⟨p, hrun, hactive⟩ := Option.map_eq_some_iff.mp hseen
  exact ⟨p, hrun, hactive, (program_obeys_keys hrun).2⟩

/-! ## Typing -/

/-- The events of the terminal are passed on, and the handler makes its calls for them, all at this moment. -/
structure Enters (pf : Platform) (keys : SpecialKeys) (m : Moment) (p : Program) (events : List Event)
    (fs : List ProgramEvent) (q : Program) : Prop where
  run : run (step pf keys) p fs = some q
  idle : q.calls = []
  leftEmpty : App.LeftEmpty q.ui
  draft : q.ui.draft = events.foldl (Draft.next keys) p.ui.draft
  terminal : terminalEvents fs = events
  events : (behindLog pf keys).events p fs =
    (p.ui.draft.allSubmissions keys events).map (submissionEvent m)

theorem Enters.append {m : Moment} {p q r : Program} {first second : List Event} {fs gs : List ProgramEvent}
    (h : Enters pf keys m p first fs q) (h' : Enters pf keys m q second gs r) :
    Enters pf keys m p (first ++ second) (fs ++ gs) r where
  run := run_append_eq_some.mpr ⟨q, h.run, h'.run⟩
  idle := h'.idle
  leftEmpty := h'.leftEmpty
  draft := by rw [List.foldl_append, ← h.draft, h'.draft]
  terminal := by rw [terminalEvents_append, h.terminal, h'.terminal]
  events := by
    rw [(behindLog pf keys).events_append h.run, h.events, h'.events, Draft.allSubmissions_append,
      List.map_append, h.draft]

/-- The handler makes its calls. -/
theorem drain (m : Moment) (calls : List AppEffect) (p : Program) (hcalls : p.calls = calls) :
    ∃ fs q, run (step pf keys) p fs = some q ∧ q.calls = [] ∧ q.ui = p.ui ∧ terminalEvents fs = [] ∧
      (behindLog pf keys).events p fs = (calls.filterMap AppEffect.submission).map (submissionEvent m) := by
  induction calls generalizing p with
  | nil => exact ⟨[], p, run_nil p, hcalls, rfl, rfl, rfl⟩
  | cons call calls ih =>
    have hstep := @step_call pf keys p m call calls hcalls
    obtain ⟨fs, q, hrun, hidle, hui, hterminal, hevents⟩ :=
      ih ({ p with calls := calls }.perform pf m call) (perform_calls _ m call)
    refine ⟨.call m :: fs, q, run_cons_eq_some.mpr ⟨_, hstep, hrun⟩, hidle, hui.trans (perform_ui _ m call),
      hterminal, ?_⟩
    rw [(behindLog pf keys).events_cons hstep, hevents]
    change (appEvent p (.call m)).toList ++ _ = _
    rw [appEvent_call m hcalls]
    cases hcall : call.submission with
    | none => rw [List.filterMap_cons_none hcall]; rfl
    | some submission => rw [List.filterMap_cons_some hcall]; rfl

theorem exists_enters_one (m : Moment) {p : Program} (hidle : p.calls = []) (hempty : App.LeftEmpty p.ui)
    (event : Event) : ∃ fs q, Enters pf keys m p [event] fs q := by
  have hfollows := @follows_event keys p m {} event hempty hidle
  have hasks := @App.catchEvent_asks keys (p.surroundings m {}) p.ui event rfl rfl
  have hstep : step pf keys p (.event m {} event) = some
      { p with
        ui := (p.ui.catchEvent keys (p.surroundings m {}) event).app
        calls := (p.ui.catchEvent keys (p.surroundings m {}) event).effects } := by
    rw [step, hidle]
    rfl
  obtain ⟨fs, q, hrun, hdone, hui, hterminal, hevents⟩ := @drain pf keys m _ _ rfl
  refine ⟨.event m {} event :: fs, q, run_cons_eq_some.mpr ⟨_, hstep, hrun⟩, hdone, ?_, ?_, ?_, ?_⟩
  · rw [hui]
    exact hfollows.leftEmpty
  · rw [hui]
    exact hfollows.draft
  · change event :: terminalEvents fs = [event]
    rw [hterminal]
  · rw [(behindLog pf keys).events_cons hstep, hevents, hasks.submissions, Draft.allSubmissions,
      Draft.allSubmissions, List.append_nil]
    rfl

theorem exists_enters (m : Moment) {p : Program} (hidle : p.calls = []) (hempty : App.LeftEmpty p.ui)
    (events : List Event) : ∃ fs q, Enters pf keys m p events fs q := by
  induction events generalizing p with
  | nil => exact ⟨[], p, run_nil p, hidle, hempty, rfl, rfl, rfl⟩
  | cons event events ih =>
    obtain ⟨fs, q, hfirst⟩ := @exists_enters_one pf keys m p hidle hempty event
    obtain ⟨gs, r, hrest⟩ := ih hfirst.idle hfirst.leftEmpty
    exact ⟨fs ++ gs, r, hfirst.append hrest⟩

/-! ## Exiting -/

theorem printable_ne (keys : SpecialKeys) {c : UInt8} (hlow : 32 ≤ c) (hhigh : c < 127) :
    [c] ≠ keys.escape ∧ [c] ≠ keys.returnKey ∧ [c] ≠ keys.backspace := by
  have h := keys.notPrintable c hlow hhigh
  simp only [List.mem_cons, not_or] at h
  exact ⟨h.1, h.2.1, h.2.2.1⟩

/-- Escape, `:`, `q` and Return. -/
def quitKeys (keys : SpecialKeys) : List Event :=
  [{ isCharacter := false, input := keys.escape }, .character (lit ":"), .character (lit "q"),
    { isCharacter := false, input := keys.returnKey }]

theorem next_escape (draft : Draft) :
    draft.next keys { isCharacter := false, input := keys.escape } = .nothing := by
  have hleaves : Draft.leaves keys { isCharacter := false, input := keys.escape } = true :=
    decide_eq_true (Or.inl rfl)
  cases draft with
  | nothing =>
    have hi : keys.escape ≠ lit "i" := (printable_ne keys (by decide) (by decide)).1.symm
    have hcolon : keys.escape ≠ lit ":" := (printable_ne keys (by decide) (by decide)).1.symm
    have hslash : keys.escape ≠ lit "/" := (printable_ne keys (by decide) (by decide)).1.symm
    rw [Draft.next, if_neg hi, if_neg hcolon, if_neg hslash]
  | key | query | command => rw [Draft.next, hleaves, if_pos rfl]

/-- A printable character is added to a text that has room for it. -/
theorem leaves_printable {c : UInt8} (hlow : 32 ≤ c) (hhigh : c < 127) :
    Draft.leaves keys (.character [c]) = false := by
  obtain ⟨hescape, hreturn, -⟩ := printable_ne keys hlow hhigh
  exact decide_eq_false (not_or.mpr ⟨hescape, hreturn⟩)

theorem edited_printable {c : UInt8} (hlow : 32 ≤ c) (hhigh : c < 127) {text : Str}
    (hroom : text.length < kMaxInputLength) : App.edited keys text (.character [c]) = text ++ [c] := by
  rw [App.edited_character, if_neg (printable_ne keys hlow hhigh).2.2, App.typed_of_lt hroom]
  rfl

theorem everExits_quitKeys (draft : Draft) : draft.everExits keys (quitKeys keys) = true := by
  have hq : (Draft.command []).next keys (.character (lit "q")) = .command (lit "q") := by
    have hlit : lit "q" = [113] := rfl
    rw [Draft.next, hlit, leaves_printable (by decide) (by decide), if_neg Bool.false_ne_true,
      edited_printable (by decide) (by decide) (by decide)]
    rfl
  have hreturn : (Draft.command (lit "q")).exits keys { isCharacter := false, input := keys.returnKey } =
      true := by
    rw [Draft.exits, decide_eq_true_eq]
    exact ⟨rfl, by decide⟩
  have hcolon : Draft.nothing.next keys (.character (lit ":")) = .command [] := rfl
  rw [quitKeys, Draft.everExits, next_escape, Draft.everExits, hcolon, Draft.everExits, hq, Draft.everExits,
    hreturn, Bool.true_or, Bool.or_true, Bool.or_true, Bool.or_true]

/-- When Escape and `:q` have come and all calls have been made, the wish to exit is there. -/
theorem exiting_of_quitKeys {m : Moment} {es fs : List ProgramEvent} {p q : Program}
    (hrun : run (step pf keys) (start m) es = some p) (hmore : run (step pf keys) p fs = some q)
    (hkeys : terminalEvents fs = quitKeys keys) (hidle : q.calls = []) : q.exiting = true := by
  have hall : run (step pf keys) (start m) (es ++ fs) = some q :=
    run_append_eq_some.mpr ⟨p, hrun, hmore⟩
  have hexits := (obeys_run hall).2.exits
  rw [terminalEvents_append, hkeys, Draft.everExits_append, everExits_quitKeys, Bool.or_true, hidle] at hexits
  exact (hexits.mpr rfl).resolve_right List.not_mem_nil

/-- **One can always exit**: in every state that the program reaches, Escape and `:q` can be typed, and however they
come, among whatever else happens, once the handler has made its calls the wish to exit is there. -/
theorem can_quit {m : Moment} {es : List ProgramEvent} {p : Program}
    (hrun : run (step pf keys) (start m) es = some p) (m' : Moment) :
    (∃ fs q, run (step pf keys) p fs = some q ∧ terminalEvents fs = quitKeys keys ∧ q.calls = [] ∧
      q.exiting = true) ∧
    ∀ fs q, run (step pf keys) p fs = some q → terminalEvents fs = quitKeys keys → q.calls = [] →
      q.exiting = true := by
  refine ⟨?_, fun fs q => exiting_of_quitKeys hrun⟩
  obtain ⟨fs, q, hdrain, hidle, hui, hterminal, -⟩ := @drain pf keys m' _ p rfl
  have hempty : App.LeftEmpty q.ui := hui.symm ▸ (obeys_run hrun).1
  obtain ⟨gs, r, henters⟩ := @exists_enters pf keys m' q hidle hempty (quitKeys keys)
  have hmore : run (step pf keys) p (fs ++ gs) = some r := run_append_eq_some.mpr ⟨q, hdrain, henters.run⟩
  have hkeys : terminalEvents (fs ++ gs) = quitKeys keys := by
    rw [terminalEvents_append, hterminal, henters.terminal]
    rfl
  exact ⟨fs ++ gs, r, hmore, hkeys, henters.idle, exiting_of_quitKeys hrun hmore hkeys henters.idle⟩

/-- In the middle of a command. -/
theorem can_quit_command : ∃ p,
    run (step samplePlatform terminalKeys) (start {}) [.event {} {} (.character (lit ":")),
      .event {} {} (.character (lit "w"))] = some p ∧
    (∃ fs q, run (step samplePlatform terminalKeys) p fs = some q ∧
      terminalEvents fs = quitKeys terminalKeys ∧ q.exiting = true) ∧
    ∀ fs q, run (step samplePlatform terminalKeys) p fs = some q →
      terminalEvents fs = quitKeys terminalKeys → q.calls = [] → q.exiting = true := by
  obtain ⟨⟨fs, q, hrun, hterminal, -, hexiting⟩, hall⟩ := @can_quit samplePlatform terminalKeys {}
    [.event {} {} (.character (lit ":")), .event {} {} (.character (lit "w"))] _ rfl {}
  exact ⟨_, rfl, ⟨fs, q, hrun, hterminal, hexiting⟩, hall⟩

/-! ## Typing a submission -/

/-- The text is typed with the keys for printable characters, fits, and Return submits it. -/
structure CanBeTyped (submission : Submission) : Prop where
  printable : ∀ c ∈ submission.text, 32 ≤ c ∧ c < 127
  fits : submission.text.length ≤ kMaxInputLength
  submits : Draft.keySubmissions (trimCopy submission.text) = [submission]

/-- The events for the characters of a text. -/
def characters (text : Str) : List Event := text.map fun c => .character [c]

/-- `i`, the text and Return. -/
def submissionKeys (keys : SpecialKeys) (submission : Submission) : List Event :=
  .character (lit "i") :: (characters submission.text ++ [{ isCharacter := false, input := keys.returnKey }])

theorem foldl_characters (text before : Str) (hprintable : ∀ c ∈ text, 32 ≤ c ∧ c < 127)
    (hfits : before.length + text.length ≤ kMaxInputLength) :
    (characters text).foldl (Draft.next keys) (.key before) = .key (before ++ text) ∧
      (Draft.key before).allSubmissions keys (characters text) = [] := by
  induction text generalizing before with
  | nil => exact ⟨by rw [List.append_nil]; rfl, rfl⟩
  | cons c text ih =>
    obtain ⟨hc, hrest⟩ := List.forall_mem_cons.mp hprintable
    rw [List.length_cons] at hfits
    have hnext : (Draft.key before).next keys (.character [c]) = .key (before ++ [c]) := by
      rw [Draft.next, leaves_printable hc.1 hc.2, if_neg Bool.false_ne_true,
        edited_printable hc.1 hc.2 (by omega)]
    have hnone : (Draft.key before).submissions keys (.character [c]) = [] :=
      if_neg (printable_ne keys hc.1 hc.2).2.1
    have hlength : (before ++ [c]).length + text.length ≤ kMaxInputLength := by
      rw [List.length_append, List.length_singleton]
      omega
    obtain ⟨hfold, hsubmissions⟩ := ih (before ++ [c]) hrest hlength
    rw [List.append_assoc] at hfold
    constructor
    · change (characters text).foldl (Draft.next keys) ((Draft.key before).next keys (.character [c])) = _
      rw [hnext, hfold]
      rfl
    · change (Draft.key before).submissions keys (.character [c]) ++
        ((Draft.key before).next keys (.character [c])).allSubmissions keys (characters text) = []
      rw [hnone, hnext, hsubmissions]
      rfl

theorem submissionKeys_submit {submission : Submission} (h : CanBeTyped submission) :
    (submissionKeys keys submission).foldl (Draft.next keys) .nothing = .nothing ∧
      Draft.nothing.allSubmissions keys (submissionKeys keys submission) = [submission] := by
  have hopens : Draft.nothing.next keys (.character (lit "i")) = .key [] := rfl
  have hleaves : Draft.leaves keys { isCharacter := false, input := keys.returnKey } = true :=
    decide_eq_true (Or.inr rfl)
  obtain ⟨hfold, hnone⟩ := @foldl_characters keys submission.text [] h.printable
    (by rw [List.length_nil, Nat.zero_add]; exact h.fits)
  rw [List.nil_append] at hfold
  constructor
  · rw [submissionKeys, List.foldl_cons, hopens, List.foldl_append, hfold, List.foldl_cons, List.foldl_nil,
      Draft.next, hleaves, if_pos rfl]
  · rw [submissionKeys, Draft.allSubmissions, Draft.submissions_nothing, hopens, Draft.allSubmissions_append,
      hnone, hfold, Draft.allSubmissions, Draft.allSubmissions, Draft.submissions, if_pos rfl]
    exact congrArg (· ++ []) h.submits

/-! ## Every run of the machine of `main.cpp` -/

/-- A program at rest, behind which is this state. -/
structure AtRest (a : Application) (p : Program) : Prop where
  app : p.app.silent = a.silent
  idle : p.calls = []
  leftEmpty : App.LeftEmpty p.ui
  draft : p.ui.draft = .nothing

/-- What happens behind the program is what happens to the state. -/
theorem silent_of_events {a b : Application} {p q : Program} {e : AppEvent} {fs : List ProgramEvent}
    (happ : p.app.silent = a.silent) (hstep : Application.step pf a e = some b)
    (hrun : run (step pf keys) p fs = some q) (hevents : (behindLog pf keys).events p fs = [e]) :
    q.app.silent = b.silent := by
  have hbehind := (behindLog pf keys).run_events hrun
  rw [hevents] at hbehind
  change run (Application.silentStep pf) p.app.silent [e] = some q.app.silent at hbehind
  rw [happ, run_cons, ← Application.silent_step, hstep] at hbehind
  exact (Option.some.inj hbehind).symm

theorem step_isSome {a b : Application} {p : Program} {e : AppEvent} (happ : p.app.silent = a.silent)
    (hstep : Application.step pf a e = some b) : ∃ b', Application.step pf p.app e = some b' := by
  have hsilent : (Application.step pf p.app e).map Application.silent = some b.silent := by
    rw [Application.silent_step, happ, ← Application.silent_step, hstep]
    rfl
  obtain ⟨b', hb', -⟩ := Option.map_eq_some_iff.mp hsilent
  exact ⟨b', hb'⟩

theorem AtRest.step {a b : Application} {p : Program} {e : AppEvent} (h : AtRest a p)
    (hstep : Application.step pf a e = some b)
    (htyped : ∀ submission ∈ e.submission, CanBeTyped submission) :
    ∃ fs q, run (Program.step pf keys) p fs = some q ∧ (behindLog pf keys).events p fs = [e] ∧
      terminalEvents fs = e.submission.toList.flatMap (submissionKeys keys) ∧ AtRest b q := by
  have htype : ∀ m submission, e = submissionEvent m submission → CanBeTyped submission →
      ∃ fs q, run (Program.step pf keys) p fs = some q ∧ (behindLog pf keys).events p fs = [e] ∧
        terminalEvents fs = e.submission.toList.flatMap (submissionKeys keys) ∧ AtRest b q := by
    rintro m submission rfl hcan
    obtain ⟨hfold, hsubmit⟩ := @submissionKeys_submit keys submission hcan
    obtain ⟨fs, q, henters⟩ :=
      @exists_enters pf keys m p h.idle h.leftEmpty (submissionKeys keys submission)
    have hevents := henters.events
    have hdraft := henters.draft
    rw [h.draft, hsubmit] at hevents
    rw [h.draft, hfold] at hdraft
    refine ⟨fs, q, henters.run, hevents, ?_,
      silent_of_events h.app hstep henters.run hevents, henters.idle, henters.leftEmpty, hdraft⟩
    rw [henters.terminal, submission_submissionEvent, Option.toList_some, List.flatMap_singleton]
  cases e with
  | npubSubmit m npub => exact htype m (.npub npub) rfl (htyped _ rfl)
  | nsecSubmit m nsec => exact htype m (.nsec nsec) rfl (htyped _ rfl)
  | bootstrapCompletes m behaviour =>
    obtain ⟨b', hb'⟩ := step_isSome h.app hstep
    have hp : Program.step pf keys p (.bootstrapCompletes m behaviour) = some { p with app := b' } := by
      rw [Program.step, hb']
      rfl
    have hrun := run_cons_eq_some.mpr ⟨_, hp, run_nil _⟩
    have hevents := (behindLog pf keys).events_singleton hp
    exact ⟨_, _, hrun, hevents, rfl, silent_of_events h.app hstep hrun hevents, h.idle, h.leftEmpty, h.draft⟩
  | session m group i io =>
    obtain ⟨b', hb'⟩ := step_isSome h.app hstep
    have hp : Program.step pf keys p (.session m group i io) = some { p with app := b' } := by
      rw [Program.step, hb']
      rfl
    have hrun := run_cons_eq_some.mpr ⟨_, hp, run_nil _⟩
    have hevents := (behindLog pf keys).events_singleton hp
    exact ⟨_, _, hrun, hevents, rfl, silent_of_events h.app hstep hrun hevents, h.idle, h.leftEmpty, h.draft⟩

theorem AtRest.run {a b : Application} {p : Program} {es : List AppEvent} (h : AtRest a p)
    (hrun : run (Application.step pf) a es = some b)
    (htyped : ∀ e ∈ es, ∀ submission ∈ e.submission, CanBeTyped submission) :
    ∃ fs q, Foundations.run (Program.step pf keys) p fs = some q ∧ (behindLog pf keys).events p fs = es ∧
      terminalEvents fs = (es.filterMap AppEvent.submission).flatMap (submissionKeys keys) ∧ AtRest b q := by
  induction es generalizing a p with
  | nil =>
    rw [run_nil, Option.some.injEq] at hrun
    exact ⟨[], p, run_nil p, rfl, rfl, hrun ▸ h⟩
  | cons e es ih =>
    obtain ⟨a', hstep, hrest⟩ := run_cons_eq_some.mp hrun
    obtain ⟨hfirst, htyped'⟩ := List.forall_mem_cons.mp htyped
    obtain ⟨fs, q, hfs, hevents, hterminal, hq⟩ := @AtRest.step pf keys a a' p e h hstep hfirst
    obtain ⟨gs, r, hgs, hevents', hterminal', hr⟩ := ih hq hrest htyped'
    refine ⟨fs ++ gs, r, run_append_eq_some.mpr ⟨q, hfs, hgs⟩, ?_, ?_, hr⟩
    · rw [(behindLog pf keys).events_append hfs, hevents, hevents']
      rfl
    · rw [terminalEvents_append, hterminal, hterminal']
      cases hsubmission : e.submission with
      | none => rw [List.filterMap_cons_none hsubmission]; rfl
      | some submission =>
        rw [List.filterMap_cons_some hsubmission, List.flatMap_cons, Option.toList_some, List.flatMap_singleton]

/-- **Everything can be typed**: every run of the machine of `main.cpp` whose submissions can be typed is
behind a run of the program. -/
theorem program_realises {m : Moment} {es : List AppEvent} {app : Application}
    (hrun : run (Application.step pf) (Application.start m) es = some app)
    (htyped : ∀ e ∈ es, ∀ submission ∈ e.submission, CanBeTyped submission) :
    ∃ fs p, run (step pf keys) (start m) fs = some p ∧ (behindLog pf keys).events (start m) fs = es ∧
      p.app.silent = app.silent := by
  have hstart : AtRest (Application.start m) (start m) := ⟨rfl, rfl, ⟨fun _ => rfl, fun _ => rfl⟩, rfl⟩
  obtain ⟨fs, p, hfs, hevents, -, hp⟩ := @AtRest.run pf keys _ _ _ _ hstart hrun htyped
  exact ⟨fs, p, hfs, hevents, hp.app⟩

theorem canBeTyped_sampleNpub : CanBeTyped (.npub (sampleNpub 1)) :=
  ⟨by decide +kernel, by decide +kernel, by decide +kernel⟩

theorem program_realises_npub : ∃ app fs p,
    run (Application.step samplePlatform) (Application.start {})
      [.npubSubmit {} (sampleNpub 1), .bootstrapCompletes {} (seedsKnow sampleRelay)] = some app ∧
    run (step samplePlatform terminalKeys) (start {}) fs = some p ∧ p.app.silent = app.silent := by
  have htyped : ∀ e ∈ [AppEvent.npubSubmit {} (sampleNpub 1), .bootstrapCompletes {} (seedsKnow sampleRelay)],
      ∀ submission ∈ e.submission, CanBeTyped submission := by
    intro e he submission hsubmission
    rcases List.mem_pair.mp he with rfl | rfl
    · obtain rfl := Option.mem_some_iff.mp hsubmission
      exact canBeTyped_sampleNpub
    · cases hsubmission
  have hseen : (run (Application.step samplePlatform) (Application.start {})
      [.npubSubmit {} (sampleNpub 1), .bootstrapCompletes {} (seedsKnow sampleRelay)]).isSome = true := by
    decide +kernel
  obtain ⟨app, hrun⟩ := Option.isSome_iff_exists.mp hseen
  obtain ⟨fs, p, hfs, -, hp⟩ := @program_realises samplePlatform terminalKeys {} _ app hrun htyped
  exact ⟨app, fs, p, hrun, hfs, hp⟩

end Program
end Monitostr.Main
