import Monitostr.Main.SessionLives
import Monitostr.Net.WindDown

/-! # Forgotten sessions come to their end

`StopAll` forgets the sessions; what keeps them alive are their queued handlers and the operations in
flight. However the program goes on, there is a bound on the steps that each of them still takes, and when it can
take none, nothing is left that keeps it alive.
-/

namespace Monitostr.Main
open Foundations Foundations.Behaviour Model Net Nostr
set_option autoImplicit false

variable {pf : Platform}

/-- A step of the forgotten session at this position. -/
def actsOnForgotten (i : ℕ) : AppEvent → Bool
  | .session _ .retired j _ => i = j
  | .session _ .running _ _ | .npubSubmit _ _ | .nsecSubmit _ _ | .bootstrapCompletes _ _ => false

/-- Every forgotten session has been told to stop. -/
def ForgottenStop (app : Application) : Prop :=
  ∀ session ∈ app.sessionManager.retired, ToldToStop session

theorem windsDown_io {session session' : SessionObject} {m : Moment} {io : SessionIo}
    {effects : List Effect} {front back : List (Item SessionCall AsyncOp Outcome)}
    (h : WindsDown sessionWeights (fun s : RelaySession => s.stopped = true) session front back)
    (hreact : (sessionBehaviour pf).react session (io.event m) = some (session', effects)) :
    ∃ front' back',
      WindsDown sessionWeights (fun s : RelaySession => s.stopped = true) session' front' back' ∧
        potential sessionWeights session' front' back' + 1 ≤ potential sessionWeights session front back := by
  have hown : isOwn (io.event m) = true := by cases io <;> rfl
  have hfree : cost sessionWeights (io.event m) = 0 := by cases io <;> rfl
  have hbound := h.react (session_draining pf) (by cases io <;> rintro _ ⟨⟩) hreact
  rwa [hown, hfree] at hbound

/-- A step of the program at the position of a forgotten session. -/
theorem forgotten_step {app app' : Application} {e : AppEvent} {i : ℕ} {session : SessionObject}
    {front back : List (Item SessionCall AsyncOp Outcome)} (h : Application.step pf app e = some app')
    (hi : app.sessionManager.retired[i]? = some session)
    (hsession : WindsDown sessionWeights (fun s : RelaySession => s.stopped = true) session front back) :
    ∃ session' front' back', app'.sessionManager.retired[i]? = some session' ∧
      WindsDown sessionWeights (fun s : RelaySession => s.stopped = true) session' front' back' ∧
      potential sessionWeights session' front' back' + (actsOnForgotten i e).toNat ≤
        potential sessionWeights session front back := by
  have hsame : app'.sessionManager.retired[i]? = some session → actsOnForgotten i e = false →
      ∃ session' front' back', app'.sessionManager.retired[i]? = some session' ∧
        WindsDown sessionWeights (fun s : RelaySession => s.stopped = true) session' front' back' ∧
        potential sessionWeights session' front' back' + (actsOnForgotten i e).toNat ≤
          potential sessionWeights session front back := by
    intro hi' hacts
    exact ⟨session, front, back, hi', hsession, by rw [hacts]; exact Nat.le_refl _⟩
  cases Application.step_moves h with
  | rejectedNpub | npub | rejectedNsec | nsec | newKey | bootstrapFails => exact hsame hi rfl
  | bootstrapSucceeds m behaviour bootstrap rest logBuffer =>
    refine hsame ?_ rfl
    have hlt := (List.getElem?_eq_some_iff.mp hi).1
    exact (List.getElem?_append_left hlt).trans hi
  | session m group j io manager effects logBuffer hreact =>
    unfold SessionManager.react at hreact
    cases group with
    | running =>
      obtain ⟨⟨sessions, effects'⟩, -, heq⟩ := Option.map_eq_some_iff.mp hreact
      obtain ⟨rfl, rfl⟩ := Prod.mk.inj heq
      exact hsame hi rfl
    | retired =>
      obtain ⟨⟨retired, effects'⟩, hreactAt, heq⟩ := Option.map_eq_some_iff.mp hreact
      obtain ⟨rfl, rfl⟩ := Prod.mk.inj heq
      obtain ⟨acting, acted, hacting, hone, rfl⟩ := reactAt_eq_some.mp hreactAt
      by_cases hij : i = j
      · subst hij
        obtain rfl := Option.some.inj (hi.symm.trans hacting)
        obtain ⟨front', back', hafter, hless⟩ := windsDown_io hsession hone
        have hlt := (List.getElem?_eq_some_iff.mp hi).1
        refine ⟨acted, front', back', List.getElem?_set_self hlt, hafter, ?_⟩
        rw [actsOnForgotten, decide_eq_true rfl]
        exact hless
      · refine hsame ?_ (decide_eq_false hij)
        exact (List.getElem?_set_ne (Ne.symm hij)).trans hi

theorem forgotten_run {app app' : Application} {es : List AppEvent} {i : ℕ} {session : SessionObject}
    {front back : List (Item SessionCall AsyncOp Outcome)}
    (h : run (Application.step pf) app es = some app')
    (hi : app.sessionManager.retired[i]? = some session)
    (hsession : WindsDown sessionWeights (fun s : RelaySession => s.stopped = true) session front back) :
    es.countP (actsOnForgotten i) ≤ potential sessionWeights session front back ∧
      ∃ session', app'.sessionManager.retired[i]? = some session' := by
  let I (app : Application) (n : ℕ) : Prop := ∃ session front back,
    app.sessionManager.retired[i]? = some session ∧
      WindsDown sessionWeights (fun s : RelaySession => s.stopped = true) session front back ∧
      potential sessionWeights session front back = n
  have hkeep : ∀ app e app' n, I app n → Application.step pf app e = some app' →
      ∃ n', I app' n' ∧ n' + (actsOnForgotten i e).toNat ≤ n := by
    rintro app e app' n ⟨session, front, back, hi, hsession, rfl⟩ hstep
    obtain ⟨session', front', back', hi', hsession', hle⟩ := forgotten_step hstep hi hsession
    exact ⟨_, ⟨session', front', back', hi', hsession', rfl⟩, hle⟩
  obtain ⟨hbound, n', session', front', back', hi', -, -⟩ :=
    run_countP_le hkeep ⟨session, front, back, hi, hsession, rfl⟩ h
  exact ⟨hbound, session', hi'⟩

theorem ForgottenStop.step {app app' : Application} {e : AppEvent} (hs : ForgottenStop app)
    (h : Application.step pf app e = some app') : ForgottenStop app' := by
  cases Application.step_moves h with
  | rejectedNpub | npub | rejectedNsec | nsec | newKey | bootstrapFails => exact hs
  | bootstrapSucceeds m behaviour bootstrap rest logBuffer =>
    refine List.forall_mem_append.mpr ⟨hs, fun session hsession => ?_⟩
    obtain ⟨running, -, rfl⟩ := List.mem_map.mp hsession
    exact .dispatch
  | session m group j io manager effects logBuffer hreact =>
    unfold SessionManager.react at hreact
    cases group with
    | running =>
      obtain ⟨⟨sessions, effects'⟩, -, heq⟩ := Option.map_eq_some_iff.mp hreact
      obtain ⟨rfl, rfl⟩ := Prod.mk.inj heq
      exact hs
    | retired =>
      obtain ⟨⟨retired, effects'⟩, hreactAt, heq⟩ := Option.map_eq_some_iff.mp hreact
      obtain ⟨rfl, rfl⟩ := Prod.mk.inj heq
      refine forall_reactAt hreactAt hs fun o o' ho hone => ?_
      obtain ⟨front, back, hwinds⟩ := ho
      obtain ⟨front', back', hafter, -⟩ := windsDown_io hwinds hone
      exact ⟨front', back', hafter⟩

/-- The session can take no step. -/
def Stuck (pf : Platform) (app : Application) (i : ℕ) : Prop :=
  ∀ m io, Application.step pf app (.session m .retired i io) = none

/-- It can take none exactly when none is enabled in the session itself. -/
theorem stuck_iff {app : Application} {i : ℕ} {session : SessionObject}
    (hi : app.sessionManager.retired[i]? = some session) :
    Stuck pf app i ↔ ∀ m io, (sessionBehaviour pf).react session (SessionIo.event m io) = none := by
  refine forall_congr' fun m => forall_congr' fun io => ?_
  rw [Application.step, SessionManager.react, reactAt, hi, Option.bind_some, Option.map_eq_none_iff,
    Option.map_eq_none_iff, Option.map_eq_none_iff]

theorem stuck_iff_drained {app : Application} {i : ℕ} {session : SessionObject}
    (hi : app.sessionManager.retired[i]? = some session) : Stuck pf app i ↔ Drained session := by
  rw [stuck_iff hi]
  constructor
  · intro h
    refine drained_of_stuck pf fun e session' hown hstep => ?_
    obtain ⟨effects, hreact⟩ := step_eq_some.mp hstep
    cases e with
    | call c => cases hown
    | finish j o => exact Option.some_ne_none _ (hreact.symm.trans (h {} (.finish j o)))
    | run m => exact Option.some_ne_none _ (hreact.symm.trans (h m .run))
  · intro h m io
    refine Option.eq_none_iff_forall_ne_some.mpr fun ⟨o', effects⟩ hreact => ?_
    cases io with
    | finish j o =>
      obtain ⟨p, hp, -⟩ := react_finish hreact
      rw [h.2] at hp
      cases hp
    | run =>
      obtain ⟨item, rest, hq, -⟩ := react_run hreact
      rw [h.1] at hq
      cases hq

/-- **Forgotten sessions come to their end.** In every run of the program, a session that has been forgotten
takes a bounded number of further steps, whatever the submissions, the bootstraps, the other sessions and the
network do; and it can take none exactly when no handler and no operation of it is left. -/
theorem forgotten_sessions_end (pf : Platform) (m : Moment) {es fs : List AppEvent} {app app' : Application}
    (hrun : run (Application.step pf) (Application.start m) es = some app)
    (hmore : run (Application.step pf) app fs = some app') {i : ℕ} {session : SessionObject}
    (hi : app.sessionManager.retired[i]? = some session) :
    fs.countP (actsOnForgotten i) ≤ stepsLeft session ∧
      ∃ session', app'.sessionManager.retired[i]? = some session' ∧
        (Stuck pf app' i ↔ Drained session') := by
  have hstart : ForgottenStop (Application.start m) := List.forall_mem_nil _
  have hforgotten : ForgottenStop app := run_invariant (fun _ _ _ hs h => hs.step h) hstart hrun
  obtain ⟨front, back, hwinds⟩ := hforgotten session (List.mem_of_getElem? hi)
  obtain ⟨hbound, session', hi'⟩ := forgotten_run hmore hi hwinds
  exact ⟨Nat.le_trans hbound (potential_le hwinds), session', hi', stuck_iff_drained hi'⟩

/-- A second npub is monitored, and the session of the first is forgotten. -/
def forgetSample : List AppEvent :=
  [.npubSubmit {} (sampleNpub 1), .bootstrapCompletes {} (seedsKnow sampleRelay),
    .npubSubmit {} (sampleNpub 3), .bootstrapCompletes {} (seedsKnow sampleRelay)]

/-- Its handlers run, and the host lookup that `Stop` has cancelled is aborted. -/
def endSample : List AppEvent :=
  [.session {} .retired 0 .run, .session {} .retired 0 .run, .session {} .retired 0 .run,
    .session {} .retired 0 (.finish 0 { ec := some kOperationAborted }), .session {} .retired 0 .run]

/-- The session takes five steps and then none. -/
theorem forgotten_sessions_end_sample : ∃ app app' session session',
    run (Application.step samplePlatform) (Application.start {}) forgetSample = some app ∧
    run (Application.step samplePlatform) app endSample = some app' ∧
    app.sessionManager.retired[0]? = some session ∧ ¬ Drained session ∧ 5 ≤ stepsLeft session ∧
    app'.sessionManager.retired[0]? = some session' ∧ Drained session' ∧ Stuck samplePlatform app' 0 := by
  have hseen : ((run (Application.step samplePlatform) (Application.start {}) forgetSample).bind fun app =>
      (run (Application.step samplePlatform) app endSample).bind fun app' =>
        app.sessionManager.retired[0]?.bind fun session => app'.sessionManager.retired[0]?.map fun session' =>
          (session.queue.length, session'.queue.length, session'.inFlight.length)) = some (3, 0, 0) := by
    decide +kernel
  obtain ⟨app, hrun, hseen⟩ := Option.bind_eq_some_iff.mp hseen
  obtain ⟨app', hmore, hseen⟩ := Option.bind_eq_some_iff.mp hseen
  obtain ⟨session, hi, hseen⟩ := Option.bind_eq_some_iff.mp hseen
  obtain ⟨session', hi', hlengths⟩ := Option.map_eq_some_iff.mp hseen
  simp only [Prod.mk.injEq] at hlengths
  obtain ⟨hqueue, hqueue', hinFlight'⟩ := hlengths
  have hdrained : Drained session' :=
    ⟨List.eq_nil_of_length_eq_zero hqueue', List.eq_nil_of_length_eq_zero hinFlight'⟩
  obtain ⟨hbound, ended, hended, hstuck⟩ := forgotten_sessions_end samplePlatform {} hrun hmore hi
  obtain rfl := Option.some.inj (hi'.symm.trans hended)
  refine ⟨app, app', session, session', hrun, hmore, hi, fun h => ?_, hbound, hi', hdrained,
    hstuck.mpr hdrained⟩
  rw [h.1] at hqueue
  cases hqueue

end Monitostr.Main
