import Monitostr.Main.Control
import Monitostr.Net.SeedOrder

/-! # The key and the pubkey of the running sessions

Both are decided when a bootstrap completes: the new sessions have its pubkey and the key that was
set when it was submitted, and a failure keeps the sessions of an earlier submission. What is shown
in the header and what `auth_key` holds are changed at submission, and a later `:auth` reaches only
the sessions that run by then.
-/

namespace Monitostr.Main
open Foundations Model Net Nip19 Nostr
set_option autoImplicit false

namespace Application

/-! ## The key -/

/-- With no bootstrap pending, every session has the key of `main` once its handlers have run. -/
def HoldCurrentKey (app : Application) : Prop :=
  app.pending = [] → ∀ session ∈ app.sessionManager.sessions, keyWhenRun session = app.authKey

/-- When the last pending bootstrap succeeds, no key was accepted since its submission; when it fails,
the sessions that stay have the current key. -/
def SnapshotCurrent (pf : Platform) (app : Application) (e : AppEvent) : Prop :=
  ∀ m behaviour bootstrap, e = .bootstrapCompletes m behaviour → app.pending = [bootstrap] →
    if (resolveRelaysForPubkey pf bootstrap.hexPubkey kDefaultSeed behaviour).1.ok then
      bootstrap.authKeySnapshot = app.authKey
    else ∀ session ∈ app.sessionManager.sessions, keyWhenRun session = app.authKey

variable {pf : Platform}

theorem pending_control {app : Application} : (control app).pending = [] ↔ app.pending = [] := by
  rw [control, List.map_eq_nil_iff]

theorem pending_control_singleton {app : Application} {bootstrap : PendingBootstrap}
    (h : app.pending = [bootstrap]) : (control app).pending = [request bootstrap] := by
  rw [control, h]
  rfl

theorem pending_of_control_length {app : Application} {bootstrap : PendingBootstrap}
    {rest : List PendingBootstrap} (h : app.pending = bootstrap :: rest)
    (hlen : (control app).pending.length = 1) : app.pending = [bootstrap] := by
  rw [control, List.length_map, h, List.length_cons, Nat.succ_inj, List.length_eq_zero_iff] at hlen
  rw [h, hlen]

theorem inSync_control {app : Application} : Handover.InSync (control app) ↔
    ∀ session ∈ app.sessionManager.sessions, keyWhenRun session = app.authKey := by
  rw [Handover.InSync, control, List.forall_mem_map]
  exact Iff.rfl

theorem holdCurrentKey_iff {app : Application} : HoldCurrentKey app ↔
    ((control app).pending = [] → Handover.InSync (control app)) := by
  rw [pending_control, inSync_control]
  exact Iff.rfl

theorem guard_iff {G : Handover.State Str AuthKey Str → Handover.Event Str AuthKey Str → Prop}
    (hother : ∀ s a, (∀ ps, a ≠ .complete ps) → G s a) {app : Application} {e : AppEvent} :
    (handover pf).guard G app e ↔
      ∀ m behaviour bootstrap rest, e = .bootstrapCompletes m behaviour →
        app.pending = bootstrap :: rest → G (control app)
          (.complete (places (resolveRelaysForPubkey pf bootstrap.hexPubkey kDefaultSeed behaviour).1)) := by
  constructor
  · rintro hG m behaviour bootstrap rest rfl hpending
    refine hG _ ?_
    change app.pending.head?.map _ = _
    rw [hpending]
    rfl
  · intro h a ha
    change controlEvent pf app e = some a at ha
    cases e with
    | bootstrapCompletes m behaviour =>
      obtain ⟨bootstrap, hhead, rfl⟩ := Option.map_eq_some_iff.mp ha
      obtain ⟨rest, hpending⟩ := List.head?_eq_some_iff.mp hhead
      exact h m behaviour bootstrap rest rfl hpending
    | npubSubmit m npub =>
      refine hother _ a fun ps hps => ?_
      rw [hps, controlEvent] at ha
      split at ha <;> cases ha
    | nsecSubmit m nsec =>
      refine hother _ a fun ps hps => ?_
      rw [hps] at ha
      obtain ⟨key, -, hkey⟩ := Option.map_eq_some_iff.mp ha
      cases hkey
    | session m group i io => cases ha

theorem fresh_iff {app : Application} {e : AppEvent} :
    (handover pf).guard Handover.Fresh app e ↔ SnapshotCurrent pf app e := by
  rw [guard_iff fun s a ha => ?_]
  · constructor
    · intro h m behaviour bootstrap he hpending
      have hfresh := h m behaviour bootstrap [] he hpending
      rw [places] at hfresh
      split
      · next hok =>
        rw [if_pos hok] at hfresh
        exact hfresh (request bootstrap) (pending_control_singleton hpending)
          (resolve_relayUrls_ne_nil hok)
      · next hok =>
        rw [if_neg hok] at hfresh
        refine inSync_control.mp (hfresh ?_)
        rw [pending_control_singleton hpending, List.length_singleton]
    · intro h m behaviour bootstrap rest he hpending
      rw [places]
      split
      · next hok =>
        intro r hr _
        rw [control, hpending, List.map_cons, List.cons.injEq, List.map_eq_nil_iff] at hr
        obtain ⟨rfl, rfl⟩ := hr
        have hcurrent := h m behaviour bootstrap he hpending
        rw [if_pos hok] at hcurrent
        exact hcurrent
      · next hok =>
        intro hlen
        have hcurrent := h m behaviour bootstrap he (pending_of_control_length hpending hlen)
        rw [if_neg hok] at hcurrent
        exact inSync_control.mpr hcurrent
  · cases a with
    | complete ps => exact absurd rfl (ha ps)
    | _ => trivial

/-- **The sessions hold the current key**: in a run of the program, whenever no bootstrap is pending the
sessions have the key of `main` once their handlers have run, exactly when every completion that
empties the queue finds the key unchanged since the submission or, failing, sessions that have it. -/
theorem hold_current_key (pf : Platform) (m : Moment) (es : List AppEvent) :
    (Throughout (step pf) HoldCurrentKey (start m) es ↔
      Along (step pf) (SnapshotCurrent pf) (start m) es) ∧
    (Along (step pf) (SnapshotCurrent pf) (start m) es →
      ∀ app, run (step pf) (start m) es = some app → app.pending = [] →
        (∀ session ∈ app.sessionManager.sessions, KeysRun session) →
        ∀ session ∈ app.sessionManager.sessions, session.data.authKey = app.authKey) := by
  have hiff : Throughout (step pf) HoldCurrentKey (start m) es ↔
      Along (step pf) (SnapshotCurrent pf) (start m) es := by
    refine throughout_iff_along (I := fun _ => True) (fun _ _ _ _ _ => trivial) ?_ trivial ?_
    · intro app e app' _ hp h
      rw [← fresh_iff, holdCurrentKey_iff]
      exact (handover pf).step_iff (I := fun _ => True) (fun _ _ _ _ _ => Handover.inSync_step)
        app e app' trivial (holdCurrentKey_iff.mp hp) h
    · intro _ session hsession
      cases hsession
  refine ⟨hiff, fun halong app hrun hpending hrun' session hsession => ?_⟩
  rw [← keyWhenRun_eq (hrun' session hsession)]
  exact (hiff.mpr halong).at_end hrun hpending session hsession

def runFirst : AppEvent := .session {} .running 0 .run

def authWhileMonitoring : List AppEvent :=
  [.npubSubmit {} (sampleNpub 1), .bootstrapCompletes {} (seedsKnow sampleRelay),
    .nsecSubmit {} (sampleNsec 2), runFirst, runFirst, runFirst]

def keysSeen (app : Application) : ℕ × Option AuthKey × List (Option AuthKey × ℕ) :=
  (app.pending.length, app.authKey,
    app.sessionManager.sessions.map fun session => (session.data.authKey, session.queue.length))

def sampleAuthKey (k : UInt8) : Option AuthKey := acceptedKey samplePlatform (sampleNsec k)

theorem of_keysSeen {app : Application} {key held : Option AuthKey}
    (h : keysSeen app = (0, key, [(held, 0)])) : app.pending = [] ∧ app.authKey = key ∧
      ∃ session, app.sessionManager.sessions = [session] ∧ session.data.authKey = held ∧
        KeysRun session := by
  rw [keysSeen, Prod.mk.injEq, Prod.mk.injEq, List.length_eq_zero_iff] at h
  obtain ⟨hpending, hkey, hsessions⟩ := h
  obtain ⟨session, hsingle, hsession⟩ := List.map_eq_singleton_iff.mp hsessions
  rw [Prod.mk.injEq, List.length_eq_zero_iff] at hsession
  obtain ⟨hheld, hqueue⟩ := hsession
  refine ⟨hpending, hkey, session, hsingle, hheld, fun authKey hmem => ?_⟩
  rw [hqueue] at hmem
  cases hmem

theorem snapshotCurrent_of_other {app : Application} {e : AppEvent}
    (he : ∀ m behaviour, e ≠ .bootstrapCompletes m behaviour) : SnapshotCurrent pf app e :=
  fun m behaviour _ h => absurd h (he m behaviour)

theorem hold_current_key_after_auth : ∃ app,
    run (step samplePlatform) (start {}) authWhileMonitoring = some app ∧ app.authKey = sampleAuthKey 2 ∧
      app.sessionManager.sessions.length = 1 ∧
      ∀ session ∈ app.sessionManager.sessions, session.data.authKey = app.authKey := by
  have hseen : (run (step samplePlatform) (start {}) authWhileMonitoring).map keysSeen =
      some (0, sampleAuthKey 2, [(sampleAuthKey 2, 0)]) := by decide +kernel
  obtain ⟨app, hrun, happ⟩ := Option.map_eq_some_iff.mp hseen
  obtain ⟨hpending, hkey, session, hsessions, -, hrun'⟩ := of_keysSeen happ
  have halong : Along (step samplePlatform) (SnapshotCurrent samplePlatform) (start {})
      authWhileMonitoring := by
    intro app₁ h₁
    refine ⟨snapshotCurrent_of_other nofun, fun app₂ _ => ⟨?_, fun app₃ _ =>
      ⟨snapshotCurrent_of_other nofun, fun app₄ _ => ⟨snapshotCurrent_of_other nofun, fun app₅ _ =>
        ⟨snapshotCurrent_of_other nofun, fun app₆ _ => ⟨snapshotCurrent_of_other nofun, trivial⟩⟩⟩⟩⟩⟩
    obtain rfl := Option.some.inj h₁
    intro m behaviour bootstrap _ hpending
    have hsubmitted : ((start {}).onNpubSubmit {} (sampleNpub 1)).pending =
        [{ hexPubkey := samplePubkeyHex, authKeySnapshot := none }] := by decide +kernel
    rw [hsubmitted, List.cons.injEq] at hpending
    rw [← hpending.1]
    split
    · decide +kernel
    · have hnone : ((start {}).onNpubSubmit {} (sampleNpub 1)).sessionManager.sessions = [] := by
        decide +kernel
      rw [hnone]
      exact nofun
  refine ⟨app, hrun, hkey, by rw [hsessions]; rfl, ?_⟩
  refine (hold_current_key samplePlatform {} authWhileMonitoring).2 halong app hrun hpending ?_
  rw [hsessions]
  simpa using hrun'

/-- A key is given with `:auth` while the bootstrap of the next submission is pending. -/
def authWhilePending : List AppEvent :=
  [.npubSubmit {} (sampleNpub 1), .bootstrapCompletes {} (seedsKnow sampleRelay),
    .npubSubmit {} (sampleNpub 3), .nsecSubmit {} (sampleNsec 2),
    .bootstrapCompletes {} (seedsKnow sampleRelay), runFirst, runFirst]

/-- The key is lost: the new session has none. -/
theorem auth_lost_while_pending : ∃ app,
    run (step samplePlatform) (start {}) authWhilePending = some app ∧ app.pending = [] ∧
      (∀ session ∈ app.sessionManager.sessions, KeysRun session) ∧
      ∃ session ∈ app.sessionManager.sessions, session.data.authKey ≠ app.authKey := by
  have hseen : (run (step samplePlatform) (start {}) authWhilePending).map keysSeen =
      some (0, sampleAuthKey 2, [(none, 0)]) := by decide +kernel
  have hsome : (sampleAuthKey 2).isSome = true := by decide +kernel
  obtain ⟨app, hrun, happ⟩ := Option.map_eq_some_iff.mp hseen
  obtain ⟨hpending, hkey, session, hsessions, hheld, hrun'⟩ := of_keysSeen happ
  refine ⟨app, hrun, hpending, ?_, session, ?_, ?_⟩
  · rw [hsessions]
    simpa using hrun'
  · rw [hsessions]
    exact List.mem_cons_self
  rw [hheld, hkey]
  intro heq
  rw [← heq] at hsome
  cases hsome

/-! ## The pubkey -/

/-- With no bootstrap pending, every session subscribes for the pubkey in the header. -/
def ShowTheirPubkey (app : Application) : Prop :=
  app.pending = [] →
    ∀ session ∈ app.sessionManager.sessions, session.data.hexPubkey = app.header.hexPubkey

/-- When the last pending bootstrap fails, it was for the pubkey of the sessions that stay. -/
def FailureKeepsPubkey (pf : Platform) (app : Application) (e : AppEvent) : Prop :=
  ∀ m behaviour bootstrap, e = .bootstrapCompletes m behaviour → app.pending = [bootstrap] →
    (resolveRelaysForPubkey pf bootstrap.hexPubkey kDefaultSeed behaviour).1.ok = false →
      ∀ session ∈ app.sessionManager.sessions, session.data.hexPubkey = bootstrap.hexPubkey

theorem onTarget_control {app : Application} : Handover.OnTarget (control app) ↔
    ∀ session ∈ app.sessionManager.sessions, session.data.hexPubkey = app.header.hexPubkey := by
  rw [Handover.OnTarget, control, List.forall_mem_map]
  exact Iff.rfl

theorem showTheirPubkey_iff {app : Application} : ShowTheirPubkey app ↔
    ((control app).pending = [] → Handover.OnTarget (control app)) := by
  rw [pending_control, onTarget_control]
  exact Iff.rfl

theorem shown_of_pending {app : Application} (hs : Handover.Coherent (control app))
    {bootstrap : PendingBootstrap} (hpending : app.pending = [bootstrap]) :
    bootstrap.hexPubkey = app.header.hexPubkey := by
  refine hs.last (request bootstrap) ?_
  rw [pending_control_singleton hpending]
  rfl

theorem settles_iff {app : Application} (hs : Handover.Coherent (control app)) {e : AppEvent} :
    (handover pf).guard Handover.Settles app e ↔ FailureKeepsPubkey pf app e := by
  rw [guard_iff fun s a ha => ?_]
  · constructor
    · intro h m behaviour bootstrap he hpending hok
      have hsettles := h m behaviour bootstrap [] he hpending
      rw [places, hok] at hsettles
      rw [shown_of_pending hs hpending]
      refine onTarget_control.mp (hsettles ?_)
      rw [pending_control_singleton hpending, List.length_singleton]
    · intro h m behaviour bootstrap rest he hpending
      rw [places]
      split
      · trivial
      · next hok =>
        intro hlen
        have hsingle := pending_of_control_length hpending hlen
        refine onTarget_control.mpr ?_
        rw [← shown_of_pending hs hsingle]
        exact h m behaviour bootstrap he hsingle (by simpa using hok)
  · cases a with
    | complete ps => exact absurd rfl (ha ps)
    | _ => trivial

/-- **The header shows the pubkey of the sessions**: in a run of the program, whenever no bootstrap is
pending the sessions subscribe for the pubkey in the header, exactly when no failure that empties the
queue leaves sessions of another pubkey running. -/
theorem header_shows_pubkey (pf : Platform) (m : Moment) (es : List AppEvent) :
    Throughout (step pf) ShowTheirPubkey (start m) es ↔
      Along (step pf) (FailureKeepsPubkey pf) (start m) es := by
  refine throughout_iff_along (I := fun app => Handover.Coherent (control app))
    ((handover pf).keeps fun _ _ _ => Handover.Coherent.step) ?_ (coherent_start m) ?_
  · intro app e app' hs hp h
    rw [← settles_iff hs, showTheirPubkey_iff]
    exact (handover pf).step_iff (fun _ _ _ => Handover.onTarget_step) app e app' hs
      (showTheirPubkey_iff.mp hp) h
  · intro _ session hsession
    cases hsession

def secondFails : List AppEvent :=
  [.npubSubmit {} (sampleNpub 1), .bootstrapCompletes {} (seedsKnow sampleRelay),
    .npubSubmit {} (sampleNpub 3), .bootstrapCompletes {} seedsThrow]

/-- The header shows the second pubkey, and the sessions of the first one run on. -/
theorem second_fails_shows_wrong :
    ¬ Throughout (step samplePlatform) ShowTheirPubkey (start {}) secondFails := by
  intro h
  have hseen : (run (step samplePlatform) (start {}) secondFails).map (fun app =>
      (app.pending.length, app.sessionManager.sessions.map fun session =>
        decide (session.data.hexPubkey = app.header.hexPubkey))) = some (0, [false]) := by
    decide +kernel
  obtain ⟨app, hrun, happ⟩ := Option.map_eq_some_iff.mp hseen
  rw [Prod.mk.injEq, List.length_eq_zero_iff] at happ
  obtain ⟨session, hsingle, hsession⟩ := List.map_eq_singleton_iff.mp happ.2
  have hshown := h.at_end hrun happ.1 session (by rw [hsingle]; exact List.mem_cons_self)
  rw [decide_eq_false_iff_not] at hsession
  exact hsession hshown

end Application
end Monitostr.Main
