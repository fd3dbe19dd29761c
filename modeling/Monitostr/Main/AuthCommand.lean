import Monitostr.Main.RunningSessions

/-! # What `:auth` does to the monitoring

With sessions running an accepted nsec only replaces the key. Without sessions it is a submission of
its own pubkey, also when an earlier submission is still pending.
-/

namespace Monitostr.Main
open Foundations Model Net Nip19 Nostr
set_option autoImplicit false

namespace Application

/-- The work of a session, or a bootstrap that succeeds. -/
def CompletesWell (pf : Platform) (app : Application) : AppEvent → Prop
  | .session _ _ _ _ => True
  | .bootstrapCompletes _ behaviour => ∀ bootstrap rest, app.pending = bootstrap :: rest →
    (resolveRelaysForPubkey pf bootstrap.hexPubkey kDefaultSeed behaviour).1.ok = true
  | _ => False

/-- Once all pending bootstraps have completed successfully, the sessions that run are for `pubkey`. -/
def SettlesOn (pf : Platform) (app : Application) (pubkey : Str) : Prop :=
  ∀ es app', Along (step pf) (CompletesWell pf) app es → run (step pf) app es = some app' →
    app'.pending = [] → ∀ session ∈ app'.sessionManager.sessions, session.data.hexPubkey = pubkey

variable {pf : Platform}

/-! ## Pending pubkeys -/

def PubkeysSet (app : Application) : Prop := ∀ bootstrap ∈ app.pending, bootstrap.hexPubkey ≠ []

theorem pubkeysSet_step {app app' : Application} {e : AppEvent} (hs : PubkeysSet app)
    (h : step pf app e = some app') : PubkeysSet app' := by
  cases step_moves h with
  | rejectedNpub | rejectedNsec | newKey | session => exact hs
  | npub m npub logBuffer hok =>
    obtain ⟨bytes, -, hlen, hhex⟩ := decodeNpubToHex_ok hok
    refine List.forall_mem_append.mpr ⟨hs, List.forall_mem_singleton.mpr ?_⟩
    rw [hhex]
    exact Nip19.bytesToHex_ne_nil hlen
  | nsec m nsec key logBuffer =>
    obtain ⟨pubkeyBytes, hhex⟩ := key.isHex
    refine List.forall_mem_append.mpr ⟨hs, List.forall_mem_singleton.mpr ?_⟩
    rw [hhex]
    exact Nip19.bytesToHex_ne_nil pubkeyBytes.2
  | bootstrapFails m behaviour bootstrap rest logBuffer hpending =>
    exact fun b hb => hs b (by rw [hpending]; exact List.mem_cons_of_mem _ hb)
  | bootstrapSucceeds m behaviour bootstrap rest logBuffer hpending =>
    exact fun b hb => hs b (by rw [hpending]; exact List.mem_cons_of_mem _ hb)

/-! ## Where the pending bootstraps lead -/

/-- A bootstrap succeeds when its first seed answers, even with nothing. -/
theorem resolve_ok_of_answers {hexPubkey : Str} (hne : hexPubkey ≠ []) :
    (resolveRelaysForPubkey pf hexPubkey kDefaultSeed fun _ => .answers true [] []).1.ok = true := by
  have hfind : (candidatesOf kDefaultSeed fun _ => .answers true [] []).findSome? (answer pf) =
      some ([], []) := findSome?_of_first_answers (answer_defaultSeed pf [] [])
  rw [resolveRelaysForPubkey_fst]
  obtain ⟨candidate, -, -, -, hjudged⟩ := tryCandidates_of_answer hne hfind
  exact hjudged.ok

theorem can_complete : ∀ (pending : List PendingBootstrap) (app : Application),
    app.pending = pending → PubkeysSet app →
      ∃ es app', Along (step pf) (CompletesWell pf) app es ∧ run (step pf) app es = some app' ∧
        app'.pending = []
  | [], app, hpending, _ => ⟨[], app, trivial, rfl, hpending⟩
  | bootstrap :: rest, app, hpending, hs => by
      have hok : (resolveRelaysForPubkey pf bootstrap.hexPubkey kDefaultSeed
          fun _ => .answers true [] []).1.ok = true :=
        resolve_ok_of_answers (hs bootstrap (by rw [hpending]; exact List.mem_cons_self))
      have hstep : ∃ app', step pf app (.bootstrapCompletes {} fun _ => .answers true [] []) =
          some app' ∧ app'.pending = rest := by
        refine ⟨_, by rw [step, hpending], ?_⟩
        obtain ⟨logBuffer, hcomplete⟩ := completeBootstrap_eq { app with pending := rest } {}
          bootstrap (fun _ => .answers true [] []) rfl
        rw [hcomplete]
        split <;> rfl
      obtain ⟨app', hstep', hrest⟩ := hstep
      obtain ⟨es, app'', halong, hrun, hdone⟩ :=
        can_complete rest app' hrest (pubkeysSet_step hs hstep')
      refine ⟨_ :: es, app'', fun x hx => ?_, run_cons_eq_some.mpr ⟨app', hstep', hrun⟩, hdone⟩
      obtain rfl := Option.some.inj (hstep'.symm.trans hx)
      refine ⟨fun b r hb => ?_, halong⟩
      rw [hpending, List.cons.injEq] at hb
      rw [← hb.1]
      exact hok

theorem settlesOn_iff {app : Application} (hs : Handover.Coherent (control app))
    (hkeys : PubkeysSet app) {pubkey : Str} :
    SettlesOn pf app pubkey ↔ Handover.LeadsTo (control app) pubkey := by
  have hgoal : ∀ {es app'}, Along (step pf) (CompletesWell pf) app es →
      run (step pf) app es = some app' →
      Handover.Coherent (control app') ∧ Handover.goal (control app') = Handover.goal (control app) := by
    intro es app' halong hrun
    refine run_keeps (I := fun a => Handover.Coherent (control a) ∧
      Handover.goal (control a) = Handover.goal (control app)) ?_ ⟨hs, rfl⟩ halong hrun
    rintro a e a' ⟨ha, hg⟩ hwell hstep
    refine ⟨(handover pf).keeps (fun _ _ _ => Handover.Coherent.step) a e a' ha hstep, ?_⟩
    rw [← hg]
    cases e with
    | session m group i io =>
      exact congrArg Handover.goal ((handover pf).stutters a _ a' hstep rfl)
    | bootstrapCompletes m behaviour =>
      cases step_moves hstep with
      | bootstrapFails _ _ bootstrap rest _ hpending hok =>
        rw [hwell bootstrap rest hpending] at hok
        cases hok
      | bootstrapSucceeds _ _ bootstrap rest _ hpending hok =>
        refine Handover.goal_step (resolve_relayUrls_ne_nil hok) ((handover pf).steps a _ _ _ hstep ?_)
        change a.pending.head?.map _ = _
        rw [hpending, List.head?_cons, Option.map_some, places, hok]
        rfl
    | npubSubmit m npub => cases hwell
    | nsecSubmit m nsec => cases hwell
  constructor
  · intro h target htarget
    obtain ⟨es, app', halong, hrun, hdone⟩ := can_complete app.pending app rfl hkeys
    obtain ⟨-, hg⟩ := hgoal halong hrun
    rw [← hg, Handover.goal, pending_control.mpr hdone] at htarget
    obtain ⟨w, hw, rfl⟩ := Option.map_eq_some_iff.mp htarget
    obtain ⟨session, hsession, rfl⟩ := List.mem_map.mp (List.mem_of_mem_head? hw)
    exact h es app' halong hrun hdone session hsession
  · intro h es app' halong hrun hdone session hsession
    obtain ⟨hs', hg⟩ := hgoal halong hrun
    refine h _ ?_
    rw [← hg]
    exact Handover.goal_of_workers hs' (pending_control.mpr hdone) (List.mem_map_of_mem hsession)

/-! ## An accepted nsec -/

/-- **What `:auth` changes**: at any point of a run, an accepted nsec changes neither the pubkey in the
header nor the pubkey of the sessions that run once all pending bootstraps have succeeded, exactly
when sessions are running, or a bootstrap is pending and the nsec is that of the pubkey in the
header. -/
theorem auth_keeps_pubkey (pf : Platform) {m m' : Moment} {es : List AppEvent}
    {app app' : Application} {nsec : Str} {key : AuthKey}
    (hrun : run (step pf) (start m) es = some app) (hkey : acceptedKey pf nsec = some key)
    (hstep : step pf app (.nsecSubmit m' nsec) = some app') :
    (app'.header.hexPubkey = app.header.hexPubkey ∧
      ∀ pubkey, SettlesOn pf app pubkey → SettlesOn pf app' pubkey) ↔
      app.sessionManager.hasActiveSessions = true ∨
        (app.pending ≠ [] ∧ key.hexPubkey = app.header.hexPubkey) := by
  obtain ⟨hs, hkeys⟩ : Handover.Coherent (control app) ∧ PubkeysSet app := by
    refine run_invariant (I := fun app => Handover.Coherent (control app) ∧ PubkeysSet app) ?_
      ⟨coherent_start m, nofun⟩ hrun
    rintro a e a' ⟨ha, hp⟩ h
    exact ⟨(handover pf).keeps (fun _ _ _ => Handover.Coherent.step) a e a' ha h,
      pubkeysSet_step hp h⟩
  have hcredential : Handover.step (control app) (.credential key key.hexPubkey) =
      some (control app') := by
    refine (handover pf).steps app _ app' _ hstep ?_
    change (acceptedKey pf nsec).map _ = _
    rw [hkey]
    rfl
  have hs' := hs.step hcredential
  have hkeys' := pubkeysSet_step hkeys hstep
  have hactive : app.sessionManager.hasActiveSessions = true ↔ (control app).workers ≠ [] := by
    simp [SessionManager.hasActiveSessions, control]
  have hpending : app.pending ≠ [] ↔ (control app).pending ≠ [] := not_congr pending_control.symm
  simp only [settlesOn_iff hs hkeys, settlesOn_iff hs' hkeys']
  rw [hactive, hpending]
  exact Handover.leadsTo_credential hs hcredential

theorem auth_keeps_pubkey_monitored : ∃ app app',
    run (step samplePlatform) (start {})
      [.npubSubmit {} (sampleNpub 1), .bootstrapCompletes {} (seedsKnow sampleRelay)] = some app ∧
    step samplePlatform app (.nsecSubmit {} (sampleNsec 2)) = some app' ∧
    app'.header.hexPubkey = app.header.hexPubkey := by
  have hseen : (run (step samplePlatform) (start {})
      [.npubSubmit {} (sampleNpub 1), .bootstrapCompletes {} (seedsKnow sampleRelay)]).map
        (fun app => app.sessionManager.hasActiveSessions) = some true := by decide +kernel
  have hsome : (acceptedKey samplePlatform (sampleNsec 2)).isSome = true := by decide +kernel
  obtain ⟨app, hrun, hactive⟩ := Option.map_eq_some_iff.mp hseen
  obtain ⟨key, hkey⟩ := Option.isSome_iff_exists.mp hsome
  exact ⟨app, _, hrun, rfl, ((auth_keeps_pubkey samplePlatform hrun hkey rfl).mpr (Or.inl hactive)).1⟩

/-- The nsec comes while the first bootstrap is pending: it replaces the pubkey that was submitted, in
the header and in the sessions that run in the end. -/
theorem auth_replaces_pending_pubkey : ∃ app app' app'',
    run (step samplePlatform) (start {}) [.npubSubmit {} (sampleNpub 1)] = some app ∧
    step samplePlatform app (.nsecSubmit {} (sampleNsec 2)) = some app' ∧
    app'.header.hexPubkey ≠ app.header.hexPubkey ∧
    run (step samplePlatform) app' [.bootstrapCompletes {} (seedsKnow sampleRelay),
      .bootstrapCompletes {} (seedsKnow sampleRelay)] = some app'' ∧
    app''.pending = [] ∧
    ∃ session ∈ app''.sessionManager.sessions, session.data.hexPubkey ≠ app.header.hexPubkey := by
  have hfirst : ((start {}).onNpubSubmit {} (sampleNpub 1)).header.hexPubkey = samplePubkeyHex := by
    decide +kernel
  have hheader : (((start {}).onNpubSubmit {} (sampleNpub 1)).onNsecSubmit samplePlatform {}
      (sampleNsec 2)).header.hexPubkey ≠ samplePubkeyHex := by
    decide +kernel
  have hseen : (run (step samplePlatform) (((start {}).onNpubSubmit {} (sampleNpub 1)).onNsecSubmit
      samplePlatform {} (sampleNsec 2)) [.bootstrapCompletes {} (seedsKnow sampleRelay),
        .bootstrapCompletes {} (seedsKnow sampleRelay)]).map (fun app =>
          (app.pending.length, app.sessionManager.sessions.map fun session =>
            decide (session.data.hexPubkey = samplePubkeyHex))) = some (0, [false]) := by
    decide +kernel
  obtain ⟨app'', hrun, happ⟩ := Option.map_eq_some_iff.mp hseen
  rw [Prod.mk.injEq, List.length_eq_zero_iff] at happ
  obtain ⟨session, hsingle, hsession⟩ := List.map_eq_singleton_iff.mp happ.2
  refine ⟨_, _, app'', rfl, rfl, ?_, hrun, happ.1, session, ?_, ?_⟩
  · rw [hfirst]
    exact hheader
  · rw [hsingle]
    exact List.mem_cons_self
  · rw [hfirst]
    simpa using hsession

end Application
end Monitostr.Main
