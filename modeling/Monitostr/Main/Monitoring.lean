import Monitostr.Main.ProgramRuns
import Monitostr.Main.SessionLives
import Monitostr.Model.StatsLog
import Monitostr.Net.Recovery

/-! # The program can always be made to monitor a pubkey

Whatever state the program is in, whatever is half typed, pending or running: when an npub is typed and the
seeds know relays for its pubkey, every one of its relays can be led to be read, and the table to show so.
-/

namespace Monitostr.Main
open Foundations Foundations.Behaviour Model Net Nip19 Nostr Ui
set_option autoImplicit false

variable {pf : Platform} {m : Moment}

/-! ## The table shows what a session reports -/

def shownStatus (stats : RelayStats) (url : Str) : RelayStatus :=
  ((stats.lookup url).map RelayStat.status).getD .disconnected

theorem lookup_effect {url other : Str} (h : other ≠ url) {effect : Effect}
    (heffect : RelaySession.WritesTo url effect) (app : Application) :
    (app.applyEffect m effect).sharedStats.lookup other = app.sharedStats.lookup other := by
  cases effect with
  | stats op =>
    change (app.sharedStats.apply m op).lookup other = _
    rw [app.sharedStats.lookup_apply_of_relayUrl m heffect]
    exact Function.update_of_ne h _ _
  | _ => rfl

theorem shownStatus_effect {url : Str} {effect : Effect} (heffect : RelaySession.WritesTo url effect)
    (hstays : effect.disconnects = false) (app : Application) :
    shownStatus (app.applyEffect m effect).sharedStats url =
      (effect.report?.map Prod.fst).getD (shownStatus app.sharedStats url) := by
  cases effect with
  | stats op =>
    have hrecord : shownStatus (app.sharedStats.apply m op) url =
        (((app.sharedStats.lookup url).getD { relayUrl := url }).apply (m, op)).status := by
      rw [shownStatus, app.sharedStats.lookup_apply_of_relayUrl m heffect, Function.update_self]
      rfl
    have hbefore : shownStatus app.sharedStats url =
        ((app.sharedStats.lookup url).getD { relayUrl := url }).status := by
      rw [shownStatus]
      cases app.sharedStats.lookup url <;> rfl
    change shownStatus (app.sharedStats.apply m op) url = _
    rw [hrecord, hbefore]
    cases op with
    | reset => cases heffect
    | setStatus relayUrl status error =>
      have hstatus : status ≠ .disconnected := of_decide_eq_false hstays
      rw [Effect.report?, if_neg hstatus]
      rfl
    | _ => rfl
  | _ => rfl

theorem applyEffects_others {url other : Str} (h : other ≠ url) {effects : List Effect}
    (heffects : ∀ effect ∈ effects, RelaySession.WritesTo url effect) (app : Application) :
    (effects.foldl (Application.applyEffect m) app).sharedStats.lookup other =
      app.sharedStats.lookup other := by
  induction effects generalizing app with
  | nil => rfl
  | cons effect effects ih =>
    obtain ⟨hfirst, hrest⟩ := List.forall_mem_cons.mp heffects
    exact (ih hrest _).trans (lookup_effect h hfirst app)

theorem applyEffects_shown {url : Str} {effects : List Effect} {history : History}
    (heffects : ∀ effect ∈ effects, RelaySession.WritesTo url effect ∧ effect.disconnects = false)
    {app : Application} (h : shownStatus app.sharedStats url = lastShown history) :
    shownStatus (effects.foldl (Application.applyEffect m) app).sharedStats url =
      lastShown (history ++ reports effects) := by
  induction effects generalizing app history with
  | nil => rwa [reports, List.filterMap_nil, List.append_nil]
  | cons effect effects ih =>
    obtain ⟨⟨hwrites, hstays⟩, hrest⟩ := List.forall_mem_cons.mp heffects
    have hone := shownStatus_effect (m := m) hwrites hstays app
    rw [List.foldl_cons, reports, List.filterMap_cons]
    cases hreport : effect.report? with
    | none =>
      rw [hreport] at hone
      exact ih hrest (hone.trans h)
    | some report =>
      rw [hreport] at hone
      have hnext : shownStatus (app.applyEffect m effect).sharedStats url =
          lastShown (history ++ [report]) := hone.trans (lastShown_concat history report).symm
      have hlast := ih hrest hnext
      rwa [List.append_assoc] at hlast

/-! ## The steps of one session in the program -/

/-- The session at this place, which is for this relay, has come this far; nothing else has changed. -/
structure Advances (i : ℕ) (url : Str) (session : SessionObject) (app app' : Application) : Prop where
  header : app'.header = app.header
  authKey : app'.authKey = app.authKey
  sessions : app'.sessionManager.sessions = app.sessionManager.sessions.set i session
  others : ∀ other, other ≠ url → app'.sharedStats.lookup other = app.sharedStats.lookup other

theorem exists_session_step {app : Application} {i : ℕ} {p q : SessionObject × History} {io : SessionIo}
    (hi : app.sessionManager.sessions[i]? = some p.1) (hstop : Item.call .stop ∉ p.1.queue)
    (hclose : outstandingOps AsyncOp.isClose p.1 = [])
    (h : watched (sessionBehaviour pf).react noteReports p (io.event m) = some q)
    (hshown : shownStatus app.sharedStats p.1.data.relayUrl = lastShown p.2) :
    ∃ app', Application.step pf app (.session m .running i io) = some app' ∧
      Advances i p.1.data.relayUrl q.1 app app' ∧
      shownStatus app'.sharedStats p.1.data.relayUrl = lastShown q.2 := by
  obtain ⟨effects, hreact, hnote⟩ := watched_eq_some.mp h
  have hreactAt : app.sessionManager.react pf .running i (io.event m) =
      some ({ app.sessionManager with sessions := app.sessionManager.sessions.set i q.1 }, effects) :=
    Option.map_eq_some_iff.mpr ⟨_, reactAt_eq_some.mpr ⟨_, _, hi, hreact, rfl⟩, rfl⟩
  have hwrites := react_writesTo hreact
  have hstays := (stays_react (fun h => hstop (mem_queue_of_handled h)) hclose hreact).2
  refine ⟨effects.foldl (Application.applyEffect m) { app with
    sessionManager := { app.sessionManager with sessions := app.sessionManager.sessions.set i q.1 } }, ?_, ?_, ?_⟩
  · rw [Application.step, hreactAt]
    rfl
  · obtain ⟨logBuffer, heq⟩ := Application.applyEffects_eq { app with
      sessionManager := { app.sessionManager with sessions := app.sessionManager.sessions.set i q.1 } } m effects
    refine ⟨?_, ?_, ?_, fun other hother => applyEffects_others hother hwrites _⟩
    all_goals rw [heq]
  · rw [hnote]
    exact applyEffects_shown (fun effect heffect => ⟨hwrites effect heffect, hstays effect heffect⟩) hshown

theorem Advances.trans {i : ℕ} {url : Str} {session session' : SessionObject} {app app' app'' : Application}
    (h : Advances i url session app app') (h' : Advances i url session' app' app'') :
    Advances i url session' app app'' where
  header := h'.header.trans h.header
  authKey := h'.authKey.trans h.authKey
  sessions := by rw [h'.sessions, h.sessions, List.set_set]
  others other hother := (h'.others other hother).trans (h.others other hother)

theorem Advances.refl {i : ℕ} {session : SessionObject} {app : Application} (url : Str)
    (hi : app.sessionManager.sessions[i]? = some session) : Advances i url session app app where
  header := rfl
  authKey := rfl
  sessions := by
    obtain ⟨hlt, rfl⟩ := List.getElem?_eq_some_iff.mp hi
    exact (List.set_getElem_self hlt).symm
  others _ _ := rfl

/-- What a session is for stays as it is. -/
theorem run_target {ios : List SessionIo} {p q : SessionObject × History}
    (h : run (watched (sessionBehaviour pf).react noteReports) p (ios.map (SessionIo.event m)) = some q) :
    q.1.data.relayUrl = p.1.data.relayUrl ∧ q.1.data.hexPubkey = p.1.data.hexPubkey ∧
      keyWhenRun q.1 = keyWhenRun p.1 := by
  induction ios generalizing p with
  | nil =>
    obtain rfl := Option.some.inj h
    exact ⟨rfl, rfl, rfl⟩
  | cons io ios ih =>
    obtain ⟨p', hstep, hrest⟩ := run_cons_eq_some.mp h
    obtain ⟨effects, hreact, -⟩ := watched_eq_some.mp hstep
    obtain ⟨hurl, hpubkey, hkey⟩ := react_target hreact
    obtain ⟨hurl', hpubkey', hkey'⟩ := ih hrest
    exact ⟨hurl'.trans hurl, hpubkey'.trans hpubkey, hkey'.trans hkey⟩

/-! ## What monitoring is -/

/-- The session reads what its relay sends for the pubkey, with the key that is set, and the table shows it
as subscribed. -/
structure Monitors (app : Application) (hexPubkey : Str) (session : SessionObject) : Prop where
  pubkey : session.data.hexPubkey = hexPubkey
  key : keyWhenRun session = app.authKey
  reads : outstandingOps AsyncOp.inSequence session = [.read]
  shown : ∃ stat ∈ app.sharedStats.snapshot, stat.relayUrl = session.data.relayUrl ∧
    stat.status = .subscribed

theorem Monitors.advances {relayUrl hexPubkey : Str} {app app' : Application}
    {session other : SessionObject} {i : ℕ}
    (h : Monitors app hexPubkey session) (hadvances : Advances i relayUrl other app app')
    (hurl : session.data.relayUrl ≠ relayUrl) : Monitors app' hexPubkey session := by
  obtain ⟨stat, hstat, hnamed, hsubscribed⟩ := h.shown
  refine ⟨h.pubkey, h.key.trans hadvances.authKey.symm, h.reads, stat, RelayStats.mem_snapshot.mpr ?_,
    hnamed, hsubscribed⟩
  rw [hadvances.others _ (hnamed ▸ hurl)]
  exact RelayStats.mem_snapshot.mp hstat

theorem Monitors.of_silent {hexPubkey : Str} {a b : Application} {session : SessionObject}
    (hb : Monitors b hexPubkey session) (h : a.silent = b.silent) : Monitors a hexPubkey session where
  pubkey := hb.pubkey
  key := hb.key.trans (congrArg (fun a => a.authKey) h).symm
  reads := hb.reads
  shown := by
    have hstats : a.sharedStats = b.sharedStats := congrArg (fun a => a.sharedStats) h
    rw [hstats]
    exact hb.shown

/-! ## Sessions that are led to monitor -/

section Sessions
variable (hjson : ParseInvertsDump pf) (hutf8 : ParsesUtf8 pf) {relayUrl hexPubkey : Str}
include hjson hutf8

theorem exists_session_run (hurl : IsUtf8 relayUrl) (hpubkey : IsUtf8 hexPubkey) {i : ℕ}
    {p q : SessionObject × History} {place : Place AsyncOp} {ios : List SessionIo} {app : Application}
    (hp : Persistent relayUrl hexPubkey p place) (hclose : outstandingOps AsyncOp.isClose p.1 = [])
    (hi : app.sessionManager.sessions[i]? = some p.1)
    (hshown : shownStatus app.sharedStats relayUrl = lastShown p.2)
    (halong : Along (watched (sessionBehaviour pf).react noteReports) (fun p => GoesWell p.1) p
      (ios.map (SessionIo.event m)))
    (hrun : run (watched (sessionBehaviour pf).react noteReports) p (ios.map (SessionIo.event m)) = some q) :
    ∃ app', run (Application.step pf) app (ios.map (AppEvent.session m .running i)) = some app' ∧
      Advances i relayUrl q.1 app app' ∧ shownStatus app'.sharedStats relayUrl = lastShown q.2 := by
  induction ios generalizing p place app with
  | nil =>
    obtain rfl := Option.some.inj hrun
    exact ⟨app, run_nil app, .refl relayUrl hi, hshown⟩
  | cons io ios ih =>
    obtain ⟨p', hstep, hrest⟩ := run_cons_eq_some.mp hrun
    obtain ⟨hwell, halong'⟩ := halong p' hstep
    obtain ⟨effects, hreact, -⟩ := watched_eq_some.mp hstep
    obtain ⟨place', hp'⟩ := hp.step hjson hutf8 hurl hpubkey hwell.undisturbed hstep
    obtain ⟨app', happ, hadvances, hshown'⟩ :=
      exists_session_step hi hp.noStop hclose hstep (hp.target.url.symm ▸ hshown)
    rw [hp.target.url] at hadvances hshown'
    have hi' : app'.sessionManager.sessions[i]? = some p'.1 := by
      obtain ⟨hlt, -⟩ := List.getElem?_eq_some_iff.mp hi
      rw [hadvances.sessions, List.getElem?_set_self hlt]
    obtain ⟨app'', happ', hadvances', hlast⟩ :=
      ih hp' (stays_react (fun h => hp.noStop (mem_queue_of_handled h)) hclose hreact).1 hi' hshown' halong' hrest
    exact ⟨app'', run_cons_eq_some.mpr ⟨app', happ, happ'⟩, hadvances.trans hadvances', hlast⟩

theorem exists_monitors (hclock : ClockFits (.run m)) (hurl : IsUtf8 relayUrl)
    (hsecure : isSecureRelay relayUrl = true) (hpubkey : IsUtf8 hexPubkey) {i : ℕ} {app : Application}
    (hi : app.sessionManager.sessions[i]? =
      some (SessionManager.startedSession hexPubkey app.authKey relayUrl))
    (hnone : app.sharedStats.lookup relayUrl = none) :
    ∃ es app' session, run (Application.step pf) app es = some app' ∧ (∀ e ∈ es, e.submission = none) ∧
      Advances i relayUrl session app app' ∧ session.data.relayUrl = relayUrl ∧
      Monitors app' hexPubkey session := by
  obtain ⟨parsed, hparsed, hsecure⟩ := (Option.any_eq_true _ _).mp hsecure
  have hstarted := persistent_started relayUrl hexPubkey app.authKey
  have hready : Ready (SessionManager.startedSession hexPubkey app.authKey relayUrl, []) := by
    refine ⟨hstarted.target.usable hparsed hsecure, ?_, fun hover => ?_⟩
    · rintro ⟨op, o, hmem, -⟩
      simp [SessionManager.startedSession, dispatch] at hmem
    · exact hover.1 (by simp [SessionManager.startedSession, dispatch])
  obtain ⟨ios, ⟨session, history⟩, hrun, halong, hreads⟩ :=
    hstarted.exists_reads hjson hutf8 hurl hpubkey hclock hready
  have hshown : shownStatus app.sharedStats relayUrl = lastShown [] := by
    rw [shownStatus, hnone]
    rfl
  obtain ⟨app', happ, hadvances, hlast⟩ :=
    exists_session_run hjson hutf8 hurl hpubkey hstarted rfl hi hshown halong hrun
  obtain ⟨htarget, hsame, hkey⟩ := run_target hrun
  refine ⟨_, app', session, happ, ?_, hadvances, htarget, hsame, ?_, hreads.reading, ?_⟩
  · intro e he
    obtain ⟨io, -, rfl⟩ := List.mem_map.mp he
    rfl
  · rw [hadvances.authKey]
    exact hkey
  · have hsubscribed : shownStatus app'.sharedStats relayUrl = .subscribed := hlast.trans hreads.shown
    rw [shownStatus] at hsubscribed
    cases hlookup : app'.sharedStats.lookup relayUrl with
    | none =>
      rw [hlookup] at hsubscribed
      cases hsubscribed
    | some stat =>
      rw [hlookup] at hsubscribed
      have hnamed : stat.relayUrl = relayUrl := app'.sharedStats.named relayUrl stat hlookup
      exact ⟨stat, RelayStats.mem_snapshot.mpr (hnamed ▸ hlookup), hnamed.trans htarget.symm, hsubscribed⟩

/-- Sessions that have been started can be led to monitor, one after the other. -/
theorem exists_all_monitor (hclock : ClockFits (.run m)) (hpubkey : IsUtf8 hexPubkey) (relayUrls : List Str)
    (ready : List SessionObject) {app : Application}
    (hsessions : app.sessionManager.sessions =
      ready ++ relayUrls.map (SessionManager.startedSession hexPubkey app.authKey))
    (hready : ∀ session ∈ ready, Monitors app hexPubkey session)
    (hurls : ∀ url ∈ relayUrls, IsUtf8 url ∧ isSecureRelay url = true ∧ app.sharedStats.lookup url = none)
    (hnodup : (ready.map (fun session => session.data.relayUrl) ++ relayUrls).Nodup) :
    ∃ es app', run (Application.step pf) app es = some app' ∧ (∀ e ∈ es, e.submission = none) ∧
      app'.header = app.header ∧
      app'.sessionManager.sessions.map (fun session => session.data.relayUrl) =
        ready.map (fun session => session.data.relayUrl) ++ relayUrls ∧
      ∀ session ∈ app'.sessionManager.sessions, Monitors app' hexPubkey session := by
  induction relayUrls generalizing ready app with
  | nil =>
    refine ⟨[], app, run_nil app, List.forall_mem_nil _, rfl, ?_, ?_⟩
    · rw [hsessions, List.map_nil, List.append_nil, List.append_nil]
    · rw [hsessions, List.map_nil, List.append_nil]
      exact hready
  | cons url relayUrls ih =>
    obtain ⟨⟨hutf, hsecure, hunknown⟩, hrest⟩ := List.forall_mem_cons.mp hurls
    have hi : app.sessionManager.sessions[ready.length]? =
        some (SessionManager.startedSession hexPubkey app.authKey url) := by
      rw [hsessions, List.getElem?_append_right (Nat.le_refl _), Nat.sub_self]
      rfl
    obtain ⟨es, app', session, hrun, hnone, hadvances, hurl, hmonitors⟩ :=
      exists_monitors hjson hutf8 hclock hutf hsecure hpubkey hi hunknown
    have hapart := (List.nodup_cons.mp (List.nodup_middle.mp hnodup)).1
    have hother : ∀ other ∈ ready.map (fun session => session.data.relayUrl) ++ relayUrls, other ≠ url := by
      rintro other hmem rfl
      exact hapart hmem
    have hsessions' : app'.sessionManager.sessions = (ready ++ [session]) ++
        relayUrls.map (SessionManager.startedSession hexPubkey app'.authKey) := by
      rw [hadvances.sessions, hsessions, hadvances.authKey, List.set_append_right _ _ (Nat.le_refl _), Nat.sub_self,
        List.append_assoc]
      rfl
    have hready' : ∀ other ∈ ready ++ [session], Monitors app' hexPubkey other := by
      refine List.forall_mem_append.mpr ⟨fun other hmem => ?_, List.forall_mem_singleton.mpr hmonitors⟩
      exact (hready other hmem).advances hadvances
        (hother _ (List.mem_append_left _ (List.mem_map_of_mem hmem)))
    have hurls' : ∀ other ∈ relayUrls,
        IsUtf8 other ∧ isSecureRelay other = true ∧ app'.sharedStats.lookup other = none := fun other hmem => by
      obtain ⟨hutf, hsecure, hunknown⟩ := hrest other hmem
      exact ⟨hutf, hsecure, (hadvances.others other (hother _ (List.mem_append_right _ hmem))).trans hunknown⟩
    have hmap : (ready ++ [session]).map (fun session => session.data.relayUrl) ++ relayUrls =
        ready.map (fun session => session.data.relayUrl) ++ url :: relayUrls := by
      rw [List.map_append, List.map_singleton, hurl, List.append_assoc]
      rfl
    obtain ⟨es', app'', hrun', hnone', hheader, htargets, hall⟩ :=
      ih (ready ++ [session]) hsessions' hready' hurls' (hmap ▸ hnodup)
    exact ⟨es ++ es', app'', run_append_eq_some.mpr ⟨app', hrun, hrun'⟩,
      List.forall_mem_append.mpr ⟨hnone, hnone'⟩, hheader.trans hadvances.header, htargets.trans hmap, hall⟩

end Sessions

/-! ## Bootstraps -/

/-- A bootstrap completes: what it finds is started, and what the user sees of the pubkey stays. -/
theorem exists_completion (m : Moment) (behaviour : ℕ → SeedBehaviour) {bootstrap : PendingBootstrap}
    {rest : List PendingBootstrap} {app : Application} (hpending : app.pending = bootstrap :: rest) :
    ∃ app', Application.step pf app (.bootstrapCompletes m behaviour) = some app' ∧ app'.pending = rest ∧
      app'.header = app.header ∧ app'.authKey = app.authKey ∧ app'.sharedStats = app.sharedStats ∧
      ((resolveRelaysForPubkey pf bootstrap.hexPubkey kDefaultSeed behaviour).1.ok = true →
        app'.sessionManager.sessions =
          (resolveRelaysForPubkey pf bootstrap.hexPubkey kDefaultSeed behaviour).1.relayUrls.map
            (SessionManager.startedSession bootstrap.hexPubkey bootstrap.authKeySnapshot)) := by
  obtain ⟨logBuffer, heq⟩ :=
    @Application.completeBootstrap_eq pf { app with pending := rest } m bootstrap behaviour _ rfl
  refine ⟨{ app with pending := rest }.completeBootstrap pf m bootstrap behaviour, ?_, ?_⟩
  · rw [Application.step, hpending]
  · rw [heq]
    split
    · exact ⟨rfl, rfl, rfl, rfl, fun _ => rfl⟩
    · next hfailed => exact ⟨rfl, rfl, rfl, rfl, fun hfound => absurd hfound hfailed⟩

/-- All bootstraps complete, and the last one finds relays. -/
theorem exists_resolved (m : Moment) (behaviour : ℕ → SeedBehaviour) (older : List PendingBootstrap)
    {bootstrap : PendingBootstrap} {app : Application} (hpending : app.pending = older ++ [bootstrap])
    (hfound : (resolveRelaysForPubkey pf bootstrap.hexPubkey kDefaultSeed behaviour).1.ok = true) :
    ∃ es app', run (Application.step pf) app es = some app' ∧ (∀ e ∈ es, e.submission = none) ∧
      app'.header = app.header ∧ app'.authKey = app.authKey ∧ app'.sharedStats = app.sharedStats ∧
      app'.sessionManager.sessions =
        (resolveRelaysForPubkey pf bootstrap.hexPubkey kDefaultSeed behaviour).1.relayUrls.map
          (SessionManager.startedSession bootstrap.hexPubkey bootstrap.authKeySnapshot) := by
  induction older generalizing app with
  | nil =>
    obtain ⟨app', hstep, -, hheader, hkey, hstats, hsessions⟩ := exists_completion m behaviour hpending
    exact ⟨[_], app', run_cons_eq_some.mpr ⟨app', hstep, run_nil app'⟩, List.forall_mem_singleton.mpr rfl,
      hheader, hkey, hstats, hsessions hfound⟩
  | cons first older ih =>
    obtain ⟨app', hstep, hrest, hheader, hkey, hstats, -⟩ := exists_completion m behaviour hpending
    obtain ⟨es, app'', hrun, hnone, hheader', hkey', hstats', hsessions⟩ := ih hrest
    exact ⟨_ :: es, app'', run_cons_eq_some.mpr ⟨app', hstep, hrun⟩, List.forall_mem_cons.mpr ⟨rfl, hnone⟩,
      hheader'.trans hheader, hkey'.trans hkey, hstats'.trans hstats, hsessions⟩

/-- An npub that is accepted clears the table, and its relays are asked for. -/
theorem exists_submitted (m : Moment) {npub : Str} (hok : (decodeNpubToHex npub).ok = true) (app : Application) :
    ∃ app', Application.step pf app (.npubSubmit m npub) = some app' ∧
      app'.header = { npub := npub, hexPubkey := (decodeNpubToHex npub).hexPubkey } ∧
      app'.pending = app.pending ++
        [{ hexPubkey := (decodeNpubToHex npub).hexPubkey, authKeySnapshot := app.authKey }] ∧
      app'.authKey = app.authKey ∧ app'.sharedStats = app.sharedStats.reset := by
  obtain ⟨app', hstep⟩ : ∃ app', Application.step pf app (.npubSubmit m npub) = some app' := ⟨_, rfl⟩
  refine ⟨app', hstep, ?_⟩
  cases Application.step_moves hstep with
  | rejectedNpub _ _ logBuffer hfailed =>
    rw [hok] at hfailed
    cases hfailed
  | npub => exact ⟨rfl, rfl, rfl, rfl⟩

/-- From any state an accepted npub can be led to be monitored on all relays that the seeds know for it. -/
theorem exists_monitored (hjson : ParseInvertsDump pf) (hutf8 : ParsesUtf8 pf) (hclock : ClockFits (.run m))
    {npub : Str} (hok : (decodeNpubToHex npub).ok = true) (behaviour : ℕ → SeedBehaviour)
    (hfound : (resolveRelaysForPubkey pf (decodeNpubToHex npub).hexPubkey kDefaultSeed behaviour).1.ok = true)
    (app : Application) :
    ∃ es app', run (Application.step pf) app (.npubSubmit m npub :: es) = some app' ∧
      (∀ e ∈ es, e.submission = none) ∧
      app'.header = { npub := npub, hexPubkey := (decodeNpubToHex npub).hexPubkey } ∧
      app'.sessionManager.sessions.map (fun session => session.data.relayUrl) =
        (resolveRelaysForPubkey pf (decodeNpubToHex npub).hexPubkey kDefaultSeed behaviour).1.relayUrls ∧
      ∀ session ∈ app'.sessionManager.sessions,
        Monitors app' (decodeNpubToHex npub).hexPubkey session := by
  obtain ⟨submitted, hsubmit, hheader, hpending, hkey, hreset⟩ := @exists_submitted pf m npub hok app
  obtain ⟨es, resolved, hresolved, hnone, hheader', hkey', hstats, hsessions⟩ :=
    exists_resolved m behaviour app.pending hpending hfound
  obtain ⟨relayUrls, hsupported⟩ :=
    resolve_relayUrls_supported pf (decodeNpubToHex npub).hexPubkey kDefaultSeed behaviour
  have hseed : IsUtf8 kDefaultSeed := isUtf8_of_all rfl
  have hutf := allUtf8_resolve hutf8 (decodeNpubToHex npub).hexPubkey hseed behaviour
  rw [hsupported] at hsessions hutf ⊢
  have hurls : ∀ url ∈ supportedRelayUrls relayUrls,
      IsUtf8 url ∧ isSecureRelay url = true ∧ resolved.sharedStats.lookup url = none := fun url hurl => by
    rw [hstats, hreset]
    exact ⟨hutf url hurl, (mem_supportedRelayUrls.mp hurl).2, rfl⟩
  have hstarted : resolved.sessionManager.sessions = [] ++ (supportedRelayUrls relayUrls).map
      (SessionManager.startedSession (decodeNpubToHex npub).hexPubkey resolved.authKey) := by
    rw [hsessions, hkey', hkey, List.nil_append]
  obtain ⟨es', app', hrun, hnone', hheader'', htargets, hall⟩ := exists_all_monitor hjson hutf8 hclock
    (isUtf8_of_isPubkeyHex (isPubkeyHex_of_npub hok)) (supportedRelayUrls relayUrls) [] hstarted
    (List.forall_mem_nil _) hurls (nodup_supportedRelayUrls relayUrls)
  exact ⟨es ++ es', app',
    run_cons_eq_some.mpr ⟨submitted, hsubmit, run_append_eq_some.mpr ⟨resolved, hresolved, hrun⟩⟩,
    List.forall_mem_append.mpr ⟨hnone, hnone'⟩, hheader''.trans (hheader'.trans hheader), htargets, hall⟩

/-! ## From the keyboard to the table -/

namespace Program
variable {keys : SpecialKeys}

/-- **One can always monitor**: in every state that the program reaches, whatever is half typed, pending or
running, typing Escape, `i`, an npub and Return makes it monitor the pubkey, when the bootstraps complete
and the last one finds relays, be it the fallback set: the header shows the pubkey, there is a session for each
of the relays and no other, and each can be led to read the notes that its relay sends for the pubkey, with the
key that is set, and to be shown as subscribed. -/
theorem can_monitor (hjson : ParseInvertsDump pf) (hutf8 : ParsesUtf8 pf) {m₀ : Moment}
    {es : List ProgramEvent} {p : Program} (hrun : run (step pf keys) (start m₀) es = some p)
    (hclock : ClockFits (.run m)) {npub : Str} (htyped : CanBeTyped (.npub npub))
    (hok : (decodeNpubToHex npub).ok = true) (behaviour : ℕ → SeedBehaviour)
    (hfound :
      (resolveRelaysForPubkey pf (decodeNpubToHex npub).hexPubkey kDefaultSeed behaviour).1.ok = true) :
    ∃ fs q, run (step pf keys) p fs = some q ∧
      terminalEvents fs =
        { isCharacter := false, input := keys.escape } :: submissionKeys keys (.npub npub) ∧
      q.app.header = { npub := npub, hexPubkey := (decodeNpubToHex npub).hexPubkey } ∧
      q.app.sessionManager.sessions.map (fun session => session.data.relayUrl) =
        (resolveRelaysForPubkey pf (decodeNpubToHex npub).hexPubkey kDefaultSeed behaviour).1.relayUrls ∧
      ∀ session ∈ q.app.sessionManager.sessions,
        Monitors q.app (decodeNpubToHex npub).hexPubkey session := by
  -- the handler makes its calls, and Escape leaves what is half typed
  obtain ⟨fs₁, p₁, hfs₁, hidle, hui, hterminal₁, -⟩ := @drain pf keys m _ p rfl
  have hempty : App.LeftEmpty p₁.ui := hui.symm ▸ (obeys_run hrun).1
  obtain ⟨fs₂, p₂, hescape⟩ :=
    @exists_enters_one pf keys m p₁ hidle hempty { isCharacter := false, input := keys.escape }
  have hrest : AtRest p₂.app p₂ := ⟨rfl, hescape.idle, hescape.leftEmpty, hescape.draft.trans (next_escape _)⟩
  -- what happens behind the program is typed
  obtain ⟨es', app, happ, hnone, hheader, htargets, hall⟩ :=
    @exists_monitored pf m hjson hutf8 hclock npub hok behaviour hfound p₂.app
  obtain ⟨fs₃, q, hfs₃, -, hterminal₃, hq⟩ := @AtRest.run pf keys _ _ _ _ hrest happ
    (List.forall_mem_cons.mpr ⟨fun submission h => Option.mem_some_iff.mp h ▸ htyped,
      fun e he submission h => by rw [hnone e he] at h; cases h⟩)
  have hsubmissions :
      (AppEvent.npubSubmit m npub :: es').filterMap AppEvent.submission = [.npub npub] := by
    rw [@List.filterMap_cons_some _ _ AppEvent.submission (.npubSubmit m npub) es' (.npub npub) rfl,
      List.filterMap_eq_nil_iff.mpr hnone]
  -- but for the log, the program is left with the application of that run
  have hheld : q.app.header = app.header := congrArg (fun a => a.header) hq.app
  have hmanager : q.app.sessionManager = app.sessionManager :=
    congrArg (fun a => a.sessionManager) hq.app
  refine ⟨fs₁ ++ (fs₂ ++ fs₃), q,
    run_append_eq_some.mpr ⟨p₁, hfs₁, run_append_eq_some.mpr ⟨p₂, hescape.run, hfs₃⟩⟩, ?_,
    hheld.trans hheader, ?_, fun session hsession => ?_⟩
  · rw [terminalEvents_append, terminalEvents_append, hterminal₁, hescape.terminal, hterminal₃,
      hsubmissions]
    simp
  · rw [hmanager]
    exact htargets
  · rw [hmanager] at hsession
    exact (hall session hsession).of_silent hq.app

/-- In the middle of a command, with seeds that know nothing. -/
theorem can_monitor_fallback : ∃ p fs q,
    run (step textPlatform terminalKeys) (start {}) [.event {} {} (.character (lit ":")),
      .event {} {} (.character (lit "w"))] = some p ∧
    run (step textPlatform terminalKeys) p fs = some q ∧ q.app.header.npub = sampleNpub 1 ∧
      q.app.sessionManager.sessions ≠ [] ∧
      ∀ session ∈ q.app.sessionManager.sessions,
        Monitors q.app (decodeNpubToHex (sampleNpub 1)).hexPubkey session := by
  have hpubkey : (decodeNpubToHex (sampleNpub 1)).hexPubkey ≠ [] := by decide +kernel
  obtain ⟨candidate, -, -, -, hjudged⟩ := tryCandidates_of_answer hpubkey findSome?_seedsKnowNothing
  rw [← resolveRelaysForPubkey_fst] at hjudged
  obtain ⟨fs, q, hrun, -, hheader, htargets, hall⟩ := @can_monitor textPlatform {} terminalKeys
    RelaySession.textPlatform_laws.1 textPlatform_parsesUtf8 {} [.event {} {} (.character (lit ":")),
      .event {} {} (.character (lit "w"))] _ rfl clockFits_start (sampleNpub 1) canBeTyped_sampleNpub
    (by decide +kernel) seedsKnowNothing hjudged.ok
  refine ⟨_, fs, q, rfl, hrun, congrArg HeaderContext.npub hheader, fun hnone => ?_, hall⟩
  rw [hnone] at htargets
  exact hjudged.relayUrls_ne_nil htargets.symm

end Program

end Monitostr.Main
