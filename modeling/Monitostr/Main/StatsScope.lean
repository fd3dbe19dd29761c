import Monitostr.Main.Control
import Monitostr.Net.SeedOrder

/-! # Which relays the store knows

The store is emptied when a pubkey is submitted, but the sessions of the submission before run until
the bootstrap succeeds, and their `Stop` writes their status after that. A relay of an earlier
submission is absent when none of the sessions that can still write has it.
-/

namespace Monitostr.Main
open Foundations Foundations.Behaviour Model Net Nip19 Nostr
set_option autoImplicit false

/-! ## Sessions that write nothing any more -/

/-- The operations whose handlers write nothing to the store once the session is stopped. -/
def silentOp : AsyncOp → Bool
  | .reconnectWait _ | .writeAuth _ | .fetchNips _ => true
  | _ => false

def silentItem : Item SessionCall AsyncOp Outcome → Bool
  | .call (.setAuthKey _) => true
  | .call _ => false
  | .completion .read o => o.ec.isNone
  | .completion op _ => silentOp op

/-- The message changes the store. -/
def recorded (pf : Platform) (payload : Str) : Bool :=
  match parseRelayMessageEffect pf payload with
  | .eventCount | .endOfStoredEvents => true
  | _ => false

/-- A stopped session with nothing to come but what writes nothing: a message that is still taken from
the read buffer is none that changes the store. -/
structure Silent (pf : Platform) (session : SessionObject) : Prop where
  stopped : session.data.stopped = true
  queue : ∀ item ∈ session.queue, silentItem item = true
  message : ∀ item ∈ session.queue, takesMessage item = true →
    recorded pf session.data.readBuffer = false
  inFlight : ∀ p ∈ session.inFlight, silentOp p.op = true

def silentEffect : Effect → Bool
  | .stats _ => false
  | .start op => silentOp op
  | _ => true

variable {pf : Platform}

theorem recorded_nil (pf : Platform) : recorded pf [] = false := by
  rw [recorded, parseRelayMessageEffect_nil]

theorem handleMessage_silent {m : Moment} {s : RelaySession} {payload : Str}
    (h : recorded pf payload = false) :
    ∀ effect ∈ s.handleMessage pf m payload, silentEffect effect = true := by
  rw [recorded] at h
  rw [RelaySession.handleMessage]
  cases heff : parseRelayMessageEffect pf payload with
  | authChallenge challenge =>
    intro effect heffect
    rcases RelaySession.mem_onAuthChallenge heffect with ⟨_, _, rfl⟩ | rfl | ⟨_, rfl⟩ <;> rfl
  | eventCount =>
    rw [heff] at h
    cases h
  | endOfStoredEvents =>
    rw [heff] at h
    cases h
  | ignore => exact List.forall_mem_nil _

theorem handle_silent {m : Moment} {s : RelaySession} {item : Item SessionCall AsyncOp Outcome}
    (hs : s.stopped = true) (hitem : silentItem item = true)
    (hmessage : takesMessage item = true → recorded pf s.readBuffer = false) :
    (s.handle pf m item).1.stopped = true ∧
      ∀ effect ∈ (s.handle pf m item).2, silentEffect effect = true := by
  constructor
  · refine (s.handle_members pf m item).stays_stopped ?_ hs
    rintro rfl
    cases hitem
  · have h : RelaySession.Turn pf m s item (s.handle pf m item) := RelaySession.handle_turn item
    generalize s.handle pf m item = result at h ⊢
    cases h with
    | fail op o ec hop hec => cases op <;> simp [silentItem, silentOp, AsyncOp.advances, hec] at hitem hop
    | read o next hec hnext =>
      rw [hnext, if_pos (Or.inl hs), List.append_nil]
      exact handleMessage_silent (hmessage hitem)
    | reconnect delayMs o hec hrunning | nips parsedRelay o text hrunning =>
      rw [hs] at hrunning
      cases hrunning
    | setAuthKey | noReconnect | authWritten | noNips => simp [silentEffect]
    | _ => cases hitem

theorem silent_perform {ops : List (InFlight AsyncOp)} {effects : List Effect}
    (hops : ∀ p ∈ ops, silentOp p.op = true)
    (heffects : ∀ effect ∈ effects, silentEffect effect = true) :
    ∀ p ∈ (sessionBehaviour pf).perform ops effects, silentOp p.op = true := by
  intro p hp
  rcases mem_perform hp with ⟨q, hq, hqp⟩ | ⟨effect, heffect, hstarts⟩
  · rw [← hqp]
    exact hops q hq
  · have hsilent := heffects effect heffect
    cases effect with
    | start op =>
      obtain rfl := Option.some.inj hstarts
      exact hsilent
    | _ => cases hstarts

theorem Silent.finish {session : SessionObject} (hs : Silent pf session) {p : InFlight AsyncOp}
    (hp : p ∈ session.inFlight) (i : ℕ) (outcome : Outcome) :
    Silent pf
      { data := session.data.deliver p.op outcome
        queue := session.queue ++ [.completion p.op outcome]
        inFlight := session.inFlight.eraseIdx i } := by
  have hop : silentOp p.op = true := hs.inFlight p hp
  have hdata : session.data.deliver p.op outcome = session.data := by
    cases hp : p.op <;> first | rfl | (rw [hp] at hop; cases hop)
  have hitem : silentItem (.completion p.op outcome) = true ∧
      takesMessage (.completion p.op outcome) = false := by
    cases hp : p.op <;> first | exact ⟨rfl, rfl⟩ | (rw [hp] at hop; cases hop)
  rw [hdata]
  refine ⟨hs.stopped, List.forall_mem_append.mpr ⟨hs.queue, List.forall_mem_singleton.mpr hitem.1⟩,
    List.forall_mem_append.mpr ⟨hs.message, List.forall_mem_singleton.mpr fun h => ?_⟩,
    fun q hq => hs.inFlight q (List.mem_of_mem_eraseIdx hq)⟩
  rw [hitem.2] at h
  cases h

theorem Silent.react {session session' : SessionObject} {m : Moment} {io : SessionIo}
    {effects : List Effect} (hs : Silent pf session)
    (h : (sessionBehaviour pf).react session (io.event m) = some (session', effects)) :
    Silent pf session' ∧ ∀ effect ∈ effects, silentEffect effect = true := by
  cases io with
  | finish i outcome =>
    obtain ⟨p, hp, ⟨-, rfl, rfl⟩ | ⟨hd, rfl⟩⟩ := react_finish h
    · exact ⟨hs.finish (List.mem_of_getElem? hp) i outcome, List.forall_mem_nil _⟩
    · have hop : silentOp p.op = true := hs.inFlight p (List.mem_of_getElem? hp)
      rcases RelaySession.direct_cases hd with ⟨hclose, -⟩ | ⟨message, rfl⟩
      · rw [hclose] at hop
        cases hop
      · have hsilent : ∀ effect ∈ [session.data.warn message], silentEffect effect = true :=
          List.forall_mem_singleton.mpr rfl
        exact ⟨⟨hs.stopped, hs.queue, hs.message, silent_perform
          (fun q hq => hs.inFlight q (List.mem_of_mem_eraseIdx hq)) hsilent⟩, hsilent⟩
  | run =>
    obtain ⟨item, rest, hq, rfl, rfl⟩ := react_run h
    have hhead : item ∈ session.queue := by
      rw [hq]
      exact List.mem_cons_self
    have hrest : ∀ x ∈ rest, x ∈ session.queue := by
      rw [hq]
      exact fun x hx => List.mem_cons_of_mem _ hx
    obtain ⟨hstopped, hsilent⟩ := handle_silent (m := m) hs.stopped (hs.queue item hhead)
      (hs.message item hhead)
    refine ⟨⟨hstopped, fun x hx => hs.queue x (hrest x hx), fun x hx hx' => ?_,
      silent_perform hs.inFlight hsilent⟩, hsilent⟩
    rcases (session.data.handle_members pf m item).readBuffer with heq | heq
    · exact (congrArg (recorded pf) heq).trans (hs.message x (hrest x hx) hx')
    · exact (congrArg (recorded pf) heq).trans (recorded_nil pf)

namespace Application

/-! ## The store and the live sessions within a set of relays -/

def StatsWithin (relayUrls : List Str) (stats : RelayStats) : Prop :=
  ∀ url, stats.Has url → url ∈ relayUrls

theorem statsWithin_ops {relayUrls : List Str} {m : Moment} {ops : List StatsOp} {stats : RelayStats}
    (hops : ∀ op ∈ ops, ∃ url ∈ relayUrls, op.relayUrl? = some url)
    (h : StatsWithin relayUrls stats) :
    StatsWithin relayUrls (ops.foldl (fun stats op => stats.apply m op) stats) := by
  induction ops generalizing stats with
  | nil => exact h
  | cons op ops ih =>
    obtain ⟨url, hurl, hop⟩ := hops op List.mem_cons_self
    refine ih (fun x hx => hops x (List.mem_cons_of_mem _ hx)) fun u hu => ?_
    rcases (RelayStats.has_apply hop stats m u).mp hu with rfl | hu
    · exact hurl
    · exact h u hu

theorem mem_statsOps {effects : List Effect} {op : StatsOp} :
    op ∈ statsOps effects ↔ Effect.stats op ∈ effects := by
  rw [statsOps, List.mem_filterMap]
  constructor
  · rintro ⟨effect, heffect, h⟩
    cases effect with
    | stats op' =>
      obtain rfl := Option.some.inj h
      exact heffect
    | _ => cases h
  · exact fun h => ⟨_, h, rfl⟩

/-- The sessions that can still write have relays of `relayUrls`. -/
structure LiveWithin (pf : Platform) (relayUrls : List Str) (manager : SessionManager) : Prop where
  running : ∀ session ∈ manager.sessions, session.data.relayUrl ∈ relayUrls
  retired : ∀ session ∈ manager.retired, session.data.relayUrl ∈ relayUrls ∨ Silent pf session

structure Within (pf : Platform) (relayUrls : List Str) (app : Application) : Prop where
  live : LiveWithin pf relayUrls app.sessionManager
  stats : StatsWithin relayUrls app.sharedStats

theorem within_react {relayUrls : List Str} {manager manager' : SessionManager} {group : SessionGroup}
    {i : ℕ} {m : Moment} {io : SessionIo} {effects : List Effect}
    (h : manager.react pf group i (io.event m) = some (manager', effects))
    (hlive : LiveWithin pf relayUrls manager) :
    LiveWithin pf relayUrls manager' ∧
      ∀ op ∈ statsOps effects, ∃ url ∈ relayUrls, op.relayUrl? = some url := by
  cases group with
  | running =>
    rw [SessionManager.react] at h
    obtain ⟨⟨sessions, effects'⟩, hreact, heq⟩ := Option.map_eq_some_iff.mp h
    obtain ⟨rfl, rfl⟩ := Prod.mk.inj heq
    refine ⟨⟨?_, hlive.retired⟩, fun op hop => ?_⟩
    · refine forall_reactAt hreact hlive.running fun o o' ho hstep => ?_
      rw [(react_target hstep).1]
      exact ho
    · obtain ⟨o, o', ho, hstep, -⟩ := reactAt_eq_some.mp hreact
      exact ⟨_, hlive.running o (List.mem_of_getElem? ho),
        react_writesTo hstep _ (mem_statsOps.mp hop)⟩
  | retired =>
    rw [SessionManager.react] at h
    obtain ⟨⟨retired, effects'⟩, hreact, heq⟩ := Option.map_eq_some_iff.mp h
    obtain ⟨rfl, rfl⟩ := Prod.mk.inj heq
    refine ⟨⟨hlive.running, ?_⟩, fun op hop => ?_⟩
    · refine forall_reactAt hreact hlive.retired fun o o' ho hstep => ?_
      rw [(react_target hstep).1]
      exact ho.imp_right fun hsilent => (hsilent.react hstep).1
    · obtain ⟨o, o', ho, hstep, -⟩ := reactAt_eq_some.mp hreact
      rcases hlive.retired o (List.mem_of_getElem? ho) with hrelay | hsilent
      · exact ⟨_, hrelay, react_writesTo hstep _ (mem_statsOps.mp hop)⟩
      · cases (hsilent.react hstep).2 _ (mem_statsOps.mp hop)

theorem within_start {relayUrls started : List Str} {manager : SessionManager}
    (hstarted : ∀ url ∈ started, url ∈ relayUrls) (hlive : LiveWithin pf relayUrls manager)
    (hexPubkey : Str) (authKey : Option AuthKey) :
    LiveWithin pf relayUrls (manager.start started hexPubkey authKey).1 := by
  constructor
  · intro session hsession
    obtain ⟨url, hurl, rfl⟩ := List.mem_map.mp hsession
    exact hstarted url hurl
  · refine List.forall_mem_append.mpr ⟨hlive.retired, fun session hsession => ?_⟩
    obtain ⟨running, hrunning, rfl⟩ := List.mem_map.mp hsession
    exact Or.inl (hlive.running running hrunning)

theorem within_updateAuthKey {relayUrls : List Str} {manager : SessionManager}
    (hlive : LiveWithin pf relayUrls manager) (authKey : Option AuthKey) :
    LiveWithin pf relayUrls (manager.updateAuthKey authKey).1 := by
  refine ⟨fun session hsession => ?_, hlive.retired⟩
  obtain ⟨running, hrunning, rfl⟩ := List.mem_map.mp hsession
  exact hlive.running running hrunning

/-! ## The last submission -/

/-- The event submits a pubkey: an accepted npub, or an accepted nsec when no session runs. -/
def Submits (pf : Platform) (app : Application) : AppEvent → Prop
  | .npubSubmit _ npub => (decodeNpubToHex npub).ok = true
  | .nsecSubmit _ nsec => (acceptedKey pf nsec).isSome = true ∧ app.sessionManager.sessions = []
  | _ => False

def CompletesWithin (pf : Platform) (relayUrls : List Str) (app : Application) (e : AppEvent) : Prop :=
  ∀ m behaviour bootstrap rest, e = .bootstrapCompletes m behaviour →
    app.pending = bootstrap :: rest →
    (resolveRelaysForPubkey pf bootstrap.hexPubkey kDefaultSeed behaviour).1.ok = true →
    ∀ url ∈ (resolveRelaysForPubkey pf bootstrap.hexPubkey kDefaultSeed behaviour).1.relayUrls,
      url ∈ relayUrls

theorem Within.step {relayUrls : List Str} {app app' : Application} {e : AppEvent}
    (hs : Within pf relayUrls app) (hwithin : CompletesWithin pf relayUrls app e)
    (h : step pf app e = some app') : Within pf relayUrls app' := by
  have hreset : StatsWithin relayUrls app.sharedStats.reset :=
    fun url hurl => absurd hurl (RelayStats.not_has_reset _ _)
  cases step_moves h with
  | rejectedNpub | rejectedNsec | bootstrapFails => exact ⟨hs.live, hs.stats⟩
  | npub | nsec => exact ⟨hs.live, hreset⟩
  | newKey => exact ⟨within_updateAuthKey hs.live _, hs.stats⟩
  | bootstrapSucceeds m behaviour bootstrap rest logBuffer hpending hok =>
    exact ⟨within_start (hwithin m behaviour bootstrap rest rfl hpending hok) hs.live _ _, hs.stats⟩
  | session m group i io manager effects logBuffer hreact =>
    obtain ⟨hlive', hops⟩ := within_react hreact hs.live
    exact ⟨hlive', statsWithin_ops hops hs.stats⟩

theorem submits_step {app app' : Application} {e : AppEvent} (hsub : Submits pf app e)
    (h : step pf app e = some app') :
    app'.sharedStats = app.sharedStats.reset ∧ app'.sessionManager = app.sessionManager := by
  cases step_moves h with
  | npub | nsec => exact ⟨rfl, rfl⟩
  | rejectedNpub m npub logBuffer hok =>
    rw [Submits, hok] at hsub
    cases hsub
  | rejectedNsec m nsec logBuffer hkey =>
    rw [Submits, hkey] at hsub
    cases hsub.1
  | newKey m nsec key logBuffer _ hsessions => exact absurd hsub.2 hsessions
  | bootstrapFails | bootstrapSucceeds | session => cases hsub

theorem pending_step {app app' : Application} {e : AppEvent} (hsub : ¬ Submits pf app e)
    (hpending : app.pending = []) (h : step pf app e = some app') : app'.pending = [] := by
  cases step_moves h with
  | rejectedNpub | rejectedNsec | newKey | session => exact hpending
  | npub m npub logBuffer hok => exact absurd hok hsub
  | nsec m nsec key logBuffer hkey hsessions =>
    refine absurd ⟨?_, hsessions⟩ hsub
    rw [hkey]
    rfl
  | bootstrapFails m behaviour bootstrap rest logBuffer hpending' =>
    rw [hpending] at hpending'
    cases hpending'
  | bootstrapSucceeds m behaviour bootstrap rest logBuffer hpending' =>
    rw [hpending] at hpending'
    cases hpending'

theorem pending_completes {app app' : Application} {m : Moment} {behaviour : ℕ → SeedBehaviour}
    (h : step pf app (.bootstrapCompletes m behaviour) = some app') :
    ∃ bootstrap, app.pending = bootstrap :: app'.pending := by
  cases step_moves h with
  | bootstrapFails _ _ bootstrap rest logBuffer hpending => exact ⟨bootstrap, hpending⟩
  | bootstrapSucceeds _ _ bootstrap rest logBuffer hpending => exact ⟨bootstrap, hpending⟩

/-- A submission after which there is no other one, the success of its bootstrap when it is the only
one pending, and what happens after that. -/
structure LastSubmission (pf : Platform) where
  before : Application
  submission : AppEvent
  submits : Submits pf before submission
  submitted : Application
  submitted_eq : step pf before submission = some submitted
  waiting : List AppEvent
  waits : Along (step pf) (fun app e => ¬ Submits pf app e) submitted waiting
  resolved : Application
  resolved_eq : run (step pf) submitted waiting = some resolved
  bootstrap : PendingBootstrap
  pending_eq : resolved.pending = [bootstrap]
  moment : Moment
  behaviour : ℕ → SeedBehaviour
  succeeds : (resolveRelaysForPubkey pf bootstrap.hexPubkey kDefaultSeed behaviour).1.ok = true
  started : Application
  started_eq : step pf resolved (.bootstrapCompletes moment behaviour) = some started
  afterwards : List AppEvent
  rests : Along (step pf) (fun app e => ¬ Submits pf app e) started afterwards
  after : Application
  after_eq : run (step pf) started afterwards = some after

def LastSubmission.relayUrls (last : LastSubmission pf) : List Str :=
  (resolveRelaysForPubkey pf last.bootstrap.hexPubkey kDefaultSeed last.behaviour).1.relayUrls

/-- **Only relays of the last submission**: when its bootstrap has succeeded, the store has only the
relays of its result, provided that the sessions which can still write at the submission, and the
bootstraps that succeed before it, have no other relays. -/
theorem snapshot_within_last (pf : Platform) (last : LastSubmission pf)
    (hlive : LiveWithin pf last.relayUrls last.before.sessionManager)
    (hearlier : Along (step pf) (CompletesWithin pf last.relayUrls) last.submitted last.waiting) :
    ∀ url ∈ last.after.sharedStats.snapshot.map RelayStat.relayUrl, url ∈ last.relayUrls := by
  obtain ⟨hreset, hmanager⟩ := submits_step last.submits last.submitted_eq
  have hsubmitted : Within pf last.relayUrls last.submitted := by
    refine ⟨by rwa [hmanager], fun url hurl => ?_⟩
    rw [hreset] at hurl
    exact absurd hurl (RelayStats.not_has_reset _ _)
  have hresolved : Within pf last.relayUrls last.resolved :=
    run_keeps (fun _ _ _ hs hwithin hstep => Within.step hs hwithin hstep) hsubmitted hearlier
      last.resolved_eq
  have hstarted : Within pf last.relayUrls last.started := by
    refine hresolved.step ?_ last.started_eq
    rintro m behaviour bootstrap rest he hpending - url hurl
    rw [last.pending_eq, List.cons.injEq] at hpending
    cases he
    rw [← hpending.1] at hurl
    exact hurl
  have hdone : last.started.pending = [] := by
    obtain ⟨bootstrap, hpending⟩ := pending_completes last.started_eq
    rw [last.pending_eq, List.cons.injEq] at hpending
    exact hpending.2.symm
  -- with nothing pending and nothing submitted, no bootstrap completes any more
  have hafter : Within pf last.relayUrls last.after ∧ last.after.pending = [] := by
    refine run_keeps (I := fun app => Within pf last.relayUrls app ∧ app.pending = []) ?_
      ⟨hstarted, hdone⟩ last.rests last.after_eq
    rintro app e app' ⟨hs, hnil⟩ hsub hstep
    refine ⟨hs.step (fun _ _ _ _ _ hpending => ?_) hstep, pending_step hsub hnil hstep⟩
    rw [hnil] at hpending
    cases hpending
  intro url hurl
  exact hafter.1.stats url ((RelayStats.mem_snapshot_urls _ _).mp hurl)

/-- An npub that is submitted with nothing pending, and whose bootstrap succeeds at once. -/
theorem exists_lastSubmission {before after : Application} {m m' : Moment} {npub : Str}
    {behaviour : ℕ → SeedBehaviour} {afterwards : List AppEvent} (hpending : before.pending = [])
    (hnpub : (decodeNpubToHex npub).ok = true)
    (hok : (resolveRelaysForPubkey pf (decodeNpubToHex npub).hexPubkey kDefaultSeed behaviour).1.ok =
      true)
    (hrests : ∀ e ∈ afterwards, ∀ app, ¬ Submits pf app e)
    (hrun : run (step pf) before
      (.npubSubmit m npub :: .bootstrapCompletes m' behaviour :: afterwards) = some after) :
    ∃ last : LastSubmission pf, last.before = before ∧ last.after = after ∧ last.waiting = [] ∧
      last.relayUrls =
        (resolveRelaysForPubkey pf (decodeNpubToHex npub).hexPubkey kDefaultSeed
          behaviour).1.relayUrls := by
  obtain ⟨submitted, hsubmitted, hrun⟩ := run_cons_eq_some.mp hrun
  obtain ⟨started, hstarted, hrun⟩ := run_cons_eq_some.mp hrun
  have hbootstrap : ∃ bootstrap, submitted.pending = [bootstrap] ∧
      bootstrap.hexPubkey = (decodeNpubToHex npub).hexPubkey := by
    cases step_moves hsubmitted with
    | rejectedNpub _ _ logBuffer hbad =>
      rw [hnpub] at hbad
      cases hbad
    | npub => exact ⟨_, by rw [hpending]; rfl, rfl⟩
  obtain ⟨bootstrap, hsingle, hpubkey⟩ := hbootstrap
  rw [← hpubkey] at hok ⊢
  exact ⟨
    { before := before, submission := .npubSubmit m npub, submits := hnpub
      submitted := submitted, submitted_eq := hsubmitted
      waiting := [], waits := trivial, resolved := submitted, resolved_eq := rfl
      bootstrap := bootstrap, pending_eq := hsingle
      moment := m', behaviour := behaviour, succeeds := hok
      started := started, started_eq := hstarted
      afterwards := afterwards, rests := along_of_forall hrests
      after := after, after_eq := hrun }, rfl, rfl, rfl, rfl⟩

/-! ## A second submission in two runs -/

def firstMonitored : List AppEvent :=
  [.npubSubmit {} (sampleNpub 1), .bootstrapCompletes {} (seedsKnow sampleRelay)]

def settle : List AppEvent :=
  [.session {} .retired 0 .run, .session {} .retired 0 .run, .session {} .retired 0 .run,
    .session {} .running 0 .run, .session {} .running 0 .run]

def secondMonitored (relayUrl : Str) : List AppEvent :=
  .npubSubmit {} (sampleNpub 3) :: .bootstrapCompletes {} (seedsKnow relayUrl) :: settle

theorem settle_rests : ∀ e ∈ settle, ∀ app, ¬ Submits samplePlatform app e := by
  simp [settle, Submits]

theorem secondNpub_ok : (decodeNpubToHex (sampleNpub 3)).ok = true := by decide +kernel

theorem snapshot_within_last_same : ∃ last : LastSubmission samplePlatform,
    last.relayUrls = [sampleRelay] ∧
      ∀ url ∈ last.after.sharedStats.snapshot.map RelayStat.relayUrl, url ∈ last.relayUrls := by
  have hrelays : (resolveRelaysForPubkey samplePlatform (decodeNpubToHex (sampleNpub 3)).hexPubkey
      kDefaultSeed (seedsKnow sampleRelay)).1.relayUrls = [sampleRelay] := by decide +kernel
  have hseen : ((run (step samplePlatform) (start {}) firstMonitored).bind fun before =>
      (run (step samplePlatform) before (secondMonitored sampleRelay)).map fun _ =>
        (before.pending.length, before.sessionManager.retired.length,
          before.sessionManager.sessions.map fun session => session.data.relayUrl)) =
      some (0, 0, [sampleRelay]) := by decide +kernel
  obtain ⟨before, -, hafter⟩ := Option.bind_eq_some_iff.mp hseen
  obtain ⟨after, hrun, hbefore⟩ := Option.map_eq_some_iff.mp hafter
  rw [Prod.mk.injEq, Prod.mk.injEq, List.length_eq_zero_iff, List.length_eq_zero_iff] at hbefore
  obtain ⟨hpending, hretired, hsessions⟩ := hbefore
  obtain ⟨last, rfl, rfl, hwaiting, hlast⟩ :=
    exists_lastSubmission hpending secondNpub_ok (by decide +kernel) settle_rests hrun
  refine ⟨last, hlast.trans hrelays, ?_⟩
  refine snapshot_within_last samplePlatform last ⟨fun session hsession => ?_, ?_⟩ ?_
  · rw [hlast, hrelays, ← hsessions]
    exact List.mem_map_of_mem hsession
  · rw [hretired]
    exact nofun
  · rw [hwaiting]
    trivial

/-- The relay is another one: the relay of the first session is back in the store. -/
theorem stale_relay_returns : ∃ last : LastSubmission samplePlatform,
    run (step samplePlatform) (start {}) firstMonitored = some last.before ∧
    (∀ session ∈ last.after.sessionManager.sessions ++ last.after.sessionManager.retired,
      session.queue = []) ∧
    ∃ url ∈ last.after.sharedStats.snapshot.map RelayStat.relayUrl, url ∉ last.relayUrls := by
  have hrelays : (resolveRelaysForPubkey samplePlatform (decodeNpubToHex (sampleNpub 3)).hexPubkey
      kDefaultSeed (seedsKnow otherRelay)).1.relayUrls = [otherRelay] := by decide +kernel
  have hseen : ((run (step samplePlatform) (start {}) firstMonitored).bind fun before =>
      (run (step samplePlatform) before (secondMonitored otherRelay)).map fun after =>
        (before.pending.length, (after.sessionManager.sessions ++ after.sessionManager.retired).map
          fun session => session.queue.length, decide (sampleRelay ∈ after.sharedStats.byRelay))) =
      some (0, [0, 0], true) := by decide +kernel
  obtain ⟨before, hbefore, hafter⟩ := Option.bind_eq_some_iff.mp hseen
  obtain ⟨after, hrun, hfacts⟩ := Option.map_eq_some_iff.mp hafter
  rw [Prod.mk.injEq, Prod.mk.injEq, List.length_eq_zero_iff, decide_eq_true_eq] at hfacts
  obtain ⟨hpending, hqueues, hstale⟩ := hfacts
  obtain ⟨last, rfl, rfl, -, hlast⟩ :=
    exists_lastSubmission hpending secondNpub_ok (by decide +kernel) settle_rests hrun
  refine ⟨last, hbefore, fun session hsession => ?_, sampleRelay,
    (RelayStats.mem_snapshot_urls _ _).mpr hstale, ?_⟩
  · have hlen : session.queue.length ∈ [0, 0] := by
      rw [← hqueues]
      exact List.mem_map_of_mem hsession
    rw [List.mem_pair, or_self, List.length_eq_zero_iff] at hlen
    exact hlen
  · rw [hlast, hrelays]
    decide

end Application
end Monitostr.Main
