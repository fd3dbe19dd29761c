import Monitostr.Main.RelayIsolation
import Monitostr.Main.StatsScope
import Monitostr.Net.BootstrapOutcome
import Monitostr.Net.SessionRoster

/-! # The rows of the table

The rows of the table are written by the handlers of all sessions, running and forgotten. When the steady
clock does not go back, every row is well formed in every state of the program: its fields agree with each
other and with the clock.
-/

namespace Monitostr.Main
open Foundations Foundations.Behaviour Model Net Nostr
set_option autoImplicit false

/-! ## Well-formed records -/

/-- A record that is shown at this time. A latency is a whole number of milliseconds since the clock
began. -/
structure RowSound (now : ℕ) (stat : RelayStat) : Prop where
  secure : isSecureRelay stat.relayUrl = true
  connected : stat.connectedAt.isSome = true ↔ stat.status = .subscribed
  since : ∀ t ∈ stat.connectedAt, t ≤ now
  lastError : stat.lastError ≠ [] ↔ stat.status = .error
  latest : stat.latencyMs = stat.latencyHistoryMs.getLast?
  history : stat.latencyHistoryMs.length ≤ RelayStats.kLatencyHistoryWindow
  latencies : ∀ latencyMs ∈ stat.latencyHistoryMs, 0 ≤ latencyMs ∧ latencyMs * 1000000 ≤ now
  nips : stat.supportedNips.Pairwise (· < ·)

/-- A call that keeps the records well formed. -/
def KeepsRows (now : ℕ) : StatsOp → Prop
  | .reset => True
  | .ensureRelay relayUrl | .incrementEvent relayUrl | .setSupportedNips relayUrl _ =>
    isSecureRelay relayUrl = true
  | .setStatus relayUrl status error =>
    isSecureRelay relayUrl = true ∧ (error ≠ [] ↔ status = .error)
  | .recordLatency relayUrl latencyMs =>
    isSecureRelay relayUrl = true ∧ 0 ≤ latencyMs ∧ latencyMs * 1000000 ≤ now

theorem RowSound.later {now now' : ℕ} {stat : RelayStat} (h : RowSound now stat) (hnow : now ≤ now') :
    RowSound now' stat :=
  { h with
    since := fun t ht => Nat.le_trans (h.since t ht) hnow
    latencies := fun l hl => ⟨(h.latencies l hl).1,
      Int.le_trans (h.latencies l hl).2 (Int.ofNat_le.mpr hnow)⟩ }

theorem rowSound_new {now : ℕ} {relayUrl : Str} (h : isSecureRelay relayUrl = true) :
    RowSound now { relayUrl := relayUrl } where
  secure := h
  connected := by simp
  since := by simp
  lastError := by simp
  latest := rfl
  history := Nat.zero_le _
  latencies := List.forall_mem_nil _
  nips := List.Pairwise.nil

/-- A call on a well-formed record. -/
theorem RowSound.apply {m : Moment} {op : StatsOp} {stat : RelayStat} (h : RowSound m.steady stat)
    (hop : KeepsRows m.steady op) : RowSound m.steady (stat.apply (m, op)) := by
  cases op with
  | reset => exact h
  | ensureRelay relayUrl => exact h
  | setStatus relayUrl status error =>
    refine { h with connected := ?_, since := ?_, lastError := hop.2 }
    · change (if status = .subscribed then some m.steady else none).isSome = true ↔ status = .subscribed
      split <;> simp_all
    · change ∀ t ∈ (if status = .subscribed then some m.steady else none), t ≤ m.steady
      split
      · exact fun t ht => Nat.le_of_eq (Option.mem_some_iff.mp ht).symm
      · simp
  | recordLatency relayUrl latencyMs =>
    refine { h with latest := ?_, history := ?_, latencies := ?_ }
    · exact (getLast?_rtake _ _ _).symm
    · change ((stat.latencyHistoryMs ++ [latencyMs]).rtake RelayStats.kLatencyHistoryWindow).length ≤ _
      rw [List.rtake, List.length_drop]
      omega
    · intro l hl
      rcases List.mem_append.mp (List.mem_of_mem_drop hl) with hl | hl
      · exact h.latencies l hl
      · obtain rfl := List.mem_singleton.mp hl
        exact hop.2
  | incrementEvent relayUrl => exact { h with }
  | setSupportedNips relayUrl nips => exact { h with nips := sortUnique_pairwise nips }

/-- Every record of the store is well formed at this time. -/
def StoreSound (now : ℕ) (stats : RelayStats) : Prop :=
  ∀ url stat, stats.lookup url = some stat → RowSound now stat

theorem storeSound_empty (now : ℕ) : StoreSound now .empty := by
  intro url stat h
  cases h

theorem StoreSound.later {now now' : ℕ} {stats : RelayStats} (h : StoreSound now stats)
    (hnow : now ≤ now') : StoreSound now' stats :=
  fun url stat hstat => (h url stat hstat).later hnow

theorem KeepsRows.secure {now : ℕ} {op : StatsOp} (h : KeepsRows now op) {relayUrl : Str}
    (hurl : op.relayUrl? = some relayUrl) : isSecureRelay relayUrl = true := by
  cases op with
  | reset => cases hurl
  | ensureRelay u | incrementEvent u | setSupportedNips u nips =>
    obtain rfl := Option.some.inj hurl
    exact h
  | setStatus u status error | recordLatency u latencyMs =>
    obtain rfl := Option.some.inj hurl
    exact h.1

theorem StoreSound.apply {m : Moment} {stats : RelayStats} {op : StatsOp}
    (h : StoreSound m.steady stats) (hop : KeepsRows m.steady op) :
    StoreSound m.steady (stats.apply m op) := by
  intro url stat hstat
  cases hurl : op.relayUrl? with
  | none =>
    have hkey : (relayOps ℤ).key (m, op) = none := hurl
    rw [stats.lookup_apply (m, op), KeyedOps.after, hkey] at hstat
    cases hstat
  | some relayUrl =>
    rw [stats.lookup_apply_of_relayUrl m hurl] at hstat
    by_cases heq : url = relayUrl
    · subst heq
      rw [Function.update_self, Option.some.injEq] at hstat
      subst hstat
      refine RowSound.apply ?_ hop
      cases hold : stats.lookup url with
      | none =>
        rw [Option.getD_none]
        exact rowSound_new (hop.secure hurl)
      | some old => exact h url old hold
    · rw [Function.update_of_ne heq] at hstat
      exact h url stat hstat

theorem StoreSound.foldl {m : Moment} {stats : RelayStats} {ops : List StatsOp}
    (h : StoreSound m.steady stats) (hops : ∀ op ∈ ops, KeepsRows m.steady op) :
    StoreSound m.steady (ops.foldl (fun stats op => stats.apply m op) stats) := by
  induction ops generalizing stats with
  | nil => exact h
  | cons op ops ih =>
    exact ih (h.apply (hops op List.mem_cons_self)) fun x hx => hops x (List.mem_cons_of_mem _ hx)

/-! ## What the sessions write -/

variable {pf : Platform} {m : Moment} {s : RelaySession}

theorem keepsRows_error (hurl : isSecureRelay s.relayUrl = true) {text : Str} (htext : text ≠ [])
    {op : StatsOp} (h : Effect.stats op = s.setStatus .error text) : KeepsRows m.steady op := by
  obtain rfl := Effect.stats.inj h
  exact ⟨hurl, by simp [htext]⟩

theorem keepsRows_status (hurl : isSecureRelay s.relayUrl = true) {status : RelayStatus}
    (hstatus : status ≠ .error) {op : StatsOp} (h : Effect.stats op = s.setStatus status) :
    KeepsRows m.steady op := by
  obtain rfl := Effect.stats.inj h
  exact ⟨hurl, by simp [hstatus]⟩

theorem keepsRows_markError (hurl : isSecureRelay s.relayUrl = true) {where_ ec : Str} {op : StatsOp}
    (h : Effect.stats op ∈ (s.markError pf m where_ ec).2) : KeepsRows m.steady op := by
  rcases RelaySession.mem_markError h with h | ⟨_, _, h⟩ | h | ⟨_, h⟩
  · have htext : where_ ++ lit ": " ++ ec ≠ [] := fun hnil =>
      absurd (List.append_eq_nil_iff.mp (List.append_eq_nil_iff.mp hnil).1).2 (by decide)
    exact keepsRows_error hurl htext h
  · cases h
  · cases h
  · cases h

theorem keepsRows_onStart (hurl : isSecureRelay s.relayUrl = true) {op : StatsOp}
    (h : Effect.stats op ∈ s.onStart.2) : KeepsRows m.steady op := by
  have hensure : ∀ {op : StatsOp}, Effect.stats op = .stats (.ensureRelay s.relayUrl) →
      KeepsRows m.steady op := fun h => by
    obtain rfl := Effect.stats.inj h
    exact hurl
  rw [RelaySession.onStart] at h
  split at h
  · simp only [List.mem_cons, List.not_mem_nil, or_false, reduceCtorEq, false_or] at h
    rcases h with h | h | h
    · exact hensure h
    · exact keepsRows_error hurl (by decide) h
    · cases h
  · split at h
    · simp only [List.mem_cons, List.not_mem_nil, or_false, reduceCtorEq, false_or] at h
      rcases h with h | h | h
      · exact hensure h
      · exact keepsRows_error hurl (by decide) h
      · cases h
    · simp only [RelaySession.startResolve, List.mem_append, List.mem_cons, List.not_mem_nil, or_false,
        reduceCtorEq, false_or] at h
      rcases h with h | h | h
      · cases h
      · exact hensure h
      · exact keepsRows_status hurl (by decide) h

theorem keepsRows_handleMessage (hurl : isSecureRelay s.relayUrl = true)
    (hsent : s.reqSentAt ≤ m.steady) {payload : Str} {op : StatsOp}
    (h : Effect.stats op ∈ s.handleMessage pf m payload) : KeepsRows m.steady op := by
  rw [RelaySession.handleMessage] at h
  split at h
  · rcases RelaySession.mem_onAuthChallenge h with ⟨_, _, h⟩ | h | ⟨_, h⟩ <;> cases h
  · obtain rfl := Effect.stats.inj (List.mem_singleton.mp h)
    exact hurl
  · simp only [List.mem_cons, List.not_mem_nil, or_false] at h
    rcases h with h | h
    · obtain rfl := Effect.stats.inj h
      have helapsed : (m.steady : ℤ) - s.reqSentAt = ((m.steady - s.reqSentAt : ℕ) : ℤ) :=
        (Int.ofNat_sub hsent).symm
      refine ⟨hurl, ?_, ?_⟩
      · rw [helapsed]
        exact Int.tdiv_nonneg (Int.natCast_nonneg _) (by decide)
      · rw [helapsed, Int.tdiv_eq_ediv_of_nonneg (Int.natCast_nonneg _)]
        omega
    · cases h
  · cases h

/-- A handler of a session for a secure URL, whose clock has not gone back. -/
theorem keepsRows_handle (hurl : isSecureRelay s.relayUrl = true) (hsent : s.reqSentAt ≤ m.steady)
    (item : Item SessionCall AsyncOp Outcome) {op : StatsOp}
    (h : Effect.stats op ∈ (s.handle pf m item).2) : KeepsRows m.steady op := by
  by_cases hitem : item = .call .start
  · subst hitem
    exact keepsRows_onStart hurl h
  have hturn : RelaySession.Turn pf m s item (s.handle pf m item) := RelaySession.handle_turn item
  generalize s.handle pf m item = result at h hturn
  cases hturn with
  | refuse | start => exact absurd rfl hitem
  | fail op' o ec => exact keepsRows_markError hurl h
  | failSni o ec =>
    rcases List.mem_cons.mp h with h | h
    · cases h
    · exact keepsRows_markError hurl h
  | read o next hec hnext =>
    rcases List.mem_append.mp h with h | h
    · exact keepsRows_handleMessage hurl hsent h
    · subst hnext
      split at h
      · cases h
      · cases List.mem_singleton.mp h
  | nips parsedRelay o text hstopped =>
    simp only [List.mem_cons, List.not_mem_nil, or_false] at h
    rcases h with h | h
    · obtain rfl := Effect.stats.inj h
      exact hurl
    · cases h
  | stopClosed hws =>
    simp only [List.mem_cons, List.not_mem_nil, or_false, reduceCtorEq, false_or] at h
    exact keepsRows_status hurl (by decide) h
  | closed o => exact keepsRows_status hurl (by decide) (List.mem_singleton.mp h)
  | reconnect delayMs o =>
    simp only [RelaySession.startResolve, List.mem_append, List.mem_cons, List.not_mem_nil, or_false,
      reduceCtorEq, false_or] at h
    exact keepsRows_status hurl (by decide) h
  | subscribed host target o text last hec hlast =>
    simp only [List.mem_cons, List.not_mem_nil, or_false, reduceCtorEq, false_or] at h
    rcases h with h | h
    · exact keepsRows_status hurl (by decide) h
    · subst hlast
      split at h <;> cases h
  | resolved | connected | secured =>
    simp only [List.mem_cons, List.not_mem_nil, or_false, reduceCtorEq, false_or] at h
    exact keepsRows_status hurl (by decide) h
  | stopOpen | requested | authWritten =>
    simp only [List.mem_cons, List.not_mem_nil, or_false, reduceCtorEq] at h
  | setAuthKey | noReconnect | noNips => cases h

/-! ## The sessions of the program -/

/-- A session that writes well-formed rows from this time on. -/
def WritesRows (now : ℕ) (session : SessionObject) : Prop :=
  isSecureRelay session.data.relayUrl = true ∧ session.data.reqSentAt ≤ now

theorem reqSentAt_handle (item : Item SessionCall AsyncOp Outcome) (hsent : s.reqSentAt ≤ m.steady) :
    (s.handle pf m item).1.reqSentAt ≤ m.steady := by
  have hturn : RelaySession.Turn pf m s item (s.handle pf m item) := RelaySession.handle_turn item
  generalize s.handle pf m item = result at hturn ⊢
  cases hturn with
  | fail op o ec =>
    obtain ⟨n, hn⟩ := @RelaySession.markError_fst pf m s op.where_ ec
    rw [hn]
    exact hsent
  | failSni o ec =>
    obtain ⟨n, hn⟩ := @RelaySession.markError_fst pf m s (lit "set_sni") ec
    rw [hn]
    exact hsent
  | subscribed => exact Nat.le_refl m.steady
  | _ => exact hsent

theorem WritesRows.later {now now' : ℕ} {session : SessionObject} (h : WritesRows now session)
    (hnow : now ≤ now') : WritesRows now' session :=
  ⟨h.1, Nat.le_trans h.2 hnow⟩

/-- A step of a session keeps what it writes well formed, and what it writes is. -/
theorem WritesRows.react {session session' : SessionObject} {io : SessionIo} {effects : List Effect}
    (h : WritesRows m.steady session)
    (hreact : (sessionBehaviour pf).react session (io.event m) = some (session', effects)) :
    WritesRows m.steady session' ∧ ∀ op ∈ Application.statsOps effects, KeepsRows m.steady op := by
  have hurl := (react_target hreact).1
  refine ⟨⟨hurl ▸ h.1, ?_⟩, fun op hop => ?_⟩
  · cases io with
    | finish i o =>
      obtain ⟨p, -, ⟨-, -, rfl⟩ | ⟨-, rfl⟩⟩ := react_finish hreact
      · have hdeliver : (session.data.deliver p.op o).reqSentAt = session.data.reqSentAt := by
          cases p.op <;> rfl
        exact hdeliver ▸ h.2
      · exact h.2
    | run =>
      obtain ⟨item, rest, -, -, rfl⟩ := react_run hreact
      exact reqSentAt_handle item h.2
  · rw [Application.mem_statsOps] at hop
    cases io with
    | finish i o =>
      obtain ⟨p, -, ⟨-, rfl, -⟩ | ⟨hd, -⟩⟩ := react_finish hreact
      · cases hop
      · rcases RelaySession.direct_cases hd with ⟨-, rfl⟩ | ⟨message, rfl⟩
        · exact keepsRows_status h.1 (by decide) (List.mem_singleton.mp hop)
        · cases List.mem_singleton.mp hop
    | run =>
      obtain ⟨item, rest, -, rfl, -⟩ := react_run hreact
      exact keepsRows_handle h.1 h.2 item hop

/-! ## The program and its clock -/

def AppEvent.moment : AppEvent → Moment
  | .npubSubmit m _ | .nsecSubmit m _ | .bootstrapCompletes m _ | .session m _ _ _ => m

/-- The program with the steady clock at its last step. -/
def clockedStep (pf : Platform) (p : Application × ℕ) (e : AppEvent) : Option (Application × ℕ) :=
  (Application.step pf p.1 e).map fun app => (app, e.moment.steady)

/-- The steady clock does not go back. -/
def ClockGoesOn (p : Application × ℕ) (e : AppEvent) : Prop := p.2 ≤ e.moment.steady

structure TableSound (p : Application × ℕ) : Prop where
  store : StoreSound p.2 p.1.sharedStats
  sessions : ∀ session ∈ p.1.sessionManager.made, WritesRows p.2 session

theorem mem_made {manager : SessionManager} {session : SessionObject} :
    session ∈ manager.made ↔ ∃ group, session ∈ manager.sessionsIn group := by
  rw [SessionManager.made, List.mem_append]
  constructor
  · rintro (h | h)
    · exact ⟨.retired, h⟩
    · exact ⟨.running, h⟩
  · rintro ⟨group, h⟩
    cases group with
    | running => exact Or.inr h
    | retired => exact Or.inl h

theorem writesRows_dispatched {now : ℕ} {sessions : List SessionObject} (c : SessionCall)
    (h : ∀ session ∈ sessions, WritesRows now session) :
    ∀ session ∈ sessions.map (dispatch c), WritesRows now session := by
  intro session hsession
  obtain ⟨running, hrunning, rfl⟩ := List.mem_map.mp hsession
  exact h running hrunning

theorem writesRows_started {now : ℕ} {hexPubkey : Str} {authKey : Option AuthKey} {relayUrls : List Str} :
    ∀ session ∈ (supportedRelayUrls relayUrls).map (SessionManager.startedSession hexPubkey authKey),
      WritesRows now session := by
  intro session hsession
  obtain ⟨url, hurl, rfl⟩ := List.mem_map.mp hsession
  exact ⟨(mem_supportedRelayUrls.mp hurl).2, Nat.zero_le _⟩

/-- What belongs to the state before a step belongs to it at the time of the step. -/
theorem TableSound.later {p : Application × ℕ} {e : AppEvent} (h : TableSound p)
    (he : ClockGoesOn p e) : TableSound (p.1, e.moment.steady) :=
  ⟨h.store.later he, fun session hsession => (h.sessions session hsession).later he⟩

/-- The turn of a session. -/
theorem TableSound.turn {app app' : Application} {e : SessionTurn} (h : TableSound (app, e.m.steady))
    (hturn : app.turn pf e = some app') : TableSound (app', e.m.steady) := by
  obtain ⟨session, session', effects, hi, hreact, hstats, hgroups, -⟩ := Application.turn_eq_some hturn
  have hbefore : WritesRows e.m.steady session :=
    h.sessions session (mem_made.mpr ⟨e.group, List.mem_of_getElem? hi⟩)
  obtain ⟨hafter, hops⟩ := hbefore.react hreact
  refine ⟨?_, fun x hx => ?_⟩
  · rw [hstats]
    exact h.store.foldl hops
  · obtain ⟨group, hgroup⟩ := mem_made.mp hx
    rw [hgroups group] at hgroup
    split at hgroup
    · rcases List.mem_or_eq_of_mem_set hgroup with hx | rfl
      · exact h.sessions x (mem_made.mpr ⟨group, hx⟩)
      · exact hafter
    · exact h.sessions x (mem_made.mpr ⟨group, hgroup⟩)

theorem TableSound.step {p q : Application × ℕ} {e : AppEvent} (hp : TableSound p)
    (he : ClockGoesOn p e) (hstep : clockedStep pf p e = some q) : TableSound q := by
  obtain ⟨app', happ, rfl⟩ := Option.map_eq_some_iff.mp hstep
  obtain ⟨app, now⟩ := p
  have h := hp.later he
  cases Application.step_moves happ with
  | rejectedNpub | rejectedNsec => exact ⟨h.store, h.sessions⟩
  | npub | nsec => exact ⟨storeSound_empty _, h.sessions⟩
  | newKey m nsec key logBuffer hkey hsessions =>
    refine ⟨h.store, fun session hsession => ?_⟩
    rcases List.mem_append.mp hsession with hmem | hmem
    · exact h.sessions session (List.mem_append_left _ hmem)
    · exact writesRows_dispatched _ (fun x hx => h.sessions x (List.mem_append_right _ hx)) session hmem
  | bootstrapFails => exact ⟨h.store, h.sessions⟩
  | bootstrapSucceeds m behaviour bootstrap rest logBuffer hpending hok =>
    refine ⟨h.store, fun session hsession => ?_⟩
    obtain ⟨relayUrls, hsupported⟩ :=
      resolve_relayUrls_supported pf bootstrap.hexPubkey kDefaultSeed behaviour
    rcases List.mem_append.mp hsession with hmem | hmem
    · rcases List.mem_append.mp hmem with hmem | hmem
      · exact h.sessions session (List.mem_append_left _ hmem)
      · exact writesRows_dispatched _ (fun x hx => h.sessions x (List.mem_append_right _ hx)) session hmem
    · dsimp only at hmem
      rw [hsupported] at hmem
      exact writesRows_started session hmem
  | session m group i io manager effects logBuffer hreact =>
    exact @TableSound.turn pf app _ ⟨m, group, i, io⟩ h happ

/-- **Every row of the table is well formed.** When the steady clock does not go back, then in every state of
every run of the program each row is that of a secure relay, says since when it is subscribed exactly when it
is, gives an error exactly when its status is one, and has as latency the last of a history of at most sixty,
none of them below zero or more than the clock; its NIPs are in order, each once. -/
theorem rows_sound (pf : Platform) (m : Moment) (es : List AppEvent)
    (hes : Along (clockedStep pf) ClockGoesOn (Application.start m, m.steady) es) :
    Throughout (clockedStep pf) (fun p => ∀ stat ∈ p.1.sharedStats.snapshot, RowSound p.2 stat)
      (Application.start m, m.steady) es := by
  have hstart : TableSound (Application.start m, m.steady) :=
    ⟨storeSound_empty _, List.forall_mem_nil _⟩
  refine throughout_keeps (fun _ _ _ hp he h => TableSound.step hp he h) (fun p hp stat hstat => ?_)
    hstart hes
  exact hp.store stat.relayUrl stat (RelayStats.mem_snapshot.mp hstat)

theorem clockedStep_clock {p q : Application × ℕ} {e : AppEvent} (h : clockedStep pf p e = some q) :
    q.2 = e.moment.steady := by
  obtain ⟨app, -, rfl⟩ := Option.map_eq_some_iff.mp h
  rfl

/-- The clock goes on when the events have its readings in order. -/
theorem clock_goes_on {es : List AppEvent} {p : Application × ℕ}
    (h : List.IsChain (· ≤ ·) (p.2 :: es.map fun e => e.moment.steady)) :
    Along (clockedStep pf) ClockGoesOn p es := by
  induction es generalizing p with
  | nil => trivial
  | cons e es ih =>
    rw [List.map_cons, List.isChain_cons_cons] at h
    intro q hq
    refine ⟨h.1, ih ?_⟩
    rw [clockedStep_clock hq]
    exact h.2

/-- A relay is found, and its session connects and subscribes. -/
def tableSample : List AppEvent :=
  [.npubSubmit { steady := 3 } (sampleNpub 1),
    .bootstrapCompletes { steady := 5 } (seedsKnow sampleRelay),
    .session { steady := 6 } .running 0 .run, .session { steady := 6 } .running 0 .run,
    .session { steady := 7 } .running 0 (.finish 0 {}), .session { steady := 7 } .running 0 .run,
    .session { steady := 8 } .running 0 (.finish 0 {}), .session { steady := 8 } .running 0 .run,
    .session { steady := 9 } .running 0 (.finish 0 {}), .session { steady := 9 } .running 0 .run,
    .session { steady := 10 } .running 0 (.finish 0 {}), .session { steady := 10 } .running 0 .run]

/-- It gets the NIPs of the relay and, after four milliseconds, the end of the stored events. -/
def tableAnswered : List AppEvent :=
  [.session { steady := 12 } .running 0 (.finish 0 { payload := (jsonText sampleNips).getD [] }),
    .session { steady := 12 } .running 0 .run,
    .session { steady := 13 } .running 0 (.finish 0 {}), .session { steady := 13 } .running 0 .run,
    .session { steady := 4000010 } .running 0 (.finish 0
      { payload := (jsonText (eoseMessage (lit "bootstrap-10002"))).getD [] }),
    .session { steady := 4000010 } .running 0 .run]

/-- The relay closes the connection. -/
def tableFailed : List AppEvent :=
  [.session { steady := 4000020 } .running 0 (.finish 0 { ec := some (lit "End of file") }),
    .session { steady := 4000020 } .running 0 .run]

/-- The row of the relay after the events: its status, since when it is connected, its latencies and
NIPs. -/
def rowAfter (es : List AppEvent) : Option (RelayStatus × Option ℕ × List ℤ × List Int32) :=
  ((run (clockedStep samplePlatform) (Application.start {}, 0) es).bind fun p =>
    p.1.sharedStats.lookup sampleRelay).map fun stat =>
      (stat.status, stat.connectedAt, stat.latencyHistoryMs, stat.supportedNips)

theorem rows_sound_sample :
    Throughout (clockedStep samplePlatform)
        (fun p => ∀ stat ∈ p.1.sharedStats.snapshot, RowSound p.2 stat) (Application.start {}, 0)
        (tableSample ++ tableAnswered ++ tableFailed) ∧
      rowAfter (tableSample ++ tableAnswered) = some (.subscribed, some 10, [4], [11]) ∧
      rowAfter (tableSample ++ tableAnswered ++ tableFailed) = some (.error, none, [4], [11]) :=
  ⟨rows_sound samplePlatform {} _ (clock_goes_on (by decide)), by decide +kernel, by decide +kernel⟩

end Monitostr.Main
