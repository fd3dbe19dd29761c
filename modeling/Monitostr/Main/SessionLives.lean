import Monitostr.Main.MessageCounts
import Monitostr.Net.Persistence
import Monitostr.Net.SessionRoster

/-! # The program as its sessions

Every session of the program, running or forgotten, has come to be by a run of its own: it is started once,
for a secure URL in UTF-8 and a pubkey in hex, and stopped when it is forgotten. So what holds of every run
of a session holds in the program, whatever the other sessions, the submissions and the bootstraps do.
-/

namespace Monitostr.Main
open Foundations Foundations.Behaviour Model Net Nip19 Nostr
set_option autoImplicit false

/-! ## Lives -/

/-- How a session was made, and what has happened to it. -/
structure Life where
  relayUrl : Str
  hexPubkey : Str
  authKey : Option AuthKey
  events : List SessionEvent

def Life.made (life : Life) : SessionObject :=
  SessionManager.startedSession life.hexPubkey life.authKey life.relayUrl

def isStop : SessionCall → Bool
  | .stop => true
  | .start | .setAuthKey _ => false

/-- The pubkey is that of 32 bytes. -/
def IsPubkeyHex (hexPubkey : Str) : Prop := ∃ bytes : Bytes 32, hexPubkey = Nip19.bytesToHex bytes.1

/-- No event starts the session again, and its input and output meet the guard. -/
def Served (G : SessionObject → SessionEvent → Prop) (session : SessionObject) : SessionEvent → Prop
  | .call c => c ≠ .start
  | .finish i o => G session (.finish i o)
  | .run m => G session (.run m)

structure Life.Leads (pf : Platform) (G : SessionObject → SessionEvent → Prop) (life : Life)
    (session : SessionObject) : Prop where
  reaches : run (sessionBehaviour pf).step life.made life.events = some session
  served : Along (sessionBehaviour pf).step (Served G) life.made life.events
  secure : ∃ parsed, parseRelayUrl life.relayUrl = some parsed ∧ parsed.secure = true
  utf8 : IsUtf8 life.relayUrl
  pubkey : IsPubkeyHex life.hexPubkey

/-- The session has come to be by a life in which it was stopped this many times. -/
def Lives (pf : Platform) (G : SessionObject → SessionEvent → Prop) (stops : ℕ)
    (session : SessionObject) : Prop :=
  ∃ life : Life, life.Leads pf G session ∧ life.events.countP (isCallEvent isStop) = stops

variable {pf : Platform} {G : SessionObject → SessionEvent → Prop}

theorem Lives.step {stops : ℕ} {session session' : SessionObject} {e : SessionEvent}
    {effects : List Effect} (h : Lives pf G stops session) (he : Served G session e)
    (hreact : (sessionBehaviour pf).react session e = some (session', effects)) :
    Lives pf G (stops + (isCallEvent isStop e).toNat) session' := by
  obtain ⟨life, hlife, hstops⟩ := h
  have hone : run (sessionBehaviour pf).step session [e] = some session' := by
    rw [run_cons_eq_some]
    exact ⟨session', step_eq_some.mpr ⟨effects, hreact⟩, rfl⟩
  refine ⟨{ life with events := life.events ++ [e] }, ⟨?_, ?_, hlife.secure, hlife.utf8, hlife.pubkey⟩, ?_⟩
  · exact run_append_eq_some.mpr ⟨session, hlife.reaches, hone⟩
  · refine along_append.mpr ⟨hlife.served, fun t ht s' _ => ?_⟩
    obtain rfl := Option.some.inj (hlife.reaches.symm.trans ht)
    exact ⟨he, trivial⟩
  · rw [List.countP_append, hstops, countP_cons_toNat, List.countP_nil, Nat.zero_add]

theorem Lives.dispatch {stops : ℕ} {session : SessionObject} {c : SessionCall}
    (h : Lives pf G stops session) (hc : c ≠ .start) :
    Lives pf G (stops + (isStop c).toNat) (dispatch c session) :=
  h.step (e := .call c) hc (react_call.mpr ⟨rfl, rfl⟩)

theorem Lives.io {stops : ℕ} {session session' : SessionObject} {m : Moment} {io : SessionIo}
    {effects : List Effect} (h : Lives pf G stops session) (hio : G session (io.event m))
    (hreact : (sessionBehaviour pf).react session (io.event m) = some (session', effects)) :
    Lives pf G stops session' := by
  cases io with
  | finish i o => exact h.step (e := .finish i o) hio hreact
  | run => exact h.step (e := .run m) hio hreact

/-! ## The sessions of the program -/

/-- What completes at a session, and the handlers it runs, meet the guard. -/
def Heeds (G : SessionObject → SessionEvent → Prop) (app : Application) : AppEvent → Prop
  | .session m group i io => ∀ session, (app.sessionManager.sessionsIn group)[i]? = some session →
    G session (io.event m)
  | .npubSubmit _ _ | .nsecSubmit _ _ | .bootstrapCompletes _ _ => True

structure SessionsLive (pf : Platform) (G : SessionObject → SessionEvent → Prop) (app : Application) :
    Prop where
  running : ∀ session ∈ app.sessionManager.sessions, Lives pf G 0 session
  retired : ∀ session ∈ app.sessionManager.retired, Lives pf G 1 session
  pending : ∀ bootstrap ∈ app.pending, IsPubkeyHex bootstrap.hexPubkey

theorem isPubkeyHex_of_npub {npub : Str} (h : (decodeNpubToHex npub).ok = true) :
    IsPubkeyHex (decodeNpubToHex npub).hexPubkey := by
  rw [decodeNpubToHex] at h ⊢
  cases hdecode : decodeBech32_32Bytes npub (lit "npub") with
  | error error =>
    rw [hdecode] at h
    cases h
  | ok bytes =>
    obtain ⟨chars, -, -, -, hlength⟩ := framed_of_decodeBech32_32Bytes hdecode
    exact ⟨⟨bytes, hlength⟩, rfl⟩

theorem isUtf8_of_isPubkeyHex {hexPubkey : Str} (h : IsPubkeyHex hexPubkey) : IsUtf8 hexPubkey := by
  obtain ⟨bytes, rfl⟩ := h
  exact isUtf8_bytesToHex bytes.1

theorem forall_lives_reactAt {stops : ℕ} {sessions sessions' : List SessionObject} {i : ℕ} {m : Moment}
    {io : SessionIo} {effects : List Effect}
    (h : (sessionBehaviour pf).reactAt sessions i (io.event m) = some (sessions', effects))
    (hlives : ∀ session ∈ sessions, Lives pf G stops session)
    (hio : ∀ session, sessions[i]? = some session → G session (io.event m)) :
    ∀ session ∈ sessions', Lives pf G stops session := by
  obtain ⟨session, session', hsession, hreact, rfl⟩ := reactAt_eq_some.mp h
  intro x hx
  rcases List.mem_or_eq_of_mem_set hx with hx | rfl
  · exact hlives x hx
  · exact (hlives session (List.mem_of_getElem? hsession)).io (hio session hsession) hreact

theorem SessionsLive.dispatched {app : Application} (h : SessionsLive pf G app) {c : SessionCall}
    (hc : c ≠ .start) :
    ∀ session ∈ app.sessionManager.sessions.map (dispatch c), Lives pf G (isStop c).toNat session := by
  intro session hsession
  obtain ⟨running, hrunning, rfl⟩ := List.mem_map.mp hsession
  have hlives : Lives pf G (0 + (isStop c).toNat) (dispatch c running) := (h.running running hrunning).dispatch hc
  rwa [Nat.zero_add] at hlives

theorem lives_startedSession {relayUrls : List Str} (hurls : AllUtf8 (supportedRelayUrls relayUrls))
    {hexPubkey : Str} (hpubkey : IsPubkeyHex hexPubkey) (authKey : Option AuthKey) :
    ∀ session ∈ (supportedRelayUrls relayUrls).map (SessionManager.startedSession hexPubkey authKey),
      Lives pf G 0 session := by
  intro session hsession
  obtain ⟨url, hurl, rfl⟩ := List.mem_map.mp hsession
  refine ⟨{ relayUrl := url, hexPubkey := hexPubkey, authKey := authKey, events := [] }, ⟨rfl, trivial, ?_,
    hurls url hurl, hpubkey⟩, rfl⟩
  have hsecure := (mem_supportedRelayUrls.mp hurl).2
  rw [isSecureRelay] at hsecure
  exact (Option.any_eq_true _ _).mp hsecure

theorem SessionsLive.step (hutf8 : ParsesUtf8 pf) {app app' : Application} {e : AppEvent}
    (hs : SessionsLive pf G app) (he : Heeds G app e) (h : Application.step pf app e = some app') :
    SessionsLive pf G app' := by
  cases Application.step_moves h with
  | rejectedNpub | rejectedNsec => exact ⟨hs.running, hs.retired, hs.pending⟩
  | npub m npub logBuffer hok =>
    refine ⟨hs.running, hs.retired, List.forall_mem_append.mpr ⟨hs.pending, ?_⟩⟩
    exact List.forall_mem_singleton.mpr (isPubkeyHex_of_npub hok)
  | nsec m nsec key logBuffer hkey hsessions =>
    refine ⟨hs.running, hs.retired, List.forall_mem_append.mpr ⟨hs.pending, ?_⟩⟩
    exact List.forall_mem_singleton.mpr key.isHex
  | newKey m nsec key logBuffer hkey hsessions =>
    exact ⟨hs.dispatched (c := .setAuthKey (some key)) nofun, hs.retired, hs.pending⟩
  | bootstrapFails m behaviour bootstrap rest logBuffer hpending =>
    refine ⟨hs.running, hs.retired, fun b hb => hs.pending b ?_⟩
    exact hpending ▸ List.mem_cons_of_mem _ hb
  | bootstrapSucceeds m behaviour bootstrap rest logBuffer hpending hok =>
    refine ⟨?_, List.forall_mem_append.mpr ⟨hs.retired, hs.dispatched (c := .stop) nofun⟩, fun b hb =>
      hs.pending b (hpending ▸ List.mem_cons_of_mem _ hb)⟩
    have hseed : IsUtf8 kDefaultSeed := isUtf8_of_all rfl
    have hurls := allUtf8_resolve hutf8 bootstrap.hexPubkey hseed behaviour
    obtain ⟨relayUrls, hsupported⟩ :=
      resolve_relayUrls_supported pf bootstrap.hexPubkey kDefaultSeed behaviour
    have hpubkey := hs.pending bootstrap (hpending ▸ List.mem_cons_self)
    dsimp only
    rw [hsupported] at hurls ⊢
    exact lives_startedSession hurls hpubkey bootstrap.authKeySnapshot
  | session m group i io manager effects logBuffer hreact =>
    unfold SessionManager.react at hreact
    cases group with
    | running =>
      obtain ⟨⟨sessions, effects'⟩, hreactAt, heq⟩ := Option.map_eq_some_iff.mp hreact
      obtain ⟨rfl, rfl⟩ := Prod.mk.inj heq
      exact ⟨forall_lives_reactAt hreactAt hs.running he, hs.retired, hs.pending⟩
    | retired =>
      obtain ⟨⟨retired, effects'⟩, hreactAt, heq⟩ := Option.map_eq_some_iff.mp hreact
      obtain ⟨rfl, rfl⟩ := Prod.mk.inj heq
      exact ⟨hs.running, forall_lives_reactAt hreactAt hs.retired he, hs.pending⟩

theorem sessionsLive_start (m : Moment) : SessionsLive pf G (Application.start m) :=
  ⟨List.forall_mem_nil _, List.forall_mem_nil _, List.forall_mem_nil _⟩

/-- **The program is its sessions.** In every run of the program, in every state, each running session is
where a run of its own has led it that starts it once and never stops it, and each forgotten session where
one has led it that stops it once. What completes at a session in the program completes in that run. -/
theorem sessions_live (hutf8 : ParsesUtf8 pf) (G : SessionObject → SessionEvent → Prop) (m : Moment)
    (es : List AppEvent) (hes : Along (Application.step pf) (Heeds G) (Application.start m) es) :
    Throughout (Application.step pf) (SessionsLive pf G) (Application.start m) es :=
  throughout_keeps (fun _ _ _ hs he h => SessionsLive.step hutf8 hs he h) (fun _ hs => hs)
    (sessionsLive_start m) hes

/-- A relay is found for an npub, and its session is started. -/
def monitorSample : List AppEvent :=
  [.npubSubmit {} (sampleNpub 1), .bootstrapCompletes {} (seedsKnow sampleRelay),
    .session {} .running 0 .run, .session {} .running 0 .run,
    .session {} .running 0 (.finish 0 {}), .session {} .running 0 .run]

theorem heeds_monitorSample (app : Application) : ∀ e ∈ monitorSample, Heeds Undisturbed app e := by
  intro e he
  simp only [monitorSample, List.mem_cons, List.not_mem_nil, or_false] at he
  rcases he with rfl | rfl | rfl | rfl | rfl | rfl <;>
    first | trivial | exact fun _ _ => clockFits_start | exact fun _ _ _ _ _ _ => rfl

theorem sessions_live_sample :
    Throughout (Application.step textPlatform) (SessionsLive textPlatform Undisturbed)
      (Application.start {}) monitorSample :=
  sessions_live textPlatform_parsesUtf8 Undisturbed {} monitorSample
    (along_of_forall fun e he app => heeds_monitorSample app e he)

/-! ## What holds of each session -/

section Each
variable {stops : ℕ} {session : SessionObject}

theorem Life.Leads.no_start {life : Life} (h : life.Leads pf G session) :
    ∀ e ∈ life.events, isCallEvent SessionCall.begins e = false := by
  intro e he
  obtain ⟨before, after, hevents⟩ := List.append_of_mem he
  obtain ⟨t, hbefore, hrest⟩ := run_append_eq_some.mp (hevents ▸ h.reaches)
  obtain ⟨t', hstep, -⟩ := run_cons_eq_some.mp hrest
  have hserved : Served G t e := (hevents ▸ h.served).guard hbefore hstep
  cases e with
  | call c => cases c <;> first | rfl | exact absurd rfl hserved
  | _ => rfl

theorem Lives.oneAtATime (h : Lives pf G stops session) :
    outstanding AsyncOp.inSequence session ≤ 1 := by
  obtain ⟨life, hlife, -⟩ := h
  have hchains := (session_chained pf).run hlife.reaches
  have hnone : life.events.countP (isCallEvent SessionCall.begins) = 0 :=
    List.countP_eq_zero.mpr fun e he => by rw [hlife.no_start e he]; exact Bool.false_ne_true
  have hmade : chains SessionCall.begins AsyncOp.inSequence life.made = 1 := rfl
  exact Nat.le_trans (outstanding_le_chains session) (by rw [hnone, hmade] at hchains; exact hchains)

theorem Lives.targeted (h : Lives pf G stops session) :
    ∃ relayUrl hexPubkey, Targeted relayUrl hexPubkey session.data ∧ IsUtf8 relayUrl ∧
      IsUtf8 hexPubkey ∧ session.data.Usable := by
  obtain ⟨life, hlife, -⟩ := h
  have htarget : Targeted life.relayUrl life.hexPubkey session.data :=
    run_invariant (I := fun o : SessionObject => Targeted life.relayUrl life.hexPubkey o.data)
      (fun o e o' ho hstep => by
        obtain ⟨effects, hreact⟩ := step_eq_some.mp hstep
        exact ho.react hreact)
      (targeted_startedSession life.hexPubkey life.authKey life.relayUrl) hlife.reaches
  obtain ⟨parsed, hparsed, hsecure⟩ := hlife.secure
  exact ⟨life.relayUrl, life.hexPubkey, htarget, hlife.utf8, isUtf8_of_isPubkeyHex hlife.pubkey,
    htarget.usable hparsed hsecure⟩

theorem Life.Leads.undisturbed {life : Life} (h : life.Leads pf Undisturbed session)
    (hstops : life.events.countP (isCallEvent isStop) = 0) :
    Along (sessionBehaviour pf).step Undisturbed life.made life.events := by
  have hnone : Along (sessionBehaviour pf).step (fun _ e => isCallEvent isStop e = false) life.made
      life.events :=
    along_of_forall fun e he _ => by simpa using List.countP_eq_zero.mp hstops e he
  refine along_keeps (I := fun _ => True) (fun o e o' _ hg _ => ⟨trivial, ?_⟩) trivial (h.served.and hnone)
  obtain ⟨hserved, hstop⟩ := hg
  cases e with
  | call c =>
    refine ⟨hserved, ?_⟩
    rintro rfl
    cases hstop
  | _ => exact hserved

/-- The history of the session is that of its life, and it has something to wait for. -/
def LivesEngaged (pf : Platform) (session : SessionObject) : Prop :=
  ∃ (life : Life) (history : History), life.Leads pf Undisturbed session ∧
    run (watched (sessionBehaviour pf).react noteReports) (life.made, []) life.events =
      some (session, history) ∧ Engaged (session, history)

theorem Lives.engaged (hjson : ParseInvertsDump pf) (hutf8 : ParsesUtf8 pf)
    (h : Lives pf Undisturbed 0 session) : LivesEngaged pf session := by
  obtain ⟨life, hlife, hstops⟩ := h
  obtain ⟨history, hrun⟩ := run_watched noteReports ([] : History) hlife.reaches
  have hundisturbed := along_watched noteReports ([] : History) (hlife.undisturbed hstops)
  exact ⟨life, history, hlife, hrun, (persistent_throughout hjson hutf8 hlife.utf8
    (isUtf8_of_isPubkeyHex hlife.pubkey) (fun _ _ hp => hp.engaged) life.authKey hundisturbed).at_end hrun⟩

end Each

/-! ## What holds of all sessions -/

/-- A session does one thing at a time, and whatever it starts next is for its relay and its pubkey, with no
error raised. -/
structure Sound (pf : Platform) (session : SessionObject) : Prop where
  usable : session.data.Usable
  oneAtATime : OneAtATime session
  own : ∀ e, ClockFits e → SendsItsOwn pf session.data.relayUrl session.data.hexPubkey session e

theorem Lives.sound (hjson : ParseInvertsDump pf) (hutf8 : ParsesUtf8 pf) {stops : ℕ}
    {session : SessionObject} (h : Lives pf G stops session) : Sound pf session := by
  obtain ⟨relayUrl, hexPubkey, htarget, hurl, hpubkey, husable⟩ := h.targeted
  refine ⟨husable, .of_sequence h.oneAtATime, fun e he => ?_⟩
  rw [htarget.url, htarget.pubkey]
  exact htarget.sendsItsOwn hjson hutf8 hurl hpubkey he

/-- **Every session of the program** is for a URL that it can use, has at most one operation of its chain
outstanding, and starts nothing that is not for its relay and its pubkey: the host, port and target of its
URL, and the request for its pubkey, which the relay can parse. No handler raises an error, whatever the
relays send and in whatever order the submissions, bootstraps and sessions take their steps. -/
theorem sessions_sound (hjson : ParseInvertsDump pf) (hutf8 : ParsesUtf8 pf) (m : Moment)
    (es : List AppEvent) :
    Throughout (Application.step pf) (fun app => ∀ session ∈ app.sessionManager.made, Sound pf session)
      (Application.start m) es := by
  have hheeds : Along (Application.step pf) (Heeds fun _ _ => True) (Application.start m) es :=
    along_of_forall fun e _ app => by cases e <;> simp [Heeds]
  refine throughout_keeps (fun _ _ _ hs he h => SessionsLive.step hutf8 hs he h)
    (fun _ hs session hsession => ?_) (sessionsLive_start m) hheeds
  rcases List.mem_append.mp hsession with hmem | hmem
  · exact (hs.retired session hmem).sound hjson hutf8
  · exact (hs.running session hmem).sound hjson hutf8

theorem sessions_sound_sample :
    Throughout (Application.step textPlatform)
      (fun app => ∀ session ∈ app.sessionManager.made, Sound textPlatform session)
      (Application.start {}) monitorSample :=
  sessions_sound RelaySession.textPlatform_laws.1 textPlatform_parsesUtf8 {} monitorSample

/-- **No running session is stuck.** As long as the reconnect timers expire, in every state of every run of
the program each running session has something to wait for or has given up for a reason that it has
reported. -/
theorem sessions_never_stuck (hjson : ParseInvertsDump pf) (hutf8 : ParsesUtf8 pf) (m : Moment)
    (es : List AppEvent) (hes : Along (Application.step pf) (Heeds Undisturbed) (Application.start m) es) :
    Throughout (Application.step pf)
      (fun app => ∀ session ∈ app.sessionManager.sessions, LivesEngaged pf session)
      (Application.start m) es :=
  throughout_keeps (fun _ _ _ hs he h => SessionsLive.step hutf8 hs he h)
    (fun _ hs session hsession => (hs.running session hsession).engaged hjson hutf8)
    (sessionsLive_start m) hes

theorem sessions_never_stuck_sample :
    Throughout (Application.step textPlatform)
      (fun app => ∀ session ∈ app.sessionManager.sessions, LivesEngaged textPlatform session)
      (Application.start {}) monitorSample :=
  sessions_never_stuck RelaySession.textPlatform_laws.1 textPlatform_parsesUtf8 {} monitorSample
    (along_of_forall fun e he app => heeds_monitorSample app e he)

end Monitostr.Main
