import Monitostr.Main.Control
import Monitostr.Model.StatsLog
import Monitostr.Net.HandledMessages
import Monitostr.Net.RelayEncoding

/-! # What the payloads of a relay leave in the store

A relay may send any text. However many payloads a session handles, the record of its relay counts the
events and gets one latency for each end of stored events, and nothing else of the store changes. No
payload raises an error, because the relays of the program are UTF-8.
-/

namespace Monitostr.Main
open Foundations Foundations.Behaviour Model Net Nostr
set_option autoImplicit false

/-- The record of a relay; a relay without one has that of a new relay. -/
def record (stats : RelayStats) (relayUrl : Str) : RelayStat :=
  (stats.lookup relayUrl).getD { relayUrl := relayUrl }

namespace Application

/-- The program after the effects of the payloads, in order. -/
def handleMessages {relayUrl : Str} (pf : Platform) (app : Application)
    (messages : List (HandledMessage relayUrl)) : Application :=
  messages.foldl (fun app message => (message.effects pf).foldl (applyEffect message.m) app) app

end Application
open Application

/-! ## The calls of the store -/

section Calls
variable {relayUrl : Str} {pf : Platform}

/-- The latencies that the payloads are to leave, in order. -/
def latencySamples (pf : Platform) (messages : List (HandledMessage relayUrl)) : List ℤ :=
  (messages.filter fun message => message.isEose pf).map HandledMessage.elapsedMs

def callsOf (pf : Platform) (message : HandledMessage relayUrl) : List (StatsCall ℤ) :=
  (statsOps (message.effects pf)).map fun op => (message.m, op)

theorem statsOps_onAuthChallenge (m : Moment) (s : RelaySession) (challenge : Str) :
    statsOps (s.onAuthChallenge pf m challenge) = [] := by
  unfold statsOps
  rw [List.filterMap_eq_nil_iff]
  intro effect heffect
  rcases RelaySession.mem_onAuthChallenge heffect with ⟨level, text, rfl⟩ | rfl | ⟨text, rfl⟩ <;> rfl

/-- The calls that a payload leads to: one for an event, one for an end of stored events. -/
inductive CallsFor (pf : Platform) (message : HandledMessage relayUrl) : List (StatsCall ℤ) → Prop
  | event : message.isEvent pf = true → message.isEose pf = false →
    CallsFor pf message [(message.m, .incrementEvent relayUrl)]
  | eose : message.isEvent pf = false → message.isEose pf = true →
    CallsFor pf message [(message.m, .recordLatency relayUrl message.elapsedMs)]
  | none : message.isEvent pf = false → message.isEose pf = false → CallsFor pf message []

variable (pf) in
theorem callsOf_spec (message : HandledMessage relayUrl) :
    CallsFor pf message (callsOf pf message) := by
  have h := message.effects_handles pf
  unfold callsOf
  generalize message.effects pf = effects at h ⊢
  cases h with
  | authChallenge challenge hauth hevent heose =>
    rw [statsOps_onAuthChallenge]
    exact .none hevent heose
  | event hauth hevent heose => exact .event hevent heose
  | eose hauth hevent heose => exact .eose hevent heose
  | ignored hauth hevent heose => exact .none hevent heose

theorem handleMessages_sharedStats (app : Application) (messages : List (HandledMessage relayUrl)) :
    (handleMessages pf app messages).sharedStats =
      (messages.flatMap (callsOf pf)).foldl (fun stats call => stats.apply call.1 call.2)
        app.sharedStats := by
  unfold handleMessages
  induction messages generalizing app with
  | nil => rfl
  | cons message messages ih =>
    obtain ⟨logBuffer, heffects⟩ := applyEffects_eq app message.m (message.effects pf)
    rw [List.foldl_cons, heffects, ih, List.flatMap_cons, List.foldl_append, callsOf, List.foldl_map]

variable (messages : List (HandledMessage relayUrl))

theorem callsOf_cases :
    ∀ call ∈ messages.flatMap (callsOf pf), call.2 = .incrementEvent relayUrl ∨
      ∃ latencyMs, call.2 = .recordLatency relayUrl latencyMs := by
  intro call hcall
  obtain ⟨message, -, hmem⟩ := List.mem_flatMap.mp hcall
  have h := callsOf_spec pf message
  generalize callsOf pf message = calls at h hmem
  cases h with
  | event hevent heose =>
    obtain rfl := List.mem_singleton.mp hmem
    exact Or.inl rfl
  | eose hevent heose =>
    obtain rfl := List.mem_singleton.mp hmem
    exact Or.inr ⟨_, rfl⟩
  | none hevent heose => cases hmem

theorem callsOf_own : ∀ call ∈ messages.flatMap (callsOf pf), call.relayUrl? = some relayUrl := by
  intro call hcall
  unfold StatsCall.relayUrl?
  rcases callsOf_cases messages call hcall with h | ⟨latencyMs, h⟩
  · rw [h]
    rfl
  · rw [h]
    rfl

/-- What is read off other calls only is not in them. -/
theorem filterMap_callsOf {β : Type} {f : StatsCall ℤ → Option β}
    (hincrement : ∀ m, f (m, .incrementEvent relayUrl) = none)
    (hlatency : ∀ m latencyMs, f (m, .recordLatency relayUrl latencyMs) = none) :
    (messages.flatMap (callsOf pf)).filterMap f = [] := by
  rw [List.filterMap_eq_nil_iff]
  rintro ⟨m, op⟩ hcall
  rcases callsOf_cases messages _ hcall with h | ⟨latencyMs, h⟩
  · obtain rfl : op = .incrementEvent relayUrl := h
    exact hincrement m
  · obtain rfl : op = .recordLatency relayUrl latencyMs := h
    exact hlatency m latencyMs

variable (pf) in
theorem callsOf_no_status : lastStatus (messages.flatMap (callsOf pf)) = none := by
  unfold lastStatus
  rw [filterMap_callsOf messages (fun _ => rfl) fun _ _ => rfl]
  rfl

theorem callsOf_no_nips : lastNips (messages.flatMap (callsOf pf)) = none := by
  unfold lastNips
  rw [filterMap_callsOf messages (fun _ => rfl) fun _ _ => rfl]
  rfl

theorem increments_callsOf :
    increments (messages.flatMap (callsOf pf)) = messages.countP fun message => message.isEvent pf := by
  induction messages with
  | nil => rfl
  | cons message messages ih =>
    have h := callsOf_spec pf message
    rw [List.flatMap_cons, increments_append, ih, List.countP_cons]
    generalize callsOf pf message = calls at h
    cases h with
    | event hevent heose =>
      rw [hevent, Nat.add_comm]
      rfl
    | eose hevent heose =>
      rw [hevent, Nat.add_comm]
      rfl
    | none hevent heose =>
      rw [hevent, Nat.add_comm]
      rfl

theorem latencies_callsOf :
    latencies (messages.flatMap (callsOf pf)) = latencySamples pf messages := by
  induction messages with
  | nil => rfl
  | cons message messages ih =>
    have h := callsOf_spec pf message
    rw [List.flatMap_cons, latencies_append, ih]
    unfold latencySamples
    generalize callsOf pf message = calls at h
    cases h with
    | event hevent heose =>
      rw [List.filter_cons_of_neg (by simp [heose])]
      rfl
    | eose hevent heose =>
      rw [List.filter_cons_of_pos heose]
      rfl
    | none hevent heose =>
      rw [List.filter_cons_of_neg (by simp [heose])]
      rfl

/-! ## The store -/

theorem lookup_handleMessages (app : Application) :
    (handleMessages pf app messages).sharedStats.lookup =
      Function.update app.sharedStats.lookup relayUrl
        ((messages.flatMap (callsOf pf)).foldl
          (fun stat call => some ((relayOps ℤ).record call stat)) (app.sharedStats.lookup relayUrl)) := by
  rw [handleMessages_sharedStats, ← KeyedOps.foldl_after_of_key (callsOf_own messages)]
  exact (List.foldl_hom RelayStats.lookup fun stats call =>
    (RelayStats.lookup_apply stats call).symm).symm

theorem record_handleMessages (app : Application) :
    record (handleMessages pf app messages).sharedStats relayUrl =
      (messages.flatMap (callsOf pf)).foldl RelayStat.apply (record app.sharedStats relayUrl) := by
  unfold record
  rw [lookup_handleMessages, Function.update_self]
  by_cases hnil : messages.flatMap (callsOf pf) = []
  · rw [hnil]
    rfl
  · rw [RelayStats.foldl_record (callsOf_own messages) hnil]
    rfl

variable (pf) in
/-- What is to become of the store: the record of the relay counts the payloads, and the others stay. -/
structure Recorded (before after : RelayStats) : Prop where
  others : ∀ url, url ≠ relayUrl → after.lookup url = before.lookup url
  /-- The counter has 64 bits. -/
  eventsCount : (record after relayUrl).eventsCount.toNat =
    ((record before relayUrl).eventsCount.toNat +
      messages.countP fun message => message.isEvent pf) % 2 ^ 64
  latencyHistoryMs : (record after relayUrl).latencyHistoryMs =
    if latencySamples pf messages = [] then (record before relayUrl).latencyHistoryMs
    else ((record before relayUrl).latencyHistoryMs ++ latencySamples pf messages).rtake 60
  status : (record after relayUrl).status = (record before relayUrl).status
  lastError : (record after relayUrl).lastError = (record before relayUrl).lastError
  supportedNips : (record after relayUrl).supportedNips = (record before relayUrl).supportedNips
  connectedAt : (record after relayUrl).connectedAt = (record before relayUrl).connectedAt

theorem recorded_handleMessages (app : Application) :
    Recorded pf messages app.sharedStats (handleMessages pf app messages).sharedStats := by
  have hstatus := foldl_no_status (callsOf_no_status pf messages)
    (record app.sharedStats relayUrl)
  rw [← record_handleMessages] at hstatus
  constructor
  · intro url hurl
    rw [lookup_handleMessages, Function.update_of_ne hurl]
  · rw [record_handleMessages, foldl_eventsCount, increments_callsOf]
  · rw [record_handleMessages, ← latencies_callsOf]
    split
    · next hnil => exact (foldl_no_latency hnil _).1
    · next hne => exact (foldl_latencies hne _).1
  · exact hstatus.1
  · exact hstatus.2.1
  · rw [record_handleMessages]
    exact foldl_no_nips (callsOf_no_nips messages) _
  · exact hstatus.2.2

end Calls

/-! ## The relays of the program -/

section Encoding
variable {pf : Platform}

/-- The sessions of the program, the forgotten ones included, are for relays in UTF-8. -/
def SessionsEncoded (manager : SessionManager) : Prop :=
  (∀ session ∈ manager.sessions, IsUtf8 session.data.relayUrl) ∧
    ∀ session ∈ manager.retired, IsUtf8 session.data.relayUrl

theorem sessionsEncoded_react {manager manager' : SessionManager} {group : SessionGroup} {i : ℕ}
    {m : Moment} {io : SessionIo} {effects : List Effect}
    (h : manager.react pf group i (io.event m) = some (manager', effects))
    (hs : SessionsEncoded manager) : SessionsEncoded manager' := by
  have hkeeps : ∀ o o' : SessionObject, IsUtf8 o.data.relayUrl →
      ∀ {effects}, (sessionBehaviour pf).react o (io.event m) = some (o', effects) →
        IsUtf8 o'.data.relayUrl := by
    intro o o' ho effects hstep
    rw [(react_target hstep).1]
    exact ho
  unfold SessionManager.react at h
  cases group with
  | running =>
    obtain ⟨⟨sessions, effects'⟩, hreact, heq⟩ := Option.map_eq_some_iff.mp h
    obtain ⟨rfl, rfl⟩ := Prod.mk.inj heq
    exact ⟨forall_reactAt hreact hs.1 fun o o' ho hstep => hkeeps o o' ho hstep, hs.2⟩
  | retired =>
    obtain ⟨⟨retired, effects'⟩, hreact, heq⟩ := Option.map_eq_some_iff.mp h
    obtain ⟨rfl, rfl⟩ := Prod.mk.inj heq
    exact ⟨hs.1, forall_reactAt hreact hs.2 fun o o' ho hstep => hkeeps o o' ho hstep⟩

theorem sessionsEncoded_start {manager : SessionManager} {relayUrls : List Str}
    (hurls : AllUtf8 relayUrls) (hs : SessionsEncoded manager) (hexPubkey : Str)
    (authKey : Option AuthKey) : SessionsEncoded (manager.start relayUrls hexPubkey authKey).1 := by
  constructor
  · intro session hsession
    obtain ⟨url, hurl, rfl⟩ := List.mem_map.mp hsession
    exact hurls url hurl
  · refine List.forall_mem_append.mpr ⟨hs.2, fun session hsession => ?_⟩
    obtain ⟨running, hrunning, rfl⟩ := List.mem_map.mp hsession
    exact hs.1 running hrunning

theorem sessionsEncoded_step (hutf8 : ParsesUtf8 pf) {app app' : Application} {e : AppEvent}
    (hs : SessionsEncoded app.sessionManager) (h : step pf app e = some app') :
    SessionsEncoded app'.sessionManager := by
  cases step_moves h with
  | rejectedNpub | npub | rejectedNsec | nsec | bootstrapFails => exact hs
  | newKey m nsec key logBuffer hkey hsessions =>
    refine ⟨fun session hsession => ?_, hs.2⟩
    obtain ⟨running, hrunning, rfl⟩ := List.mem_map.mp hsession
    exact hs.1 running hrunning
  | bootstrapSucceeds m behaviour bootstrap rest logBuffer hpending hok =>
    have hseed : IsUtf8 kDefaultSeed := isUtf8_of_all rfl
    exact sessionsEncoded_start (allUtf8_resolve hutf8 bootstrap.hexPubkey hseed behaviour) hs _ _
  | session m group i io manager effects logBuffer hreact => exact sessionsEncoded_react hreact hs

variable (pf) in
/-- A session of the program, running or forgotten, is for this relay. -/
def RelayOfProgram (relayUrl : Str) : Prop :=
  ∃ m es app, run (step pf) (start m) es = some app ∧
    ∃ session ∈ app.sessionManager.sessions ++ app.sessionManager.retired,
      session.data.relayUrl = relayUrl

theorem isUtf8_relayOfProgram (hutf8 : ParsesUtf8 pf) {relayUrl : Str}
    (h : RelayOfProgram pf relayUrl) : IsUtf8 relayUrl := by
  obtain ⟨m, es, app, hrun, session, hsession, rfl⟩ := h
  have hstart : SessionsEncoded (start m).sessionManager := by
    unfold SessionsEncoded
    exact ⟨List.forall_mem_nil _, List.forall_mem_nil _⟩
  have hs : SessionsEncoded app.sessionManager :=
    run_invariant (I := fun app : Application => SessionsEncoded app.sessionManager)
      (fun _ _ _ => sessionsEncoded_step hutf8) hstart hrun
  rcases List.mem_append.mp hsession with hmem | hmem
  · exact hs.1 session hmem
  · exact hs.2 session hmem

end Encoding

/-- **Messages.** Whatever a relay sends, its record counts the events and keeps the last latencies, the rest
of it and the other records stay, a reply is attempted for the challenges and for nothing else, and no
payload raises an error in a session of the program, or of any other relay in UTF-8. -/
theorem messages_recorded {pf : Platform} (hjson : ParseInvertsDump pf) (hutf8 : ParsesUtf8 pf)
    {relayUrl : Str} (app : Application) (messages : List (HandledMessage relayUrl)) :
    Recorded pf messages app.sharedStats (handleMessages pf app messages).sharedStats ∧
    (latencySamples pf messages).length = (messages.countP fun message => message.isEose pf) ∧
    (∀ message ∈ messages, message.RepliesToAuth pf) ∧
    (RelayOfProgram pf relayUrl ∨ IsUtf8 relayUrl →
      ∀ message ∈ messages, Effect.throws ∉ message.effects pf) := by
  refine ⟨recorded_handleMessages messages app, ?_, fun message _ => message.repliesToAuth, ?_⟩
  · unfold latencySamples
    rw [List.length_map, List.countP_eq_length_filter]
  · intro hrelay message _
    have hurl : IsUtf8 relayUrl := hrelay.elim (isUtf8_relayOfProgram hutf8) id
    exact message.no_throw hjson hutf8 hurl

/-- A session with a key gets a payload. -/
def keyedMessage (m : Moment) (clock : -2 ^ 63 ≤ m.unixSeconds ∧ m.unixSeconds < 2 ^ 63) (payload : Str) :
    HandledMessage sampleRelay where
  m := m
  clock := clock
  session := { RelaySession.create sampleRelay samplePubkeyHex with
    authKey := acceptedKey samplePlatform (sampleNsec 1) }
  own := rfl
  payload := payload

/-- An event, the end of the stored events after 250 ms, and a challenge. -/
def eventEoseChallenge : List (HandledMessage sampleRelay) :=
  [keyedMessage {} (by decide) (lit "[\"EVENT\"]"),
    keyedMessage { steady := 250000000 } (by decide) (eoseMessage (lit "monitostr")).text,
    keyedMessage {} (by decide) sampleChallenge]

theorem messages_recorded_with_eose :
    (Recorded textPlatform eventEoseChallenge RelayStats.empty
        (handleMessages textPlatform {} eventEoseChallenge).sharedStats ∧
      (latencySamples textPlatform eventEoseChallenge).length =
        (eventEoseChallenge.countP fun message => message.isEose textPlatform) ∧
      (∀ message ∈ eventEoseChallenge, message.RepliesToAuth textPlatform) ∧
      ∀ message ∈ eventEoseChallenge, Effect.throws ∉ message.effects textPlatform) ∧
    250 ∈ latencySamples textPlatform eventEoseChallenge := by
  obtain ⟨hrecorded, hsamples, hreplies, herrors⟩ :=
    messages_recorded RelaySession.textPlatform_laws.1 textPlatform_parsesUtf8 {} eventEoseChallenge
  refine ⟨⟨hrecorded, hsamples, hreplies, herrors (Or.inr (isUtf8_of_all rfl))⟩, ?_⟩
  refine List.mem_map.mpr ⟨_, List.mem_filter.mpr ⟨List.mem_cons_of_mem _ List.mem_cons_self, ?_⟩, rfl⟩
  show beginsWith textPlatform (lit "EOSE") (eoseMessage (lit "monitostr")).text = true
  rw [beginsWith, readText_eose _ (isUtf8_of_all rfl)]
  rfl

end Monitostr.Main
