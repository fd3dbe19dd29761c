import Monitostr.Foundations.Handover
import Monitostr.Foundations.Simulation
import Monitostr.Main.Application

/-! # The application as a handover of sessions

What an event of `main` can do is said once, up to the log. Behind it is a handover: the header shows
a pubkey, `auth_key` is the credential, the pending bootstraps are the requests and the sessions the
workers. The application simulates it, with rejected submissions and the work of the sessions as
stutters.
-/

namespace Monitostr.Main
open Foundations Model Net Nip19 Nostr
set_option autoImplicit false

/-! ## Accepted keys -/

def acceptedKey (pf : Platform) (nsec : Str) : Option AuthKey :=
  if (decodeNsecToHex nsec).ok then AuthKey.fromHexPrivkey pf (decodeNsecToHex nsec).hexPrivkey
  else none

theorem encodeNpub_of_key (key : AuthKey) :
    (encodeNpubFromHex key.hexPubkey).ok = true ∧
      decodeNpubToHex (encodeNpubFromHex key.hexPubkey).npub =
        { ok := true, hexPubkey := key.hexPubkey } := by
  obtain ⟨pubkeyBytes, hhex⟩ := key.isHex
  have hbytes : hexToBytes key.hexPubkey = pubkeyBytes.1 := by rw [hhex, hexToBytes_bytesToHex]
  have hlen : (hexToBytes key.hexPubkey).length = 32 := by rw [hbytes, pubkeyBytes.2]
  rw [encodeNpubFromHex_of_bytes hlen]
  refine ⟨rfl, ?_⟩
  rw [decodeNpubToHex, decode_encode (by decide) npub_no_upper hlen]
  dsimp only
  rw [hbytes, ← hhex]

namespace Application

/-! ## Log and effects -/

theorem logAll_eq (app : Application) (m : Moment) (lines : List LogLine) :
    ∃ logBuffer, app.logAll m lines = { app with logBuffer := logBuffer } := by
  induction lines generalizing app with
  | nil => exact ⟨app.logBuffer, rfl⟩
  | cons line lines ih => exact ih (app.log m line.1 line.2)

def statsOps (effects : List Effect) : List StatsOp :=
  effects.filterMap fun effect =>
    match effect with
    | .stats op => some op
    | _ => none

theorem applyEffects_eq (app : Application) (m : Moment) (effects : List Effect) :
    ∃ logBuffer, effects.foldl (applyEffect m) app =
      { app with sharedStats := (statsOps effects).foldl (fun stats op => stats.apply m op)
                    app.sharedStats
                 logBuffer := logBuffer } := by
  induction effects generalizing app with
  | nil => exact ⟨app.logBuffer, rfl⟩
  | cons effect effects ih =>
    cases effect with
    | stats op => exact ih { app with sharedStats := app.sharedStats.apply m op }
    | log level message => exact ih (app.log m level message)
    | _ => exact ih app

/-! ## What an event can do -/

/-- The outcomes of the events, up to the log. -/
inductive Moves (pf : Platform) (app : Application) : AppEvent → Application → Prop
  | rejectedNpub (m : Moment) (npub : Str) (logBuffer : LogBuffer) :
    (decodeNpubToHex npub).ok = false →
    Moves pf app (.npubSubmit m npub) { app with logBuffer := logBuffer }
  | npub (m : Moment) (npub : Str) (logBuffer : LogBuffer) :
    (decodeNpubToHex npub).ok = true →
    Moves pf app (.npubSubmit m npub)
      { app with
        header := { npub := npub, hexPubkey := (decodeNpubToHex npub).hexPubkey }
        sharedStats := app.sharedStats.reset
        pending := app.pending ++ [{ hexPubkey := (decodeNpubToHex npub).hexPubkey
                                     authKeySnapshot := app.authKey }]
        logBuffer := logBuffer }
  | rejectedNsec (m : Moment) (nsec : Str) (logBuffer : LogBuffer) :
    acceptedKey pf nsec = none →
    Moves pf app (.nsecSubmit m nsec) { app with logBuffer := logBuffer }
  | newKey (m : Moment) (nsec : Str) (key : AuthKey) (logBuffer : LogBuffer) :
    acceptedKey pf nsec = some key → app.sessionManager.sessions ≠ [] →
    Moves pf app (.nsecSubmit m nsec)
      { app with
        authKey := some key
        sessionManager := (app.sessionManager.updateAuthKey (some key)).1
        logBuffer := logBuffer }
  | nsec (m : Moment) (nsec : Str) (key : AuthKey) (logBuffer : LogBuffer) :
    acceptedKey pf nsec = some key → app.sessionManager.sessions = [] →
    Moves pf app (.nsecSubmit m nsec)
      { app with
        authKey := some key
        header := { npub := (encodeNpubFromHex key.hexPubkey).npub, hexPubkey := key.hexPubkey }
        sharedStats := app.sharedStats.reset
        pending := app.pending ++ [{ hexPubkey := key.hexPubkey, authKeySnapshot := some key }]
        logBuffer := logBuffer }
  | bootstrapFails (m : Moment) (behaviour : ℕ → SeedBehaviour) (bootstrap : PendingBootstrap)
      (rest : List PendingBootstrap) (logBuffer : LogBuffer) :
    app.pending = bootstrap :: rest →
    (resolveRelaysForPubkey pf bootstrap.hexPubkey kDefaultSeed behaviour).1.ok = false →
    Moves pf app (.bootstrapCompletes m behaviour)
      { app with pending := rest, logBuffer := logBuffer }
  | bootstrapSucceeds (m : Moment) (behaviour : ℕ → SeedBehaviour) (bootstrap : PendingBootstrap)
      (rest : List PendingBootstrap) (logBuffer : LogBuffer) :
    app.pending = bootstrap :: rest →
    (resolveRelaysForPubkey pf bootstrap.hexPubkey kDefaultSeed behaviour).1.ok = true →
    Moves pf app (.bootstrapCompletes m behaviour)
      { app with
        pending := rest
        sessionManager := (app.sessionManager.start
          (resolveRelaysForPubkey pf bootstrap.hexPubkey kDefaultSeed behaviour).1.relayUrls
          bootstrap.hexPubkey bootstrap.authKeySnapshot).1
        logBuffer := logBuffer }
  | session (m : Moment) (group : SessionGroup) (i : ℕ) (io : SessionIo) (manager : SessionManager)
      (effects : List Effect) (logBuffer : LogBuffer) :
    app.sessionManager.react pf group i (io.event m) = some (manager, effects) →
    Moves pf app (.session m group i io)
      { app with
        sessionManager := manager
        sharedStats := (statsOps effects).foldl (fun stats op => stats.apply m op) app.sharedStats
        logBuffer := logBuffer }

variable {pf : Platform}

theorem onNpubSubmit_moves (app : Application) (m : Moment) (npub : Str) :
    Moves pf app (.npubSubmit m npub) (app.onNpubSubmit m npub) := by
  rw [onNpubSubmit]
  dsimp only
  cases hok : (decodeNpubToHex npub).ok with
  | false => exact .rejectedNpub m npub _ hok
  | true => exact .npub m npub _ hok

theorem resetAndResolve_eq (app : Application) (m : Moment) (hexPubkey : Str) :
    ∃ logBuffer, (app.resetStats m).resolveRelays m hexPubkey =
      { app with
        sharedStats := app.sharedStats.reset
        pending := app.pending ++ [{ hexPubkey := hexPubkey, authKeySnapshot := app.authKey }]
        logBuffer := logBuffer } :=
  ⟨_, rfl⟩

/-- With a key, no error path of the end of `NsecSubmit` is taken. -/
theorem monitorDerived_eq (app : Application) (m : Moment) (key : AuthKey) :
    ∃ logBuffer, app.monitorDerived m key.hexPubkey =
      { app with
        header := { npub := (encodeNpubFromHex key.hexPubkey).npub, hexPubkey := key.hexPubkey }
        sharedStats := app.sharedStats.reset
        pending := app.pending ++ [{ hexPubkey := key.hexPubkey, authKeySnapshot := app.authKey }]
        logBuffer := logBuffer } := by
  obtain ⟨hencode, hdecode⟩ := encodeNpub_of_key key
  simp only [monitorDerived, hencode, hdecode, Bool.not_true, Bool.false_eq_true, if_false]
  exact resetAndResolve_eq _ m key.hexPubkey

/-- A refused nsec leads to an error in the log and nothing else. -/
theorem onNsecSubmit_of_rejected {nsec : Str} (h : acceptedKey pf nsec = none) :
    ∃ message, ∀ (app : Application) (m : Moment),
      app.onNsecSubmit pf m nsec = app.log m .error message := by
  rw [acceptedKey] at h
  cases hok : (decodeNsecToHex nsec).ok with
  | false =>
    refine ⟨lit "Invalid nsec: " ++ (decodeNsecToHex nsec).error, fun app m => ?_⟩
    rw [onNsecSubmit, hok]
    rfl
  | true =>
    rw [hok, if_pos rfl] at h
    refine ⟨lit "nsec key derivation failed", fun app m => ?_⟩
    rw [onNsecSubmit]
    simp only [hok, h]
    rfl

theorem onNsecSubmit_of_accepted {nsec : Str} {key : AuthKey} (h : acceptedKey pf nsec = some key)
    (app : Application) (m : Moment) :
    ∃ logBuffer, app.onNsecSubmit pf m nsec =
      if app.sessionManager.hasActiveSessions then
        { app with
          authKey := some key
          sessionManager := (app.sessionManager.updateAuthKey (some key)).1
          logBuffer := logBuffer }
      else
        { app with
          authKey := some key
          header := { npub := (encodeNpubFromHex key.hexPubkey).npub, hexPubkey := key.hexPubkey }
          sharedStats := app.sharedStats.reset
          pending := app.pending ++ [{ hexPubkey := key.hexPubkey, authKeySnapshot := some key }]
          logBuffer := logBuffer } := by
  rw [acceptedKey] at h
  split at h
  · next hok =>
    rw [onNsecSubmit]
    simp only [hok, h, Bool.not_true, Bool.false_eq_true, if_false]
    cases hactive : app.sessionManager.hasActiveSessions with
    | true =>
      rw [log, hactive]
      exact ⟨_, rfl⟩
    | false =>
      rw [log, hactive]
      exact monitorDerived_eq _ m key
  · cases h

theorem onNsecSubmit_moves (app : Application) (m : Moment) (nsec : Str) :
    Moves pf app (.nsecSubmit m nsec) (app.onNsecSubmit pf m nsec) := by
  cases hkey : acceptedKey pf nsec with
  | none =>
    obtain ⟨message, heq⟩ := onNsecSubmit_of_rejected hkey
    rw [heq]
    exact .rejectedNsec m nsec _ hkey
  | some key =>
    obtain ⟨logBuffer, heq⟩ := onNsecSubmit_of_accepted hkey app m
    rw [heq]
    by_cases hsessions : app.sessionManager.sessions = []
    · rw [SessionManager.hasActiveSessions, hsessions]
      exact .nsec m nsec key logBuffer hkey hsessions
    · have hactive : app.sessionManager.hasActiveSessions = true := by
        simpa [SessionManager.hasActiveSessions] using hsessions
      rw [hactive]
      exact .newKey m nsec key logBuffer hkey hsessions

theorem onBootstrapResult_eq (app : Application) (m : Moment) (bootstrap : PendingBootstrap)
    (result : BootstrapResult) :
    ∃ logBuffer, app.onBootstrapResult m bootstrap result =
      if result.ok then
        { app with
          sessionManager := (app.sessionManager.start result.relayUrls bootstrap.hexPubkey
            bootstrap.authKeySnapshot).1
          logBuffer := logBuffer }
      else { app with logBuffer := logBuffer } := by
  rw [onBootstrapResult]
  cases result.ok with
  | false => exact ⟨_, rfl⟩
  | true => exact logAll_eq _ m _

theorem completeBootstrap_eq (app : Application) (m : Moment) (bootstrap : PendingBootstrap)
    (behaviour : ℕ → SeedBehaviour) {result : BootstrapResult}
    (hresult : (resolveRelaysForPubkey pf bootstrap.hexPubkey kDefaultSeed behaviour).1 = result) :
    ∃ logBuffer, app.completeBootstrap pf m bootstrap behaviour =
      if result.ok then
        { app with
          sessionManager := (app.sessionManager.start result.relayUrls bootstrap.hexPubkey
            bootstrap.authKeySnapshot).1
          logBuffer := logBuffer }
      else { app with logBuffer := logBuffer } := by
  rw [completeBootstrap]
  cases hresolve : resolveRelaysForPubkey pf bootstrap.hexPubkey kDefaultSeed behaviour with
  | mk found lines =>
    obtain rfl : found = result := by rw [← hresult, hresolve]
    obtain ⟨logBuffer, hlog⟩ := logAll_eq app m lines
    dsimp only
    rw [hlog]
    exact onBootstrapResult_eq { app with logBuffer := logBuffer } m bootstrap found

theorem step_moves {app app' : Application} {e : AppEvent} (h : step pf app e = some app') :
    Moves pf app e app' := by
  cases e with
  | npubSubmit m npub =>
    obtain rfl := Option.some.inj h
    exact onNpubSubmit_moves app m npub
  | nsecSubmit m nsec =>
    obtain rfl := Option.some.inj h
    exact onNsecSubmit_moves app m nsec
  | bootstrapCompletes m behaviour =>
    rw [step] at h
    split at h
    · cases h
    · next bootstrap rest hpending =>
      obtain rfl := Option.some.inj h
      obtain ⟨logBuffer, hcomplete⟩ :=
        completeBootstrap_eq { app with pending := rest } m bootstrap behaviour rfl
      rw [hcomplete]
      split
      · next hok => exact .bootstrapSucceeds m behaviour bootstrap rest logBuffer hpending hok
      · next hok =>
        exact .bootstrapFails m behaviour bootstrap rest logBuffer hpending (by simpa using hok)
  | session m group i io =>
    rw [step, Option.map_eq_some_iff] at h
    obtain ⟨⟨manager, effects⟩, hreact, rfl⟩ := h
    obtain ⟨logBuffer, heffects⟩ :=
      applyEffects_eq { app with sessionManager := manager } m effects
    dsimp only
    rw [heffects]
    exact .session m group i io manager effects logBuffer hreact

/-! ## The handover behind it -/

def request (bootstrap : PendingBootstrap) : Handover.Request Str AuthKey where
  target := bootstrap.hexPubkey
  credential := bootstrap.authKeySnapshot

/-- A session as a worker, with the key it has once its handlers have run. -/
def worker (session : SessionObject) : Handover.Worker Str AuthKey Str where
  place := session.data.relayUrl
  target := session.data.hexPubkey
  credential := keyWhenRun session

def control (app : Application) : Handover.State Str AuthKey Str where
  credential := app.authKey
  shown := app.header.hexPubkey
  pending := app.pending.map request
  workers := app.sessionManager.sessions.map worker

def places (result : BootstrapResult) : Option (List Str) :=
  if result.ok then some result.relayUrls else none

def controlEvent (pf : Platform) (app : Application) : AppEvent → Option (Handover.Event Str AuthKey Str)
  | .npubSubmit _ npub =>
    if (decodeNpubToHex npub).ok then some (.request (decodeNpubToHex npub).hexPubkey) else none
  | .nsecSubmit _ nsec => (acceptedKey pf nsec).map fun key => .credential key key.hexPubkey
  | .bootstrapCompletes _ behaviour => app.pending.head?.map fun bootstrap =>
    .complete (places (resolveRelaysForPubkey pf bootstrap.hexPubkey kDefaultSeed behaviour).1)
  | .session _ _ _ _ => none

theorem worker_dispatch_key (key : AuthKey) (session : SessionObject) :
    worker (dispatch (.setAuthKey (some key)) session) =
      { worker session with credential := some key } := by
  rw [worker, keyWhenRun_dispatch]
  rfl

theorem workers_react {manager manager' : SessionManager} {group : SessionGroup} {i : ℕ} {m : Moment}
    {io : SessionIo} {effects : List Effect}
    (h : manager.react pf group i (io.event m) = some (manager', effects)) :
    manager'.sessions.map worker = manager.sessions.map worker := by
  cases group with
  | retired =>
    rw [SessionManager.react] at h
    obtain ⟨⟨retired, effects'⟩, -, heq⟩ := Option.map_eq_some_iff.mp h
    obtain ⟨rfl, -⟩ := Prod.mk.inj heq
    rfl
  | running =>
    rw [SessionManager.react] at h
    obtain ⟨⟨sessions, effects'⟩, hreact, heq⟩ := Option.map_eq_some_iff.mp h
    obtain ⟨rfl, rfl⟩ := Prod.mk.inj heq
    refine Behaviour.map_reactAt worker hreact fun o o' ho => ?_
    obtain ⟨hrelay, hpubkey, hkey⟩ := react_target ho
    rw [worker, worker, hrelay, hpubkey, hkey]

/-- **The application simulates the handover.** -/
def handover (pf : Platform) : Simulation (step pf) (Handover.step (τ := Str) (κ := AuthKey) (ρ := Str))
    where
  abs := control
  event := controlEvent pf
  stutters app e app' h hev := by
    cases step_moves h with
    | rejectedNpub => rfl
    | rejectedNsec => rfl
    | session m group i io manager effects logBuffer hreact =>
      rw [control, control, workers_react hreact]
    | npub m npub logBuffer hok =>
      rw [controlEvent, hok] at hev
      cases hev
    | newKey m nsec key logBuffer hkey =>
      rw [controlEvent, hkey] at hev
      cases hev
    | nsec m nsec key logBuffer hkey =>
      rw [controlEvent, hkey] at hev
      cases hev
    | bootstrapFails m behaviour bootstrap rest logBuffer hpending =>
      rw [controlEvent, hpending] at hev
      cases hev
    | bootstrapSucceeds m behaviour bootstrap rest logBuffer hpending =>
      rw [controlEvent, hpending] at hev
      cases hev
  steps app e app' a h hev := by
    cases step_moves h with
    | rejectedNpub m npub logBuffer hok =>
      rw [controlEvent, hok] at hev
      cases hev
    | rejectedNsec m nsec logBuffer hkey =>
      rw [controlEvent, hkey] at hev
      cases hev
    | session => cases hev
    | npub m npub logBuffer hok =>
      rw [controlEvent, hok] at hev
      obtain rfl := Option.some.inj hev
      rw [Handover.step, Handover.State.request, control, control, List.map_append]
      rfl
    | newKey m nsec key logBuffer hkey hsessions =>
      rw [controlEvent, hkey] at hev
      obtain rfl := Option.some.inj hev
      rw [Handover.step_credential_of_workers (by simpa [control] using hsessions),
        Handover.State.renew, control, control, SessionManager.updateAuthKey, List.map_map,
        List.map_map]
      simp only [Function.comp_def, worker_dispatch_key]
    | nsec m nsec key logBuffer hkey hsessions =>
      rw [controlEvent, hkey] at hev
      obtain rfl := Option.some.inj hev
      rw [Handover.step_credential_nil (by simpa [control] using hsessions),
        Handover.State.request, control, control, List.map_append]
      rfl
    | bootstrapFails m behaviour bootstrap rest logBuffer hpending hok =>
      rw [controlEvent, hpending, List.head?_cons, Option.map_some, places, hok] at hev
      obtain rfl := Option.some.inj hev
      rw [Handover.step, control, control, hpending]
      rfl
    | bootstrapSucceeds m behaviour bootstrap rest logBuffer hpending hok =>
      rw [controlEvent, hpending, List.head?_cons, Option.map_some, places, hok] at hev
      obtain rfl := Option.some.inj hev
      rw [Handover.step, control, control, hpending, SessionManager.start, List.map_map]
      rfl

theorem control_start (m : Moment) :
    control (start m) = { credential := none, shown := [], pending := [], workers := [] } := rfl

theorem coherent_start (m : Moment) : Handover.Coherent (control (start m)) := by
  rw [control_start]
  exact ⟨nofun, nofun⟩

end Application
end Monitostr.Main
