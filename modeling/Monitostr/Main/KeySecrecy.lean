import Monitostr.Main.MessageCounts
import Monitostr.Main.TableRecords
import Monitostr.Net.KeyBlind

/-! # What the program shows of a private key

An nsec that is submitted reaches the sessions, which sign with it. Two runs in which the nsecs differ, but
not their public keys, show the same at every point: the log, the header, the table, and what each session
does but for the texts of the answers to AUTH challenges.
-/

namespace Monitostr.Main
open Foundations Model Net Nip19 Nostr
set_option autoImplicit false

section Alike
variable (pf : Platform)

def PendingAlike (bootstrap bootstrap' : PendingBootstrap) : Prop :=
  bootstrap.hexPubkey = bootstrap'.hexPubkey ∧
    KeysAlike pf bootstrap.authKeySnapshot bootstrap'.authKeySnapshot

structure ManagersAlike (manager manager' : SessionManager) : Prop where
  sessions : List.Forall₂ (keyBlind pf).Objects manager.sessions manager'.sessions
  retired : List.Forall₂ (keyBlind pf).Objects manager.retired manager'.retired

/-- Two states that show the same. -/
structure Alike (app app' : Application) : Prop where
  sharedStats : app.sharedStats = app'.sharedStats
  logBuffer : app.logBuffer = app'.logBuffer
  header : app.header = app'.header
  authKey : KeysAlike pf app.authKey app'.authKey
  pending : List.Forall₂ (PendingAlike pf) app.pending app'.pending
  sessionManager : ManagersAlike pf app.sessionManager app'.sessionManager

def MomentFits (m : Moment) : Prop := -2 ^ 63 ≤ m.unixSeconds ∧ m.unixSeconds < 2 ^ 63

/-- The same event, or two nsecs of one public key. -/
inductive EventsAlike : AppEvent → AppEvent → Prop
  | same (e : AppEvent) : MomentFits e.moment → EventsAlike e e
  | nsecs (m : Moment) (nsec nsec' : Str) (key key' : AuthKey) :
    acceptedKey pf nsec = some key → acceptedKey pf nsec' = some key' → key.hexPubkey = key'.hexPubkey →
    EventsAlike (.nsecSubmit m nsec) (.nsecSubmit m nsec')

end Alike

variable {pf : Platform}

/-! ## Sessions -/

theorem dispatch_alike {c c' : SessionCall} (hc : (keyBlind pf).call c c') {sessions sessions' : List SessionObject}
    (h : List.Forall₂ (keyBlind pf).Objects sessions sessions') :
    List.Forall₂ (keyBlind pf).Objects (sessions.map (dispatch c)) (sessions'.map (dispatch c')) :=
  List.rel_map (fun _ _ ho => ⟨ho.data, List.rel_append ho.queue (.cons (.call hc) .nil), ho.inFlight⟩) h

theorem startedSession_alike {relayUrl : Str} (hurl : IsUtf8 relayUrl) (hexPubkey : Str)
    {authKey authKey' : Option AuthKey} (hkeys : KeysAlike pf authKey authKey') :
    (keyBlind pf).Objects (SessionManager.startedSession hexPubkey authKey relayUrl)
      (SessionManager.startedSession hexPubkey authKey' relayUrl) where
  data := ⟨hurl, none, .none, rfl⟩
  queue := .cons (.call (Or.inr ⟨authKey, authKey', hkeys, rfl, rfl⟩)) (.cons (.call (Or.inl rfl)) .nil)
  inFlight := .nil

theorem isEmpty_alike {sessions sessions' : List SessionObject}
    (h : List.Forall₂ (keyBlind pf).Objects sessions sessions') : sessions.isEmpty = sessions'.isEmpty := by
  cases h <;> rfl

namespace ManagersAlike
variable {manager manager' : SessionManager} (h : ManagersAlike pf manager manager')
include h

theorem start {relayUrls : List Str} (hurls : AllUtf8 relayUrls) (hexPubkey : Str)
    {authKey authKey' : Option AuthKey} (hkeys : KeysAlike pf authKey authKey') :
    ManagersAlike pf (manager.start relayUrls hexPubkey authKey).1
        (manager'.start relayUrls hexPubkey authKey').1 ∧
      (manager.start relayUrls hexPubkey authKey).2 = (manager'.start relayUrls hexPubkey authKey').2 := by
  refine ⟨⟨?_, List.rel_append h.retired (dispatch_alike (Or.inl rfl) h.sessions)⟩, ?_⟩
  · change List.Forall₂ _ (relayUrls.map _) (relayUrls.map _)
    rw [List.forall₂_map_left_iff, List.forall₂_map_right_iff, List.forall₂_same]
    exact fun url hurl => startedSession_alike (hurls url hurl) hexPubkey hkeys
  · rw [SessionManager.start, SessionManager.start, SessionManager.stopAll, SessionManager.stopAll,
      isEmpty_alike h.sessions, h.sessions.length_eq]

theorem updateAuthKey {authKey authKey' : Option AuthKey} (hkeys : KeysAlike pf authKey authKey') :
    ManagersAlike pf (manager.updateAuthKey authKey).1 (manager'.updateAuthKey authKey').1 ∧
      (manager.updateAuthKey authKey).2 = (manager'.updateAuthKey authKey').2 := by
  refine ⟨⟨dispatch_alike (Or.inr ⟨authKey, authKey', hkeys, rfl, rfl⟩) h.sessions, h.retired⟩, ?_⟩
  rw [SessionManager.updateAuthKey, SessionManager.updateAuthKey, h.sessions.length_eq]

end ManagersAlike

namespace Alike
variable {app app' : Application} (h : Alike pf app app')
include h

theorem log (m : Moment) (level : LogLevel) (message : Str) :
    Alike pf (app.log m level message) (app'.log m level message) :=
  { h with logBuffer := congrArg (fun buffer => buffer.push m level message) h.logBuffer }

theorem withHeader (header : HeaderContext) :
    Alike pf { app with header := header } { app' with header := header } :=
  { h with header := rfl }

theorem withManager {manager manager' : SessionManager} (hmanager : ManagersAlike pf manager manager') :
    Alike pf { app with sessionManager := manager } { app' with sessionManager := manager' } :=
  { h with sessionManager := hmanager }

theorem withPending {pending pending' : List PendingBootstrap}
    (hpending : List.Forall₂ (PendingAlike pf) pending pending') :
    Alike pf { app with pending := pending } { app' with pending := pending' } :=
  { h with pending := hpending }

theorem resetStats (m : Moment) : Alike pf (app.resetStats m) (app'.resetStats m) := by
  have hreset : Alike pf { app with sharedStats := app.sharedStats.reset }
      { app' with sharedStats := app'.sharedStats.reset } :=
    { h with sharedStats := congrArg RelayStats.reset h.sharedStats }
  exact hreset.log m .info (lit "Relay stats reset")

theorem logAll (m : Moment) (lines : List LogLine) : Alike pf (app.logAll m lines) (app'.logAll m lines) := by
  induction lines generalizing app app' with
  | nil => exact h
  | cons line lines ih => exact ih (h.log m line.1 line.2)

/-- The start of a monitoring. -/
theorem monitor (m : Moment) (header : HeaderContext) (hexPubkey : Str) :
    Alike pf (({ app with header := header }.resetStats m).resolveRelays m hexPubkey)
      (({ app' with header := header }.resetStats m).resolveRelays m hexPubkey) := by
  have hlogged := ((h.withHeader header).resetStats m).logAll m [resolveStarting kDefaultSeed]
  exact { hlogged with pending := List.rel_append hlogged.pending (.cons ⟨rfl, hlogged.authKey⟩ .nil) }

theorem onNpubSubmit (m : Moment) (npub : Str) : Alike pf (app.onNpubSubmit m npub) (app'.onNpubSubmit m npub) := by
  have hsubmitted := h.log m .info (lit "New npub submitted")
  rw [Application.onNpubSubmit, Application.onNpubSubmit]
  dsimp only
  split
  · exact hsubmitted.log m _ _
  · exact (hsubmitted.log m .info (lit "npub decoded successfully")).monitor m _ _

theorem monitorDerived (m : Moment) (derivedPubkey : Str) :
    Alike pf (app.monitorDerived m derivedPubkey) (app'.monitorDerived m derivedPubkey) := by
  have hderived := h.log m .info (lit "npub derived from nsec, starting monitoring")
  rw [Application.monitorDerived, Application.monitorDerived]
  dsimp only
  split
  · exact h.log m _ _
  · split
    · exact hderived.log m _ _
    · exact hderived.monitor m _ _

theorem hasActiveSessions :
    app.sessionManager.hasActiveSessions = app'.sessionManager.hasActiveSessions :=
  congrArg not (isEmpty_alike h.sessionManager.sessions)

end Alike

/-! ## Accepted nsecs -/

/-- The callback with an accepted nsec. -/
theorem onNsecSubmit_accepted {nsec : Str} {key : AuthKey} (h : acceptedKey pf nsec = some key)
    (app : Application) (m : Moment) :
    app.onNsecSubmit pf m nsec =
      let app := { app with authKey := some key }.log m .info
        (lit "NIP-42 auth key set (pubkey: " ++ key.hexPubkey.take 16 ++ lit "...)")
      if app.sessionManager.hasActiveSessions then
        let (manager, lines) := app.sessionManager.updateAuthKey (some key)
        { app with sessionManager := manager }.logAll m lines
      else app.monitorDerived m key.hexPubkey := by
  rw [acceptedKey] at h
  split at h
  · next hok =>
    rw [Application.onNsecSubmit]
    simp only [hok, h, Bool.not_true, Bool.false_eq_true, if_false]
    rfl
  · cases h

theorem Alike.onNsecSubmit {app app' : Application} (h : Alike pf app app') (m : Moment) {nsec nsec' : Str}
    {key key' : AuthKey} (hkey : acceptedKey pf nsec = some key) (hkey' : acceptedKey pf nsec' = some key')
    (hsame : SamePubkey pf key key') :
    Alike pf (app.onNsecSubmit pf m nsec) (app'.onNsecSubmit pf m nsec') := by
  rw [onNsecSubmit_accepted hkey, onNsecSubmit_accepted hkey', ← hsame.1]
  have hset : Alike pf { app with authKey := some key } { app' with authKey := some key' } :=
    { h with authKey := .some hsame }
  have hlogged := hset.log m .info
    (lit "NIP-42 auth key set (pubkey: " ++ key.hexPubkey.take 16 ++ lit "...)")
  dsimp only
  rw [hlogged.hasActiveSessions]
  split
  · obtain ⟨hmanager, hlines⟩ := hlogged.sessionManager.updateAuthKey (.some hsame)
    rw [hlines]
    exact (hlogged.withManager hmanager).logAll m _
  · exact hlogged.monitorDerived m key.hexPubkey

/-- The pubkey of an accepted key is that of its bytes. -/
theorem xonlyPubkey_of_accepted {nsec : Str} {key : AuthKey} (h : acceptedKey pf nsec = some key) :
    ∃ pubkeyBytes, pf.xonlyPubkey key.privkeyBytes = some pubkeyBytes ∧
      key.hexPubkey = Nip19.bytesToHex pubkeyBytes.1 := by
  rw [acceptedKey] at h
  split at h
  · rw [AuthKey.fromHexPrivkey] at h
    split at h
    · cases h
    · next privkeyBytes _ =>
      split at h
      · next hderived =>
        obtain rfl := Option.some.inj h
        cases hxonly : pf.xonlyPubkey privkeyBytes with
        | none =>
          rw [deriveHexPubkeyFromPrivkey, hxonly] at hderived
          cases hderived
        | some pubkeyBytes =>
          refine ⟨pubkeyBytes, rfl, ?_⟩
          change deriveHexPubkeyFromPrivkey pf privkeyBytes = _
          rw [deriveHexPubkeyFromPrivkey, hxonly]
          rfl
      · cases h
  · cases h

theorem samePubkey_of_accepted {nsec nsec' : Str} {key key' : AuthKey} (hkey : acceptedKey pf nsec = some key)
    (hkey' : acceptedKey pf nsec' = some key') (hhex : key.hexPubkey = key'.hexPubkey) :
    SamePubkey pf key key' := by
  obtain ⟨pubkeyBytes, hxonly, hpubkey⟩ := xonlyPubkey_of_accepted hkey
  obtain ⟨pubkeyBytes', hxonly', hpubkey'⟩ := xonlyPubkey_of_accepted hkey'
  have hbytes : pubkeyBytes = pubkeyBytes' := by
    refine Subtype.ext ?_
    rw [← Nip19.hexToBytes_bytesToHex pubkeyBytes.1, ← hpubkey, hhex, hpubkey',
      Nip19.hexToBytes_bytesToHex]
  exact ⟨hhex, by rw [hxonly, hxonly', hbytes]⟩

/-! ## Steps and runs -/

theorem applyEffects_alike {m : Moment} {app app' : Application} {effects effects' : List Effect}
    (h : Alike pf app app') (heffects : List.Forall₂ (keyBlind pf).effect effects effects') :
    Alike pf (effects.foldl (Application.applyEffect m) app)
      (effects'.foldl (Application.applyEffect m) app') := by
  induction heffects generalizing app app' with
  | nil => exact h
  | @cons effect effect' _ _ heffect _ ih =>
    refine ih ?_
    rcases heffect with rfl | ⟨message, message', rfl, rfl⟩
    · cases effect with
      | stats op => exact { h with sharedStats := congrArg (fun stats => stats.apply m op) h.sharedStats }
      | log level message => exact h.log m level message
      | _ => exact h
    · exact h

theorem Alike.completeBootstrap (hutf8 : ParsesUtf8 pf) {app app' : Application} (h : Alike pf app app')
    (m : Moment) {bootstrap bootstrap' : PendingBootstrap} (hpair : PendingAlike pf bootstrap bootstrap')
    (behaviour : ℕ → SeedBehaviour) :
    Alike pf (app.completeBootstrap pf m bootstrap behaviour)
      (app'.completeBootstrap pf m bootstrap' behaviour) := by
  have hseed : IsUtf8 kDefaultSeed := isUtf8_of_all rfl
  have hurls := allUtf8_resolve hutf8 bootstrap.hexPubkey hseed behaviour
  rw [Application.completeBootstrap, Application.completeBootstrap, ← hpair.1]
  generalize resolveRelaysForPubkey pf bootstrap.hexPubkey kDefaultSeed behaviour = resolved at hurls ⊢
  have hlogged := h.logAll m resolved.2
  dsimp only
  rw [Application.onBootstrapResult, Application.onBootstrapResult]
  split
  · exact hlogged.log m _ _
  · have hreturned := hlogged.log m .info
      (lit "Bootstrap returned " ++ stdToString resolved.1.relayUrls.length ++ lit " relays")
    obtain ⟨hmanager, hlines⟩ := hreturned.sessionManager.start hurls bootstrap.hexPubkey hpair.2
    dsimp only
    rw [← hpair.1, hlines]
    exact (hreturned.withManager hmanager).logAll m _

section Steps
variable (hjson : ParseInvertsDump pf) (hutf8 : ParsesUtf8 pf) (hsigns : SignsAlike pf)
include hjson hutf8 hsigns

theorem Alike.session {app app' : Application} (h : Alike pf app app') {m : Moment} (hclock : MomentFits m)
    (group : SessionGroup) (i : ℕ) (io : SessionIo) :
    Option.Rel (Alike pf) (Application.step pf app (.session m group i io))
      (Application.step pf app' (.session m group i io)) := by
  have hblind := keyBlind_respects hjson hutf8 hsigns
  have hevents : (keyBlind pf).Events MomentFits (io.event m) (io.event m) := by
    cases io with
    | finish op outcome => exact .finish op outcome
    | run => exact .run m hclock
  rw [Application.step, Application.step]
  cases group with
  | running =>
    have hreact := hblind.reactAt (i := i) h.sessionManager.sessions hevents
    rw [SessionManager.react, SessionManager.react]
    generalize (sessionBehaviour pf).reactAt app.sessionManager.sessions i (io.event m) = r at hreact ⊢
    generalize (sessionBehaviour pf).reactAt app'.sessionManager.sessions i (io.event m) = r' at hreact ⊢
    cases hreact with
    | none => exact .none
    | some hresult =>
      refine .some (applyEffects_alike ?_ hresult.2)
      exact h.withManager ⟨hresult.1, h.sessionManager.retired⟩
  | retired =>
    have hreact := hblind.reactAt (i := i) h.sessionManager.retired hevents
    rw [SessionManager.react, SessionManager.react]
    generalize (sessionBehaviour pf).reactAt app.sessionManager.retired i (io.event m) = r at hreact ⊢
    generalize (sessionBehaviour pf).reactAt app'.sessionManager.retired i (io.event m) = r' at hreact ⊢
    cases hreact with
    | none => exact .none
    | some hresult =>
      refine .some (applyEffects_alike ?_ hresult.2)
      exact h.withManager ⟨h.sessionManager.sessions, hresult.1⟩

theorem step_alike (app app' : Application) (e e' : AppEvent) (h : Alike pf app app')
    (he : EventsAlike pf e e') :
    Option.Rel (Alike pf) (Application.step pf app e) (Application.step pf app' e') := by
  cases he with
  | nsecs m nsec nsec' key key' hkey hkey' hhex =>
    exact .some (h.onNsecSubmit m hkey hkey' (samePubkey_of_accepted hkey hkey' hhex))
  | same e hclock =>
    cases e with
    | npubSubmit m npub => exact .some (h.onNpubSubmit m npub)
    | nsecSubmit m nsec =>
      refine .some ?_
      cases hkey : acceptedKey pf nsec with
      | none =>
        obtain ⟨message, heq⟩ := Application.onNsecSubmit_of_rejected hkey
        rw [heq, heq]
        exact h.log m .error message
      | some key => exact h.onNsecSubmit m hkey hkey (samePubkey_refl key)
    | bootstrapCompletes m behaviour =>
      have hpending := h.pending
      rw [Application.step, Application.step]
      cases hq : app.pending with
      | nil =>
        rw [hq, List.forall₂_nil_left_iff] at hpending
        rw [hpending]
        exact .none
      | cons bootstrap rest =>
        rw [hq, List.forall₂_cons_left_iff] at hpending
        obtain ⟨bootstrap', rest', hpair, hrest, hq'⟩ := hpending
        rw [hq']
        exact .some ((h.withPending hrest).completeBootstrap hutf8 m hpair behaviour)
    | session m group i io => exact h.session hjson hutf8 hsigns hclock group i io

end Steps

theorem alike_start (m : Moment) : Alike pf (Application.start m) (Application.start m) where
  sharedStats := rfl
  logBuffer := rfl
  header := rfl
  authKey := .none
  pending := .nil
  sessionManager := ⟨.nil, .nil⟩

/-- **A private key is not shown**: two runs whose nsecs differ, but not the public keys of the nsecs, go
equally far, and show the same. -/
theorem secret_key_hidden (hjson : ParseInvertsDump pf) (hutf8 : ParsesUtf8 pf) (hsigns : SignsAlike pf)
    (m : Moment) {es es' : List AppEvent} (hes : List.Forall₂ (EventsAlike pf) es es') :
    Option.Rel (Alike pf) (run (Application.step pf) (Application.start m) es)
      (run (Application.step pf) (Application.start m) es') :=
  run_resembles (step_alike hjson hutf8 hsigns) (alike_start m) hes

/-- The other private key of the generator of secp256k1: the order of the group less 1. -/
def oppositePrivkey : Bytes 32 :=
  hexBytes 32 "fffffffffffffffffffffffffffffffebaaedce6af48a03bbfd25e8cd0364140"

def oppositeNsec : Str := Nip19.encodeBech32_32Bytes (lit "nsec") oppositePrivkey.1

/-- A platform that knows the public key of both. -/
noncomputable def generatorPlatform : Platform :=
  { textPlatform with
    xonlyPubkey := fun key =>
      if key = samplePrivkey 1 ∨ key = oppositePrivkey then samplePubkeys.lookup (samplePrivkey 1) else none
    schnorrSign := fun _ _ _ => some sampleSignature }

/-- Both keys are submitted, a relay is found for their pubkey, and its session is started. -/
theorem secret_key_hidden_opposite :
    let monitoring : List AppEvent :=
      [.bootstrapCompletes {} (seedsKnow sampleRelay), .session {} .running 0 .run, .session {} .running 0 .run]
    Option.Rel (Alike generatorPlatform)
      (run (Application.step generatorPlatform) (Application.start {})
        (.nsecSubmit {} (sampleNsec 1) :: monitoring))
      (run (Application.step generatorPlatform) (Application.start {})
        (.nsecSubmit {} oppositeNsec :: monitoring)) := by
  have hfirst : (acceptedKey generatorPlatform (sampleNsec 1)).map AuthKey.hexPubkey =
      some samplePubkeyHex := by decide +kernel
  have hsecond : (acceptedKey generatorPlatform oppositeNsec).map AuthKey.hexPubkey =
      some samplePubkeyHex := by decide +kernel
  obtain ⟨key, hkey, hhex⟩ := Option.map_eq_some_iff.mp hfirst
  obtain ⟨key', hkey', hhex'⟩ := Option.map_eq_some_iff.mp hsecond
  have hmonitoring : ∀ e : AppEvent, e.moment = {} → EventsAlike generatorPlatform e e := by
    intro e he
    refine .same e ?_
    rw [he]
    exact ⟨by decide, by decide⟩
  have hnsecs : EventsAlike generatorPlatform (.nsecSubmit {} (sampleNsec 1)) (.nsecSubmit {} oppositeNsec) :=
    .nsecs {} _ _ key key' hkey hkey' (hhex.trans hhex'.symm)
  have hsigns : SignsAlike generatorPlatform := fun _ _ _ _ _ => rfl
  have hjson : ParseInvertsDump generatorPlatform := RelaySession.textPlatform_laws.1
  have hutf8 : ParsesUtf8 generatorPlatform := textPlatform_parsesUtf8
  refine secret_key_hidden hjson hutf8 hsigns {} (.cons hnsecs ?_)
  exact .cons (hmonitoring _ rfl) (.cons (hmonitoring _ rfl) (.cons (hmonitoring _ rfl) .nil))

end Monitostr.Main
