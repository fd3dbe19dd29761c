import Monitostr.Main.Control
import Monitostr.Ui.AppSteps

/-! # Where a submitted key goes

Return in insert mode looks at the first five characters of the input to tell a private key from a
public one, and the callbacks decode the whole of it. The two agree on every key that is valid, so no
private key becomes the text of the header. A submission that is refused changes nothing but the log,
and one whose key is derived is not refused any more.
-/

namespace Monitostr.Main
open Model Net Nip19 Nostr Ui
set_option autoImplicit false

/-! ## What the decoders accept -/

/-- An accepted string begins with its prefix and the separator, in either case. -/
theorem prefix_of_decode {input hrp : Str} {bytes : List UInt8}
    (h : decodeBech32_32Bytes input hrp = .ok bytes) : hrp ++ [49] <+: toLowerCopy input := by
  obtain ⟨chars, hframed, -⟩ := decodeBech32_32Bytes_ok_iff.mp h
  rw [hframed.normal]
  exact ⟨chars, by simp⟩

theorem prefix_of_nsec {value : Str} (h : (decodeNsecToHex value).ok = true) :
    lit "nsec1" <+: toLowerCopy value := by
  obtain ⟨bytes, hdecode, -⟩ := decodeNsecToHex_ok h
  exact prefix_of_decode hdecode

theorem prefix_of_npub {value : Str} (h : (decodeNpubToHex value).ok = true) :
    lit "npub1" <+: toLowerCopy value := by
  obtain ⟨bytes, hdecode, -⟩ := decodeNpubToHex_ok h
  exact prefix_of_decode hdecode

theorem looksLikeNsecInput_iff (value : Str) :
    looksLikeNsecInput value = true ↔ lit "nsec1" <+: toLowerCopy value := by
  have hlen : (lit "nsec1").length = 5 := by decide
  unfold looksLikeNsecInput
  rw [List.prefix_iff_eq_take, hlen]
  dsimp only
  unfold toLowerCopy
  split
  · next hshort =>
    refine iff_of_false (by simp) fun heq => ?_
    have hle := congrArg List.length heq
    rw [List.length_take, List.length_map, hlen] at hle
    omega
  · rw [beq_iff_eq, List.map_take, hlen]
    exact eq_comm

/-- The two prefixes are different, so no string has both. -/
theorem not_nsec_of_npub {value : Str} (h : (decodeNpubToHex value).ok = true) :
    ¬ lit "nsec1" <+: toLowerCopy value := by
  intro hnsec
  have hlen : (lit "nsec1").length = (lit "npub1").length := by decide
  have heq : lit "nsec1" = lit "npub1" := by
    rw [List.prefix_iff_eq_take.mp hnsec, List.prefix_iff_eq_take.mp (prefix_of_npub h), hlen]
  exact absurd heq (by decide)

/-! ## Return in insert mode -/

section Return
variable {keys : SpecialKeys} {surroundings : Surroundings} {app : App} {event : Event}

theorem catchEvent_return (hmode : app.mode = .insert) (hreturn : event.input = keys.returnKey) :
    (app.catchEvent keys surroundings event).effects =
      App.submit surroundings (trimCopy app.inputNpub) := by
  rw [App.catchEvent_insert hmode, App.insertEvent, if_neg (hreturn ▸ returnKey_ne_escape keys),
    if_pos hreturn]

theorem submit_of_npub {value : Str} (h : (decodeNpubToHex value).ok = true) :
    App.submit surroundings value = [.onSubmit value] := by
  have hlooks : looksLikeNsecInput value = false := by
    rw [Bool.eq_false_iff]
    exact fun hlooks => not_nsec_of_npub h ((looksLikeNsecInput_iff value).mp hlooks)
  have hne : value.isEmpty = false := by
    cases value with
    | nil => cases h
    | cons c rest => rfl
  unfold App.submit
  rw [hne, hlooks]
  rfl

/-- Only Return in insert mode submits anything to the callback for npubs. -/
theorem onSubmit_of_catchEvent {text : Str}
    (h : AppEffect.onSubmit text ∈ (app.catchEvent keys surroundings event).effects) :
    AppEffect.onSubmit text ∈ App.submit surroundings (trimCopy app.inputNpub) := by
  cases hmode : app.mode with
  | normal =>
    rw [App.catchEvent_normal hmode, normalEvent_effects] at h
    cases h
  | search =>
    rw [App.catchEvent_search hmode, searchEvent_effects] at h
    cases h
  | insert =>
    rw [App.catchEvent_insert hmode, App.insertEvent] at h
    split at h
    · cases h
    · split at h
      · exact h
      · split at h
        · cases h
        · split at h <;> cases h
  | command =>
    rw [App.catchEvent_command hmode, App.commandEvent] at h
    split at h
    · cases h
    · split at h
      · -- The effects of a command are all marked as such.
        obtain ⟨effect, -, heq⟩ := List.mem_map.mp h
        cases heq
      · split at h
        · cases h
        · split at h <;> cases h

variable (hauth : surroundings.onAuth = true)
include hauth

theorem submit_of_nsec {value : Str} (h : (decodeNsecToHex value).ok = true) :
    App.submit surroundings value = [.onAuth value] := by
  have hlooks := (looksLikeNsecInput_iff value).mpr (prefix_of_nsec h)
  have hne : value.isEmpty = false := by
    cases value with
    | nil => cases h
    | cons c rest => rfl
  unfold App.submit
  rw [hne, hlooks, hauth]
  rfl

/-- What reaches the callback for npubs is no private key, whatever the state and the event. -/
theorem not_nsec_of_onSubmit {text : Str}
    (h : AppEffect.onSubmit text ∈ (app.catchEvent keys surroundings event).effects) :
    (decodeNsecToHex text).ok = false := by
  have hsubmit := onSubmit_of_catchEvent h
  have htext : text = trimCopy app.inputNpub := by
    unfold App.submit at hsubmit
    split at hsubmit
    · cases hsubmit
    · split at hsubmit
      · simp at hsubmit
      · simpa using hsubmit
  rw [Bool.eq_false_iff]
  intro hok
  rw [← htext, submit_of_nsec hauth hok] at hsubmit
  simp at hsubmit

end Return

theorem header_of_nsec (application : Application) (m : Moment) {value : Str}
    (h : (decodeNsecToHex value).ok = true) :
    (application.onNpubSubmit m value).header = application.header := by
  have hnpub : (decodeNpubToHex value).ok = false := by
    rw [Bool.eq_false_iff]
    exact fun hok => not_nsec_of_npub hok (prefix_of_nsec h)
  unfold Application.onNpubSubmit
  simp only [hnpub, Bool.not_false, if_true]
  rfl

/-- **The routing of a submission.** Return passes a private key to the callback for keys and a public key to
the callback for npubs, and nothing is both. No event hands a private key to the callback for npubs, which
would not show it either. -/
theorem submission_routes (keys : SpecialKeys) (surroundings : Surroundings)
    (hauth : surroundings.onAuth = true) (app : App) (event : Event) :
    (app.mode = .insert → event.input = keys.returnKey →
      ((decodeNsecToHex (trimCopy app.inputNpub)).ok = true →
        (app.catchEvent keys surroundings event).effects = [.onAuth (trimCopy app.inputNpub)]) ∧
      ((decodeNpubToHex (trimCopy app.inputNpub)).ok = true →
        (app.catchEvent keys surroundings event).effects = [.onSubmit (trimCopy app.inputNpub)])) ∧
    (∀ value, ¬ ((decodeNsecToHex value).ok = true ∧ (decodeNpubToHex value).ok = true)) ∧
    (∀ text, AppEffect.onSubmit text ∈ (app.catchEvent keys surroundings event).effects →
      (decodeNsecToHex text).ok = false) ∧
    ∀ (application : Application) (m : Moment) (value : Str), (decodeNsecToHex value).ok = true →
      (application.onNpubSubmit m value).header = application.header := by
  refine ⟨fun hmode hreturn => ?_, ?_, fun text h => not_nsec_of_onSubmit hauth h,
    fun application m value => header_of_nsec application m⟩
  · rw [catchEvent_return hmode hreturn]
    exact ⟨submit_of_nsec hauth, submit_of_npub⟩
  · rintro value ⟨hnsec, hnpub⟩
    exact not_nsec_of_npub hnpub (prefix_of_nsec hnsec)

/-- An nsec in capitals, with a blank before it. -/
theorem submission_routes_upper :
    let app : App := { mode := .insert, inputNpub := 32 :: toUpperCopy zeroNsec }
    (app.catchEvent terminalKeys {} { isCharacter := false, input := [10] }).effects =
      [.onAuth (toUpperCopy zeroNsec)] := by
  have htrim : trimCopy (32 :: toUpperCopy zeroNsec) = toUpperCopy zeroNsec := by decide
  have hok : (decodeNsecToHex (toUpperCopy zeroNsec)).ok = true := by decide +kernel
  have h := ((submission_routes terminalKeys {} rfl
    { mode := .insert, inputNpub := 32 :: toUpperCopy zeroNsec }
    { isCharacter := false, input := [10] }).1 rfl rfl).1
  rw [htrim] at h
  exact h hok

/-! ## Error returns -/

namespace Application
variable {pf : Platform}

/-- What a callback logs, as it does on an empty log. -/
def logged (callback : Application → Application) (app : Application) : List LogEntry :=
  (callback { app with logBuffer := {} }).logBuffer.entries

/-- The callback takes one of its error returns: these log an error, and nothing else does. -/
def TakesErrorReturn (callback : Application → Application) (app : Application) : Prop :=
  ∃ entry ∈ logged callback app, entry.level = .error

/-- Nothing has changed but the log. -/
structure Unchanged (app app' : Application) : Prop where
  authKey : app'.authKey = app.authKey
  header : app'.header = app.header
  sharedStats : app'.sharedStats = app.sharedStats
  sessionManager : app'.sessionManager = app.sessionManager
  pending : app'.pending = app.pending

/-- No error is logged. -/
def NoError (app : Application) : Prop := ∀ entry ∈ app.logBuffer.entries, entry.level ≠ .error

theorem NoError.log {app : Application} (h : NoError app) (m : Moment) {level : LogLevel}
    (hlevel : level ≠ .error) (message : Str) : NoError (app.log m level message) := by
  intro entry hentry
  rcases List.mem_append.mp (List.mem_of_mem_drop hentry) with hold | hnew
  · exact h entry hold
  · obtain rfl := List.mem_singleton.mp hnew
    exact hlevel

theorem NoError.resetAndResolve {app : Application} (h : NoError app) (m : Moment) (hexPubkey : Str) :
    NoError ((app.resetStats m).resolveRelays m hexPubkey) := by
  have hreset : NoError { app with sharedStats := app.sharedStats.reset } := h
  exact (hreset.log m (by decide) _).log m (by decide) _

theorem NoError.logAll {app : Application} (h : NoError app) (m : Moment) {lines : List LogLine}
    (hlines : ∀ line ∈ lines, line.1 ≠ .error) : NoError (app.logAll m lines) := by
  induction lines generalizing app with
  | nil => exact h
  | cons line lines ih =>
    obtain ⟨hline, hrest⟩ := List.forall_mem_cons.mp hlines
    exact ih (h.log m hline line.2) hrest

theorem logged_noError (callback : Application → Application) (app : Application)
    (h : ∀ app, NoError app → NoError (callback app)) : ¬ TakesErrorReturn callback app := by
  have hempty : NoError { app with logBuffer := {} } := List.forall_mem_nil _
  rintro ⟨entry, hentry, herror⟩
  exact h _ hempty entry hentry herror

/-- A log with room for a line keeps the last one. -/
theorem error_mem_log (app : Application) (m : Moment) (message : Str)
    (hroom : 0 < app.logBuffer.maxEntries) :
    ∃ entry ∈ (app.log m .error message).logBuffer.entries, entry.level = .error := by
  refine ⟨{ timestamp := m.timestamp, level := .error, message := message }, ?_, rfl⟩
  unfold Application.log LogBuffer.push
  dsimp only
  rw [List.drop_append_of_le_length]
  · exact List.mem_append_right _ List.mem_cons_self
  · rw [List.length_append, List.length_singleton]
    omega

/-! ### The callback for npubs -/

theorem NoError.onNpubSubmit {app : Application} (h : NoError app) (m : Moment) {npub : Str}
    (hok : (decodeNpubToHex npub).ok = true) : NoError (app.onNpubSubmit m npub) := by
  have hlogged : NoError (app.log m .info (lit "New npub submitted")) := h.log m (by decide) _
  unfold Application.onNpubSubmit
  simp only [hok, Bool.not_true, Bool.false_eq_true, if_false]
  apply NoError.resetAndResolve
  apply NoError.log
  · exact hlogged
  · decide

theorem npub_errorReturn_iff (app : Application) (m : Moment) (npub : Str) :
    TakesErrorReturn (fun app => app.onNpubSubmit m npub) app ↔ (decodeNpubToHex npub).ok = false := by
  constructor
  · intro herror
    rw [Bool.eq_false_iff]
    intro hok
    exact logged_noError _ app (fun _ happ => happ.onNpubSubmit m hok) herror
  · intro hfails
    have hrejected : ∀ app : Application, app.onNpubSubmit m npub =
        (app.log m .info (lit "New npub submitted")).log m .error
          (lit "Invalid npub: " ++ (decodeNpubToHex npub).error) := by
      intro app
      unfold Application.onNpubSubmit
      simp only [hfails, Bool.not_false, if_true]
    unfold TakesErrorReturn logged
    dsimp only
    rw [hrejected]
    exact error_mem_log _ m _ (Nat.succ_pos 399)

theorem npub_unchanged (app : Application) (m : Moment) {npub : Str}
    (h : (decodeNpubToHex npub).ok = false) : Unchanged app (app.onNpubSubmit m npub) := by
  unfold Application.onNpubSubmit
  simp only [h, Bool.not_false, if_true]
  exact ⟨rfl, rfl, rfl, rfl, rfl⟩

/-! ### The callback for nsecs -/

theorem NoError.monitorDerived {app : Application} (h : NoError app) (m : Moment) (key : AuthKey) :
    NoError (app.monitorDerived m key.hexPubkey) := by
  obtain ⟨hencode, hdecode⟩ := encodeNpub_of_key key
  have hderived : NoError (app.log m .info (lit "npub derived from nsec, starting monitoring")) :=
    h.log m (by decide) _
  unfold Application.monitorDerived
  simp only [hencode, hdecode, Bool.not_true, Bool.false_eq_true, if_false]
  apply NoError.resetAndResolve
  exact hderived

theorem NoError.onNsecSubmit {app : Application} (h : NoError app) (m : Moment) {nsec : Str}
    {key : AuthKey} (hkey : acceptedKey pf nsec = some key) : NoError (app.onNsecSubmit pf m nsec) := by
  rw [acceptedKey] at hkey
  split at hkey
  · next hok =>
    have hset : NoError { app with authKey := some key } := h
    unfold Application.onNsecSubmit
    simp only [hok, hkey, Bool.not_true, Bool.false_eq_true, if_false]
    split
    · apply NoError.logAll
      · exact hset.log m (by decide) _
      · rintro line hline
        obtain rfl := List.mem_singleton.mp hline
        simp
    · exact (hset.log m (by decide) _).monitorDerived m key
  · cases hkey

theorem nsec_errorReturn_iff (app : Application) (m : Moment) (nsec : Str) :
    TakesErrorReturn (fun app => app.onNsecSubmit pf m nsec) app ↔ acceptedKey pf nsec = none := by
  constructor
  · intro herror
    cases hkey : acceptedKey pf nsec with
    | none => rfl
    | some key =>
      exact absurd herror (logged_noError _ app fun _ happ => happ.onNsecSubmit m hkey)
  · intro hkey
    obtain ⟨message, hrejected⟩ := onNsecSubmit_of_rejected hkey
    unfold TakesErrorReturn logged
    dsimp only
    rw [hrejected]
    exact error_mem_log _ m _ (Nat.succ_pos 399)

theorem nsec_unchanged (app : Application) (m : Moment) {nsec : Str}
    (h : acceptedKey pf nsec = none) : Unchanged app (app.onNsecSubmit pf m nsec) := by
  obtain ⟨message, hrejected⟩ := onNsecSubmit_of_rejected h
  rw [hrejected]
  exact ⟨rfl, rfl, rfl, rfl, rfl⟩

theorem acceptedKey_eq_none {nsec : Str} :
    acceptedKey pf nsec = none ↔ (decodeNsecToHex nsec).ok = false ∨
      AuthKey.fromHexPrivkey pf (decodeNsecToHex nsec).hexPrivkey = none := by
  unfold acceptedKey
  cases (decodeNsecToHex nsec).ok with
  | false => simp
  | true => simp

end Application

open Application

/-- **A key submission is atomic.** A callback that takes an error return changes nothing but the log. The
callback for nsecs takes one only before it sets the key: the npub of a derived key can always be encoded, and
decodes to the key's pubkey. -/
theorem key_submission_atomic (pf : Platform) (app : Application) (m : Moment) (text : Str) :
    (TakesErrorReturn (fun app => app.onNpubSubmit m text) app →
      Unchanged app (app.onNpubSubmit m text)) ∧
    (TakesErrorReturn (fun app => app.onNsecSubmit pf m text) app →
      Unchanged app (app.onNsecSubmit pf m text)) ∧
    (TakesErrorReturn (fun app => app.onNsecSubmit pf m text) app ↔
      (decodeNsecToHex text).ok = false ∨
        AuthKey.fromHexPrivkey pf (decodeNsecToHex text).hexPrivkey = none) ∧
    ∀ key, AuthKey.fromHexPrivkey pf (decodeNsecToHex text).hexPrivkey = some key →
      (encodeNpubFromHex key.hexPubkey).ok = true ∧
        decodeNpubToHex (encodeNpubFromHex key.hexPubkey).npub =
          { ok := true, hexPubkey := key.hexPubkey } := by
  refine ⟨fun herror => ?_, fun herror => ?_, ?_, fun key _ => encodeNpub_of_key key⟩
  · exact npub_unchanged app m ((npub_errorReturn_iff app m text).mp herror)
  · exact nsec_unchanged app m ((nsec_errorReturn_iff app m text).mp herror)
  · rw [nsec_errorReturn_iff, acceptedKey_eq_none]

end Monitostr.Main
