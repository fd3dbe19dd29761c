import Monitostr.Net.AuthMessage
import Monitostr.Net.SessionSteps

/-! # What a payload from the relay does

A payload is any text. `HandleMessage` counts it, times it, answers it or ignores it, by the JSON array
that it is. The answer to a challenge is dumped twice, so it fails with an exception unless the
relay's URL is UTF-8; the challenge is, as it has been parsed.
-/

namespace Monitostr.Net
open Foundations Model Nostr
set_option autoImplicit false

/-! ## Which array it is -/

/-- The payload is an array that begins with the string. -/
def beginsWith (pf : Platform) (kind payload : Str) : Bool :=
  match pf.parseJson payload with
  | some (.array (.string first :: _)) => first = kind
  | _ => false

/-- The challenge of an array that begins with `AUTH` and a string. -/
def authChallenge? (pf : Platform) (payload : Str) : Option Str :=
  match pf.parseJson payload with
  | some (.array (.string first :: .string challenge :: _)) =>
    if first = lit "AUTH" then some challenge else none
  | _ => none

variable {pf : Platform}

theorem authChallenge?_eq_some {payload challenge : Str} :
    authChallenge? pf payload = some challenge ↔
      ∃ rest, pf.parseJson payload =
        some (.array (.string (lit "AUTH") :: .string challenge :: rest)) := by
  unfold authChallenge?
  constructor
  · intro h
    split at h
    · next first found rest hparse =>
      split at h
      · next hfirst =>
        subst hfirst
        obtain rfl := Option.some.inj h
        exact ⟨rest, hparse⟩
      · cases h
    · cases h
  · rintro ⟨rest, hparse⟩
    rw [hparse]
    exact if_pos rfl

theorem beginsWith_eq_true {kind payload : Str} :
    beginsWith pf kind payload = true ↔
      ∃ rest, pf.parseJson payload = some (.array (.string kind :: rest)) := by
  unfold beginsWith
  constructor
  · intro h
    split at h
    · next first rest hparse =>
      obtain rfl := of_decide_eq_true h
      exact ⟨rest, hparse⟩
    · cases h
  · rintro ⟨rest, hparse⟩
    rw [hparse]
    exact decide_eq_true rfl

theorem beginsWith_of_parse {kind payload : Str} {rest : List Json}
    (h : pf.parseJson payload = some (.array (.string kind :: rest))) (kind' : Str) :
    beginsWith pf kind' payload = decide (kind = kind') := by
  rw [beginsWith, h]

theorem authChallenge?_of_parse {kind payload : Str} {rest : List Json}
    (h : pf.parseJson payload = some (.array (.string kind :: rest))) :
    authChallenge? pf payload =
      if kind = lit "AUTH" then rest.head?.bind Json.getString? else none := by
  rw [authChallenge?, h]
  cases rest with
  | nil => simp
  | cons second rest => cases second <;> simp [Json.getString?]

variable (pf) in
/-- What the parser of messages makes of a payload, with all that this says of the payload. -/
inductive Classified (payload : Str) : RelayMessageEffect → Prop
  | authChallenge (challenge : Str) :
    authChallenge? pf payload = some challenge → beginsWith pf (lit "EVENT") payload = false →
    beginsWith pf (lit "EOSE") payload = false → Classified payload (.authChallenge challenge)
  | eventCount :
    authChallenge? pf payload = none → beginsWith pf (lit "EVENT") payload = true →
    beginsWith pf (lit "EOSE") payload = false → Classified payload .eventCount
  | endOfStoredEvents :
    authChallenge? pf payload = none → beginsWith pf (lit "EVENT") payload = false →
    beginsWith pf (lit "EOSE") payload = true → Classified payload .endOfStoredEvents
  | ignore :
    authChallenge? pf payload = none → beginsWith pf (lit "EVENT") payload = false →
    beginsWith pf (lit "EOSE") payload = false → Classified payload .ignore

theorem messageEffect_string (kind : Str) (rest : List Json) :
    messageEffect (.string kind :: rest) =
      if kind = lit "AUTH" ∧ (rest.head?.bind Json.getString?).isSome then
        .authChallenge ((rest.head?.bind Json.getString?).getD [])
      else if kind = lit "EVENT" then .eventCount
      else if kind = lit "EOSE" then .endOfStoredEvents
      else .ignore := rfl

theorem messageEffect_classified {kind payload : Str} {rest : List Json}
    (h : pf.parseJson payload = some (.array (.string kind :: rest))) :
    Classified pf payload (messageEffect (.string kind :: rest)) := by
  have hauth := authChallenge?_of_parse h
  have hbegins := beginsWith_of_parse h
  have hne : lit "AUTH" ≠ lit "EVENT" ∧ lit "AUTH" ≠ lit "EOSE" ∧ lit "EVENT" ≠ lit "EOSE" := by
    decide
  rw [messageEffect_string]
  by_cases hkind : kind = lit "AUTH"
  · subst hkind
    rw [if_pos rfl] at hauth
    have hevent := (hbegins (lit "EVENT")).trans (decide_eq_false hne.1)
    have heose := (hbegins (lit "EOSE")).trans (decide_eq_false hne.2.1)
    cases hchallenge : rest.head?.bind Json.getString? with
    | none =>
      rw [hchallenge] at hauth
      rw [if_neg (by simp), if_neg hne.1, if_neg hne.2.1]
      exact .ignore hauth hevent heose
    | some challenge =>
      rw [hchallenge] at hauth
      rw [if_pos (by simp)]
      exact .authChallenge challenge hauth hevent heose
  · rw [if_neg hkind] at hauth
    rw [if_neg fun h => hkind h.1]
    by_cases hevent : kind = lit "EVENT"
    · subst hevent
      rw [if_pos rfl]
      exact .eventCount hauth ((hbegins _).trans (decide_eq_true rfl))
        ((hbegins _).trans (decide_eq_false hne.2.2))
    · rw [if_neg hevent]
      by_cases heose : kind = lit "EOSE"
      · rw [if_pos heose]
        exact .endOfStoredEvents hauth ((hbegins _).trans (decide_eq_false hevent))
          ((hbegins _).trans (decide_eq_true heose))
      · rw [if_neg heose]
        exact .ignore hauth ((hbegins _).trans (decide_eq_false hevent))
          ((hbegins _).trans (decide_eq_false heose))

variable (pf) in
/-- The parser of messages tells the payloads apart by what they begin with. -/
theorem parseRelayMessageEffect_classified (payload : Str) :
    Classified pf payload (parseRelayMessageEffect pf payload) := by
  have hignore : (∀ kind rest, pf.parseJson payload ≠ some (.array (.string kind :: rest))) →
      Classified pf payload .ignore := by
    intro hnone
    have hbegins : ∀ kind, beginsWith pf kind payload = false := by
      intro kind
      rw [Bool.eq_false_iff]
      intro h
      obtain ⟨rest, hparse⟩ := beginsWith_eq_true.mp h
      exact hnone kind rest hparse
    refine .ignore ?_ (hbegins _) (hbegins _)
    rw [Option.eq_none_iff_forall_ne_some]
    intro challenge h
    obtain ⟨rest, hparse⟩ := authChallenge?_eq_some.mp h
    exact hnone _ _ hparse
  unfold parseRelayMessageEffect
  cases hparse : pf.parseJson payload with
  | none => exact hignore (by simp [hparse])
  | some value =>
    cases value with
    | array elements =>
      cases elements with
      | nil => exact hignore (by simp [hparse])
      | cons first rest =>
        cases first with
        | string kind => exact messageEffect_classified hparse
        | _ => exact hignore (by simp [hparse])
    | _ => exact hignore (by simp [hparse])

/-! ## One payload -/

/-- A payload that a session of the relay handles, with the session as it is then. -/
structure HandledMessage (relayUrl : Str) where
  m : Moment
  /-- `system_clock` has 64 bits. -/
  clock : -2 ^ 63 ≤ m.unixSeconds ∧ m.unixSeconds < 2 ^ 63
  session : RelaySession
  own : session.relayUrl = relayUrl
  payload : Str

namespace HandledMessage
variable {relayUrl : Str} (message : HandledMessage relayUrl)

variable (pf) in
def effects : List Effect := message.session.handleMessage pf message.m message.payload

/-- The time since the request was sent, in milliseconds. -/
def elapsedMs : ℤ := ((message.m.steady : ℤ) - message.session.reqSentAt).tdiv 1000000

variable (pf) in
def isEvent : Bool := beginsWith pf (lit "EVENT") message.payload

variable (pf) in
def isEose : Bool := beginsWith pf (lit "EOSE") message.payload

def received : Effect := message.session.info (lit "NIP-42 AUTH challenge received — signing")

def skipping : Effect :=
  message.session.warn (lit "NIP-42 AUTH challenge received — no private key set; skipping")

variable (pf) in
/-- A reply is attempted for the challenge of the payload, with the key that is set, and for nothing
else. -/
structure RepliesToAuth : Prop where
  challenge : ∀ challenge, authChallenge? pf message.payload = some challenge →
    message.effects pf = message.session.onAuthChallenge pf message.m challenge
  attempted : (message.effects pf).head? = some message.received ↔
    (authChallenge? pf message.payload).isSome = true ∧ message.session.authKey.isSome = true
  skipped : (message.effects pf).head? = some message.skipping ↔
    (authChallenge? pf message.payload).isSome = true ∧ message.session.authKey = none
  written : ∀ text, Effect.start (.writeAuth text) ∈ message.effects pf →
    (message.effects pf).head? = some message.received

variable (pf) in
theorem head_onAuthChallenge (challenge : Str) :
    (message.session.onAuthChallenge pf message.m challenge).head? =
      if message.session.authKey.isSome then some message.received else some message.skipping := by
  unfold RelaySession.onAuthChallenge
  cases message.session.authKey with
  | none => rfl
  | some authKey =>
    dsimp only
    split
    · rfl
    · split
      · rfl
      · split
        · rfl
        · split <;> rfl

theorem received_ne_skipping : message.received ≠ message.skipping := by
  unfold received skipping RelaySession.info RelaySession.warn
  simp

variable (pf) in
/-- What `HandleMessage` does, with what the payload is when it does so. -/
inductive Handles : List Effect → Prop
  | authChallenge (challenge : Str) :
    authChallenge? pf message.payload = some challenge → message.isEvent pf = false →
    message.isEose pf = false →
    Handles (message.session.onAuthChallenge pf message.m challenge)
  | event :
    authChallenge? pf message.payload = none → message.isEvent pf = true →
    message.isEose pf = false → Handles [.stats (.incrementEvent relayUrl)]
  | eose :
    authChallenge? pf message.payload = none → message.isEvent pf = false →
    message.isEose pf = true →
    Handles [.stats (.recordLatency relayUrl message.elapsedMs),
      message.session.info
        (lit "EOSE received in " ++ stdToStringInt message.elapsedMs ++ lit " ms")]
  | ignored :
    authChallenge? pf message.payload = none → message.isEvent pf = false →
    message.isEose pf = false → Handles []

variable (pf) in
theorem effects_handles : message.Handles pf (message.effects pf) := by
  have hclass := parseRelayMessageEffect_classified pf message.payload
  unfold effects RelaySession.handleMessage
  generalize parseRelayMessageEffect pf message.payload = effect at hclass ⊢
  cases hclass with
  | authChallenge challenge hauth hevent heose => exact .authChallenge challenge hauth hevent heose
  | eventCount hauth hevent heose =>
    rw [message.own]
    exact .event hauth hevent heose
  | endOfStoredEvents hauth hevent heose =>
    rw [message.own]
    exact .eose hauth hevent heose
  | ignore hauth hevent heose => exact .ignored hauth hevent heose

/-- Without a key nothing is written. -/
theorem authKey_of_written {challenge text : Str}
    (h : Effect.start (.writeAuth text) ∈ message.session.onAuthChallenge pf message.m challenge) :
    message.session.authKey.isSome = true := by
  unfold RelaySession.onAuthChallenge at h
  cases hkey : message.session.authKey with
  | none => simp [hkey, RelaySession.warn] at h
  | some authKey => rfl

theorem repliesToAuth : message.RepliesToAuth pf := by
  have h := message.effects_handles pf
  have hne := message.received_ne_skipping
  generalize heffects : message.effects pf = effects at h
  cases h with
  | authChallenge challenge hauth hevent heose =>
    have hhead := message.head_onAuthChallenge pf challenge
    constructor
    · intro challenge' hauth'
      rw [heffects, Option.some.inj (hauth.symm.trans hauth')]
    · rw [heffects, hhead, hauth]
      cases message.session.authKey with
      | none => simp [hne.symm]
      | some authKey => simp
    · rw [heffects, hhead, hauth]
      cases message.session.authKey with
      | none => simp
      | some authKey => simp [hne]
    · intro text htext
      rw [heffects] at htext ⊢
      rw [hhead, if_pos (message.authKey_of_written htext)]
  | event hauth hevent heose =>
    constructor <;> simp [heffects, hauth, received, skipping, RelaySession.info, RelaySession.warn]
  | eose hauth hevent heose =>
    constructor <;> simp [heffects, hauth, received, skipping, RelaySession.info, RelaySession.warn]
  | ignored hauth hevent heose =>
    constructor <;> simp [heffects, hauth]

end HandledMessage

/-! ## Errors -/

theorem signaturesVerify_trivial (pf : Platform) : SignaturesVerify pf fun _ _ _ => True := by
  intro key pubkey id aux sig _ _
  trivial

/-- An answer is dumped without an exception when the relay's URL and the challenge are UTF-8. -/
theorem onAuthChallenge_no_throw (hjson : ParseInvertsDump pf) {m : Moment}
    (hclock : -2 ^ 63 ≤ m.unixSeconds ∧ m.unixSeconds < 2 ^ 63) {s : RelaySession} {challenge : Str}
    (hurl : IsUtf8 s.relayUrl) (hchallenge : IsUtf8 challenge) :
    Effect.throws ∉ s.onAuthChallenge pf m challenge := by
  unfold RelaySession.onAuthChallenge
  cases s.authKey with
  | none => simp [RelaySession.warn]
  | some authKey =>
    dsimp only
    by_cases hfailed : buildAuthEvent pf m s.relayUrl challenge authKey.privkeyBytes = some []
    · rw [hfailed]
      simp [RelaySession.info, RelaySession.error]
    · obtain ⟨text, event, htext, hparse, hplain, -⟩ :=
        buildAuthEvent_spec hclock hurl hchallenge hjson (signaturesVerify_trivial pf) hfailed
      have hmessage : (Json.array [.string (lit "AUTH"), event]).Plain := by
        refine .array ?_
        simp only [List.forall_mem_cons]
        exact ⟨.string (isUtf8_of_all rfl), hplain, by simp⟩
      obtain ⟨message, hdump, -⟩ := hjson _ hmessage
      rw [htext]
      dsimp only
      split
      · simp [RelaySession.info, RelaySession.error]
      · rw [hparse]
        dsimp only
        rw [hdump]
        simp [RelaySession.info]

theorem isUtf8_authChallenge (hutf8 : ParsesUtf8 pf) {payload challenge : Str}
    (h : authChallenge? pf payload = some challenge) : IsUtf8 challenge := by
  obtain ⟨rest, hparse⟩ := authChallenge?_eq_some.mp h
  have hencoded : (Json.string challenge).Encoded := (hutf8 _ _ hparse).element (by simp)
  exact hencoded.utf8_string

/-- **No payload raises an error** in a session for a URL in UTF-8. -/
theorem HandledMessage.no_throw (hjson : ParseInvertsDump pf) (hutf8 : ParsesUtf8 pf)
    {relayUrl : Str} (hurl : IsUtf8 relayUrl) (message : HandledMessage relayUrl) :
    Effect.throws ∉ message.effects pf := by
  have h := message.effects_handles pf
  generalize message.effects pf = effects at h ⊢
  cases h with
  | authChallenge challenge hauth hevent heose =>
    apply onAuthChallenge_no_throw hjson message.clock
    · rw [message.own]
      exact hurl
    · exact isUtf8_authChallenge hutf8 hauth
  | event hauth hevent heose => simp
  | eose hauth hevent heose => simp [RelaySession.info]
  | ignored hauth hevent heose => simp

end Monitostr.Net
