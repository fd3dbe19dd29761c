import Monitostr.Net.HandledMessages
import Monitostr.Net.SessionManager

/-! # What a session sends, and to whom

A session takes the host, the port and the target from its URL, parsed when it is made and again by
`Start`. So whatever it resolves, asks for the websocket or for the NIP-11 document is what its URL says,
and what it writes first is the request for its pubkey. No handler raises an error on the way.
-/

namespace Monitostr.Net
open Foundations Foundations.Behaviour Nostr
set_option autoImplicit false

variable {pf : Platform} {m : Moment} {s : RelaySession}

/-! ## The request -/

/-- The request for the notes of a pubkey. -/
def monitorRequest (hexPubkey : Str) : Json :=
  .array [.string (lit "REQ"), .string (lit "monitostr-sub"),
    .object [(lit "authors", .array [.string hexPubkey]), (lit "kinds", .array [.integer 1]),
      (lit "limit", .integer 1)]]

theorem monitorRequest_plain {hexPubkey : Str} (h : IsUtf8 hexPubkey) :
    (monitorRequest hexPubkey).Plain := by
  have hauthors : (Json.array [.string hexPubkey]).Plain := by
    refine .array fun j hj => ?_
    rw [List.mem_singleton.mp hj]
    exact .string h
  have hlimit : (Json.integer 1).Plain := .integer (by decide) (by decide)
  have hkinds : (Json.array [.integer 1]).Plain := by
    refine .array fun j hj => ?_
    rw [List.mem_singleton.mp hj]
    exact hlimit
  have hfilter : (Json.object [(lit "authors", .array [.string hexPubkey]),
      (lit "kinds", .array [.integer 1]), (lit "limit", .integer 1)]).Plain := by
    have hkeys : [lit "authors", lit "kinds", lit "limit"].Pairwise (· < ·) := by decide
    refine .object hkeys ?_ ?_
    · simp only [List.forall_mem_cons]
      exact ⟨isUtf8_of_all rfl, isUtf8_of_all rfl, isUtf8_of_all rfl, List.forall_mem_nil _⟩
    · simp only [List.forall_mem_cons]
      exact ⟨hauthors, hkinds, hlimit, List.forall_mem_nil _⟩
  refine .array ?_
  simp only [List.forall_mem_cons]
  exact ⟨.string (isUtf8_of_all rfl), .string (isUtf8_of_all rfl), hfilter, List.forall_mem_nil _⟩

theorem buildMonitorReqMessage_spec (hjson : ParseInvertsDump pf) {hexPubkey : Str}
    (h : IsUtf8 hexPubkey) : ∃ message, buildMonitorReqMessage pf hexPubkey = some message ∧
      pf.parseJson message = some (monitorRequest hexPubkey) :=
  hjson _ (monitorRequest_plain h)

/-! ## What an operation is for -/

variable (pf) in
/-- The operation is what the session of this relay and pubkey is to do. -/
def Addresses (parsed : ParsedRelayUrl) (hexPubkey : Str) : AsyncOp → Prop
  | .resolve host port => host = parsed.host ∧ port = parsed.port
  | .wsHandshake host target => host = parsed.host ∧ target = parsed.target
  | .fetchNips parsedRelay => parsedRelay = parsed
  | .writeReq message => pf.parseJson message = some (monitorRequest hexPubkey)
  | .connect | .tlsHandshake | .read | .reconnectWait _ | .writeAuth _ | .close => True

/-- `system_clock` has 64 bits. -/
def ClockFits : SessionEvent → Prop
  | .run m => -2 ^ 63 ≤ m.unixSeconds ∧ m.unixSeconds < 2 ^ 63
  | .call _ | .finish _ _ => True

theorem clockFits_start : ClockFits (.run {}) := by
  rw [ClockFits]
  decide

/-- A session for a relay and a pubkey in UTF-8, with the URL parsed. -/
structure Targeted (relayUrl hexPubkey : Str) (s : RelaySession) : Prop where
  url : s.relayUrl = relayUrl
  pubkey : s.hexPubkey = hexPubkey
  parsed : s.parsedRelay = (parseRelayUrl relayUrl).getD {}

theorem Targeted.handle {relayUrl hexPubkey : Str} (hs : Targeted relayUrl hexPubkey s)
    (item : Item SessionCall AsyncOp Outcome) : Targeted relayUrl hexPubkey (s.handle pf m item).1 := by
  have hmembers := s.handle_members pf m item
  refine ⟨hmembers.relayUrl.trans hs.url, hmembers.hexPubkey.trans hs.pubkey, ?_⟩
  have h : RelaySession.Turn pf m s item (s.handle pf m item) := RelaySession.handle_turn item
  have hparsed : (s.handle pf m item).1.parsedRelay = s.parsedRelay ∨
      (s.handle pf m item).1.parsedRelay = s.restarted.parsedRelay := by
    generalize s.handle pf m item = result at h ⊢
    cases h with
    | refuse | start => exact Or.inr rfl
    | fail op o ec =>
      obtain ⟨n, hn⟩ := @RelaySession.markError_fst pf m s op.where_ ec
      rw [hn]
      exact Or.inl rfl
    | failSni o ec =>
      obtain ⟨n, hn⟩ := @RelaySession.markError_fst pf m s (lit "set_sni") ec
      dsimp only
      rw [hn]
      exact Or.inl rfl
    | _ => exact Or.inl rfl
  rcases hparsed with hsame | hagain
  · exact hsame.trans hs.parsed
  · rw [hagain, ← hs.url]
    rfl

theorem Targeted.react {relayUrl hexPubkey : Str} {o o' : SessionObject} {e : SessionEvent}
    {effects : List Effect} (ho : Targeted relayUrl hexPubkey o.data)
    (h : (sessionBehaviour pf).react o e = some (o', effects)) :
    Targeted relayUrl hexPubkey o'.data := by
  cases hitem : handledItem o e with
  | none =>
    obtain ⟨-, buffer, hdata⟩ := react_without_handler hitem h
    rw [hdata]
    exact ⟨ho.url, ho.pubkey, ho.parsed⟩
  | some item =>
    obtain ⟨m, rest, -, -, -, hdata, -⟩ := react_handler hitem h
    rw [hdata]
    exact ho.handle item

theorem written_request {host target message req : Str} {o : Outcome} (hec : o.ec = none)
    (hreq : buildMonitorReqMessage pf s.hexPubkey = some req)
    (hop : Effect.start (.writeReq message) ∈
      (s.handle pf m (.completion (.wsHandshake host target) o)).2) : message = req := by
  have h := @RelaySession.handle_turn pf m s (.completion (.wsHandshake host target) o)
  generalize s.handle pf m (.completion (.wsHandshake host target) o) = result at h hop
  cases h with
  | fail op o ec hop' hfailed =>
    rw [hec] at hfailed
    cases hfailed
  | subscribed host target o text last hec hlast =>
    rw [hreq] at hlast
    subst hlast
    simpa [RelaySession.setStatus] using hop

theorem Targeted.addresses (hjson : ParseInvertsDump pf) {relayUrl hexPubkey : Str}
    (hpubkey : IsUtf8 hexPubkey) (hs : Targeted relayUrl hexPubkey s)
    {item : Item SessionCall AsyncOp Outcome} {op : AsyncOp}
    (hop : Effect.start op ∈ (s.handle pf m item).2) :
    Addresses pf ((parseRelayUrl relayUrl).getD {}) hexPubkey op := by
  have hsucc := RelaySession.handle_successor hop
  cases hsucc with
  | resolve => exact ⟨congrArg (fun url => ((parseRelayUrl url).getD {}).host) hs.url,
      congrArg (fun url => ((parseRelayUrl url).getD {}).port) hs.url⟩
  | wsHandshake o hec | resolveAgain delayMs o hec hrunning =>
    exact ⟨congrArg _ hs.parsed, congrArg _ hs.parsed⟩
  | fetchNips host target o hec => exact hs.parsed
  | writeReq host target message o hec =>
    obtain ⟨req, hreq, hparse⟩ := buildMonitorReqMessage_spec hjson hpubkey
    rw [Addresses, written_request hec (hs.pubkey ▸ hreq) hop]
    exact hparse
  | _ => trivial

/-! ## No handler raises an error -/

theorem throws_not_mem_markError (where_ ec : Str) :
    Effect.throws ∉ (s.markError pf m where_ ec).2 := by
  intro h
  rcases RelaySession.mem_markError h with h | ⟨_, _, h⟩ | h | ⟨_, h⟩ <;> cases h

theorem Targeted.no_throw (hjson : ParseInvertsDump pf) (hutf8 : ParsesUtf8 pf)
    {relayUrl hexPubkey : Str} (hurl : IsUtf8 relayUrl) (hpubkey : IsUtf8 hexPubkey)
    (hclock : -2 ^ 63 ≤ m.unixSeconds ∧ m.unixSeconds < 2 ^ 63)
    (hs : Targeted relayUrl hexPubkey s) (item : Item SessionCall AsyncOp Outcome) :
    Effect.throws ∉ (s.handle pf m item).2 := by
  have h : RelaySession.Turn pf m s item (s.handle pf m item) := RelaySession.handle_turn item
  generalize s.handle pf m item = result at h ⊢
  cases h with
  | fail op o ec => exact throws_not_mem_markError _ _
  | failSni o ec text =>
    exact List.not_mem_cons_of_ne_of_not_mem nofun (throws_not_mem_markError _ _)
  | subscribed host target o text last hec hlast =>
    obtain ⟨req, hreq, -⟩ := buildMonitorReqMessage_spec hjson hpubkey
    rw [hs.pubkey, hreq] at hlast
    subst hlast
    simp [RelaySession.setStatus]
  | read o next hec hnext =>
    have hmessage := HandledMessage.no_throw hjson hutf8 hurl
      { m := m, clock := hclock, session := s, own := hs.url, payload := s.readBuffer }
    refine List.not_mem_append hmessage ?_
    rw [hnext]
    split <;> simp
  | _ => simp [RelaySession.setStatus, RelaySession.startResolve]

/-! ## Every run -/

variable (pf) in
/-- What an event starts is what the session is for, and it raises no error. -/
def SendsItsOwn (relayUrl hexPubkey : Str) (o : SessionObject) (e : SessionEvent) : Prop :=
  ∀ o' effects, (sessionBehaviour pf).react o e = some (o', effects) → Effect.throws ∉ effects ∧
    ∀ op, Effect.start op ∈ effects → Addresses pf ((parseRelayUrl relayUrl).getD {}) hexPubkey op

theorem Targeted.sendsItsOwn (hjson : ParseInvertsDump pf) (hutf8 : ParsesUtf8 pf)
    {relayUrl hexPubkey : Str} (hurl : IsUtf8 relayUrl) (hpubkey : IsUtf8 hexPubkey)
    {o : SessionObject} {e : SessionEvent} (he : ClockFits e)
    (ho : Targeted relayUrl hexPubkey o.data) : SendsItsOwn pf relayUrl hexPubkey o e := by
  intro o' effects h
  cases hitem : handledItem o e with
  | none =>
    obtain ⟨hstarts, -⟩ := react_without_handler hitem h
    refine ⟨?_, fun op hop => ?_⟩
    · rcases (react_idle hitem h).1 with rfl | ⟨op, outcome, hd⟩
      · exact List.not_mem_nil
      · rcases RelaySession.direct_cases hd with ⟨-, rfl⟩ | ⟨message, rfl⟩ <;>
          simp [RelaySession.setStatus, RelaySession.warn]
    · rw [mem_starts, hstarts] at hop
      cases hop
  | some item =>
    obtain ⟨m, rest, rfl, -, rfl, -, -⟩ := react_handler hitem h
    exact ⟨ho.no_throw hjson hutf8 hurl hpubkey he item, fun op hop => ho.addresses hjson hpubkey hop⟩

theorem targeted_startedSession (hexPubkey : Str) (authKey : Option AuthKey) (relayUrl : Str) :
    Targeted relayUrl hexPubkey (SessionManager.startedSession hexPubkey authKey relayUrl).data :=
  ⟨rfl, rfl, rfl⟩

end Monitostr.Net
