import Monitostr.Net.RelaySession
import Monitostr.Utils.JsonText

/-! # The answer to an AUTH challenge

`BuildAuthEvent` hashes one serialisation and assembles another, and `OnAuthChallenge` parses the event and
dumps it again inside the message. What the relay reads is an event whose own members give its id, signed by
the key that the session shows in its pubkey.
-/

namespace Monitostr.Nostr
open Foundations
set_option autoImplicit false

/-! ## The libraries -/

section Libraries
variable (pf : Platform)

/-- nlohmann-json: `dump` writes a plain value, and `parse` reads it back. -/
def ParseInvertsDump : Prop :=
  ∀ value : Json, value.Plain → ∃ text, pf.dumpJson value = some text ∧ pf.parseJson text = some value

/-- libsecp256k1: a signature verifies under the public key of the private key that made it. -/
def SignaturesVerify (verify : Bytes 32 → Bytes 32 → Bytes 64 → Prop) : Prop :=
  ∀ key pubkey id aux sig, pf.xonlyPubkey key = some pubkey →
    pf.schnorrSign id key aux = some sig → verify id pubkey sig

end Libraries

/-! ## The event -/

/-- The array that NIP-01 hashes for the id of an event, from its members. -/
def nip01Array (event : Json) : Option Json := do
  let pubkey ← event.member? (lit "pubkey")
  let createdAt ← event.member? (lit "created_at")
  let kind ← event.member? (lit "kind")
  let tags ← event.member? (lit "tags")
  let content ← event.member? (lit "content")
  return .array [.integer 0, pubkey, createdAt, kind, tags, content]

def authTags (relayUrl challenge : Str) : Json := .array
  [.array [.string (lit "relay"), .string relayUrl],
    .array [.string (lit "challenge"), .string challenge]]

/-- An event that answers a challenge, with a valid id and signature. -/
structure IsAuthEvent (pf : Platform) (verify : Bytes 32 → Bytes 32 → Bytes 64 → Prop)
    (relayUrl challenge hexPubkey : Str) (event : Json) : Prop where
  kind : event.member? (lit "kind") = some (.integer 22242)
  content : event.member? (lit "content") = some (.string [])
  tags : event.member? (lit "tags") = some (authTags relayUrl challenge)
  pubkey : event.member? (lit "pubkey") = some (.string hexPubkey)
  id : ∃ array serialised, nip01Array event = some array ∧ pf.dumpJson array = some serialised ∧
    event.member? (lit "id") = some (.string (bytesToHex (pf.sha256 serialised).1))
  sig : ∃ (id pubkey : Bytes 32) (sig : Bytes 64),
    event.member? (lit "id") = some (.string (bytesToHex id.1)) ∧
      event.member? (lit "pubkey") = some (.string (bytesToHex pubkey.1)) ∧
      event.member? (lit "sig") = some (.string (bytesToHex sig.1)) ∧ verify id pubkey sig

theorem hexDigit_lt {v : UInt8} (h : v.toNat < 16) : (Nip19.hexDigit v).toNat < 128 := by
  have hall : ((List.range 16).all fun n => (Nip19.hexDigit (UInt8.ofNat n)).toNat < 128) = true := rfl
  have hdigit := List.all_eq_true.mp hall v.toNat (List.mem_range.mpr h)
  rw [UInt8.ofNat_toNat] at hdigit
  exact of_decide_eq_true hdigit

theorem isUtf8_bytesToHex (bytes : List UInt8) : IsUtf8 (bytesToHex bytes) := by
  refine isUtf8_of_ascii fun c hc => ?_
  obtain ⟨b, -, hmem⟩ := List.mem_flatMap.mp hc
  have hhigh : (b >>> (4 : UInt8)).toNat < 16 := by
    rw [UInt8.toNat_shiftRight, Nat.shiftRight_eq_div_pow]
    have hbyte := b.toNat_lt
    exact Nat.div_lt_of_lt_mul hbyte
  have hlow : (b &&& 15).toNat < 16 := by
    rw [UInt8.toNat_and]
    exact Nat.lt_succ_of_le Nat.and_le_right
  simp only [List.mem_cons, List.not_mem_nil, or_false] at hmem
  rcases hmem with rfl | rfl
  · exact hexDigit_lt hhigh
  · exact hexDigit_lt hlow

/-- The event that `BuildAuthEvent` assembles. -/
def authEvent (m : Moment) (relayUrl challenge : Str) (pubkey id : Bytes 32) (sig : Bytes 64) : Json :=
  .object
    [(lit "content", .string []), (lit "created_at", .integer m.unixSeconds),
      (lit "id", .string (bytesToHex id.1)), (lit "kind", .integer 22242),
      (lit "pubkey", .string (bytesToHex pubkey.1)), (lit "sig", .string (bytesToHex sig.1)),
      (lit "tags", authTags relayUrl challenge)]

section Event
variable {pf : Platform} {verify : Bytes 32 → Bytes 32 → Bytes 64 → Prop} {m : Moment}
  {relayUrl challenge : Str}

/-- What `BuildAuthEvent` gives when it does not fail: the event for the hash of the serialisation, unless that
cannot be dumped. -/
theorem buildAuthEvent_cases {privkeyBytes : Bytes 32}
    (h : buildAuthEvent pf m relayUrl challenge privkeyBytes ≠ some []) :
    ∃ pubkeyBytes, pf.xonlyPubkey privkeyBytes = some pubkeyBytes ∧
      (serialiseForId pf (bytesToHex pubkeyBytes.1) m.unixSeconds 22242
          (authTags relayUrl challenge) [] = none ∨
        ∃ serialised auxRand sig,
          serialiseForId pf (bytesToHex pubkeyBytes.1) m.unixSeconds 22242
            (authTags relayUrl challenge) [] = some serialised ∧
          pf.schnorrSign (pf.sha256 serialised) privkeyBytes auxRand = some sig ∧
          buildAuthEvent pf m relayUrl challenge privkeyBytes =
            pf.dumpJson (authEvent m relayUrl challenge pubkeyBytes (pf.sha256 serialised) sig)) := by
  rw [buildAuthEvent] at h ⊢
  cases hcontext : m.contextOk with
  | false =>
    rw [hcontext] at h
    exact absurd rfl h
  | true =>
    rw [hcontext, if_neg (by decide)] at h
    cases hpubkey : pf.xonlyPubkey privkeyBytes with
    | none =>
      rw [hpubkey] at h
      exact absurd rfl h
    | some pubkeyBytes =>
      refine ⟨pubkeyBytes, rfl, ?_⟩
      rw [hpubkey] at h
      rw [if_neg (by decide), authTags]
      dsimp only at h ⊢
      cases hserialise : serialiseForId pf (bytesToHex pubkeyBytes.1) m.unixSeconds 22242
          (.array [.array [.string (lit "relay"), .string relayUrl],
            .array [.string (lit "challenge"), .string challenge]]) [] with
      | none => exact .inl rfl
      | some serialised =>
        rw [hserialise] at h
        dsimp only at h
        cases haux : m.auxRand with
        | none =>
          rw [haux] at h
          exact absurd rfl h
        | some auxRand =>
          rw [haux] at h
          dsimp only at h
          cases hsig : pf.schnorrSign (pf.sha256 serialised) privkeyBytes auxRand with
          | none =>
            rw [hsig] at h
            exact absurd rfl h
          | some sig =>
            refine .inr ⟨serialised, auxRand, sig, rfl, hsig, ?_⟩
            dsimp only
            rw [hsig]
            rfl

theorem plain_pair {key value : Str} (hkey : IsUtf8 key) (hvalue : IsUtf8 value) :
    (Json.array [.string key, .string value]).Plain := by
  refine .array ?_
  simp only [List.forall_mem_cons, List.not_mem_nil, false_imp_iff, implies_true, and_true]
  exact ⟨.string hkey, .string hvalue⟩

variable (hclock : -2 ^ 63 ≤ m.unixSeconds ∧ m.unixSeconds < 2 ^ 63) (hurl : IsUtf8 relayUrl)
  (hchallenge : IsUtf8 challenge)
include hurl hchallenge

theorem plain_authTags : (authTags relayUrl challenge).Plain := by
  refine .array ?_
  simp only [List.forall_mem_cons, List.not_mem_nil, false_imp_iff, implies_true, and_true]
  exact ⟨plain_pair (isUtf8_of_all rfl) hurl, plain_pair (isUtf8_of_all rfl) hchallenge⟩

include hclock

theorem plain_serialised (pubkeyHex : List UInt8) : (Json.array
    [.integer 0, .string (bytesToHex pubkeyHex), .integer m.unixSeconds, .integer 22242,
      authTags relayUrl challenge, .string []]).Plain := by
  refine .array ?_
  simp only [List.forall_mem_cons, List.not_mem_nil, false_imp_iff, implies_true, and_true]
  exact ⟨.integer (by decide) (by decide), .string (isUtf8_bytesToHex _),
    .integer hclock.1 (by omega), .integer (by decide) (by decide), plain_authTags hurl hchallenge,
    .string isUtf8_nil⟩

theorem plain_authEvent (pubkey id : Bytes 32) (sig : Bytes 64) :
    (authEvent m relayUrl challenge pubkey id sig).Plain := by
  have hsorted : [lit "content", lit "created_at", lit "id", lit "kind", lit "pubkey", lit "sig",
      lit "tags"].Pairwise (· < ·) := by
    decide
  refine .object hsorted ?_ ?_
  · simp only [List.forall_mem_cons, List.not_mem_nil, false_imp_iff, implies_true, and_true]
    exact ⟨isUtf8_of_all rfl, isUtf8_of_all rfl, isUtf8_of_all rfl, isUtf8_of_all rfl,
      isUtf8_of_all rfl, isUtf8_of_all rfl, isUtf8_of_all rfl⟩
  · simp only [List.forall_mem_cons, List.not_mem_nil, false_imp_iff, implies_true, and_true]
    exact ⟨.string isUtf8_nil, .integer hclock.1 (by omega), .string (isUtf8_bytesToHex _),
      .integer (by decide) (by decide), .string (isUtf8_bytesToHex _),
      .string (isUtf8_bytesToHex _), plain_authTags hurl hchallenge⟩

/-- The event that `BuildAuthEvent` dumps can be read back and is valid. -/
theorem buildAuthEvent_spec (hjson : ParseInvertsDump pf) (hsign : SignaturesVerify pf verify)
    {privkeyBytes : Bytes 32}
    (hsuccess : buildAuthEvent pf m relayUrl challenge privkeyBytes ≠ some []) :
    ∃ text event, buildAuthEvent pf m relayUrl challenge privkeyBytes = some text ∧
      pf.parseJson text = some event ∧ event.Plain ∧
      IsAuthEvent pf verify relayUrl challenge (deriveHexPubkeyFromPrivkey pf privkeyBytes) event := by
  obtain ⟨pubkeyBytes, hpubkey, hcases⟩ := buildAuthEvent_cases hsuccess
  obtain ⟨dumped, hdumped, -⟩ := hjson _ (plain_serialised hclock hurl hchallenge pubkeyBytes.1)
  have hserialise : serialiseForId pf (bytesToHex pubkeyBytes.1) m.unixSeconds 22242
      (authTags relayUrl challenge) [] = some dumped := hdumped
  rcases hcases with hnone | ⟨serialised, auxRand, sig, hsome, hsig, hbuild⟩
  · rw [hnone] at hserialise
    cases hserialise
  have hplain := plain_authEvent hclock hurl hchallenge pubkeyBytes (pf.sha256 serialised) sig
  obtain ⟨text, htext, hparse⟩ := hjson _ hplain
  refine ⟨text, _, hbuild.trans htext, hparse, hplain, ?_⟩
  rw [deriveHexPubkeyFromPrivkey, hpubkey]
  exact
    { kind := rfl
      content := rfl
      tags := rfl
      pubkey := rfl
      id := ⟨_, serialised, rfl, hsome, rfl⟩
      sig := ⟨pf.sha256 serialised, pubkeyBytes, sig, rfl, rfl, rfl,
        hsign _ _ _ _ _ hpubkey hsig⟩ }

end Event

theorem hexPubkey_of_fromHexPrivkey {pf : Platform} {hexPrivkey : Str} {key : AuthKey}
    (h : AuthKey.fromHexPrivkey pf hexPrivkey = some key) :
    key.hexPubkey = deriveHexPubkeyFromPrivkey pf key.privkeyBytes := by
  rw [AuthKey.fromHexPrivkey] at h
  split at h
  · cases h
  · split at h
    · obtain rfl := Option.some.inj h
      rfl
    · cases h

end Monitostr.Nostr

namespace Monitostr.Net
open Foundations Nostr
set_option autoImplicit false

namespace RelaySession

/-- **The answer to a challenge**: when signing succeeds, the session writes one message, which parses to `AUTH`
and an event that answers the challenge with the session's key. -/
theorem onAuthChallenge_answers {pf : Platform} {verify : Bytes 32 → Bytes 32 → Bytes 64 → Prop}
    (hjson : ParseInvertsDump pf) (hsign : SignaturesVerify pf verify) {m : Moment}
    (hclock : -2 ^ 63 ≤ m.unixSeconds ∧ m.unixSeconds < 2 ^ 63) {s : RelaySession} {challenge : Str}
    (hurl : IsUtf8 s.relayUrl) (hchallenge : IsUtf8 challenge) {hexPrivkey : Str} {authKey : AuthKey}
    (hkey : AuthKey.fromHexPrivkey pf hexPrivkey = some authKey) (hs : s.authKey = some authKey)
    (hsuccess : buildAuthEvent pf m s.relayUrl challenge authKey.privkeyBytes ≠ some []) :
    ∃ message event,
      s.onAuthChallenge pf m challenge =
        [s.info (lit "NIP-42 AUTH challenge received — signing"), .start (.writeAuth message)] ∧
      pf.parseJson message = some (.array [.string (lit "AUTH"), event]) ∧
      IsAuthEvent pf verify s.relayUrl challenge authKey.hexPubkey event := by
  obtain ⟨text, event, htext, hparse, hplain, hevent⟩ :=
    buildAuthEvent_spec hclock hurl hchallenge hjson hsign hsuccess
  have hmessage : (Json.array [.string (lit "AUTH"), event]).Plain := by
    refine .array ?_
    simp only [List.forall_mem_cons, List.not_mem_nil, false_imp_iff, implies_true, and_true]
    exact ⟨.string (isUtf8_of_all rfl), hplain⟩
  obtain ⟨message, hdump, hread⟩ := hjson _ hmessage
  have hnonempty : text.isEmpty = false := by
    cases text with
    | nil => exact absurd htext hsuccess
    | cons c rest => rfl
  refine ⟨message, event, ?_, hread, hexPubkey_of_fromHexPrivkey hkey ▸ hevent⟩
  rw [onAuthChallenge, hs]
  dsimp only
  rw [htext]
  dsimp only
  rw [if_neg (by rw [hnonempty]; decide), hparse]
  dsimp only
  rw [hdump]

/-! ## One answer -/

/-- Verification, as far as the signature of the one answer is concerned. -/
def verifiesSample (id pubkey : Bytes 32) (sig : Bytes 64) : Prop :=
  id = sampleEventId ∧ samplePubkeys.lookup (samplePrivkey 1) = some pubkey ∧ sig = sampleSignature

theorem textPlatform_laws :
    ParseInvertsDump textPlatform ∧ SignaturesVerify textPlatform verifiesSample := by
  refine ⟨fun value hplain => ⟨_, rfl, readText_text hplain⟩, fun key pubkey id aux sig hpubkey hsig => ?_⟩
  change (if id = sampleEventId ∧ key = samplePrivkey 1 then some sampleSignature else none) = some sig
    at hsig
  split at hsig
  · next hsample =>
    obtain ⟨rfl, rfl⟩ := hsample
    exact ⟨rfl, hpubkey, (Option.some.inj hsig).symm⟩
  · cases hsig

theorem onAuthChallenge_answers_x : ∃ authKey message event,
    AuthKey.fromHexPrivkey textPlatform (bytesToHex (samplePrivkey 1).1) = some authKey ∧
    Effect.start (.writeAuth message) ∈
      ({ create sampleRelay samplePubkeyHex with authKey := some authKey }).onAuthChallenge
        textPlatform {} (lit "x") ∧
    textPlatform.parseJson message = some (.array [.string (lit "AUTH"), event]) ∧
    IsAuthEvent textPlatform verifiesSample sampleRelay (lit "x") authKey.hexPubkey event := by
  have hbytes : (AuthKey.fromHexPrivkey textPlatform (bytesToHex (samplePrivkey 1).1)).map
      AuthKey.privkeyBytes = some (samplePrivkey 1) := by
    decide +kernel
  obtain ⟨authKey, hkey, hprivkey⟩ := Option.map_eq_some_iff.mp hbytes
  have hsuccess : buildAuthEvent textPlatform {} sampleRelay (lit "x") authKey.privkeyBytes ≠
      some [] := by
    rw [hprivkey]
    decide +kernel
  obtain ⟨hjson, hsign⟩ := textPlatform_laws
  have hurl : IsUtf8 sampleRelay := isUtf8_of_all rfl
  have hchallenge : IsUtf8 (lit "x") := isUtf8_of_all rfl
  obtain ⟨message, event, heffects, hread, hevent⟩ :=
    @onAuthChallenge_answers textPlatform verifiesSample hjson hsign {} (by decide)
      { create sampleRelay samplePubkeyHex with authKey := some authKey } (lit "x") hurl hchallenge
      (bytesToHex (samplePrivkey 1).1) authKey hkey rfl hsuccess
  exact ⟨authKey, message, event, hkey, by rw [heffects]; simp, hread, hevent⟩

end RelaySession
end Monitostr.Net
