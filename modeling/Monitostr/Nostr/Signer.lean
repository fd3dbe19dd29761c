import Monitostr.Nip19.Bech32
import Monitostr.Utils.Platform

/-! # Keys and signed events: `nostr/signer.cpp` and `nostr/auth_key.cpp` -/

namespace Monitostr.Nostr
open Nip19 (nibble)
set_option autoImplicit false

/-! ## Signer -/

def bytesToHex (data : List UInt8) : Str := Nip19.bytesToHex data

/-- The loop of `HexToBytes32` over the last `n` bytes. -/
def hexToBytesFrom (hex : Str) (index : ℕ) : (n : ℕ) → Option (Bytes n)
  | 0 => some ⟨[], rfl⟩
  | n + 1 =>
    let hi := nibble (hex.getD (index * 2) 0)
    let lo := nibble (hex.getD (index * 2 + 1) 0)
    if hi < 0 ∨ lo < 0 then none
    else
      (hexToBytesFrom hex (index + 1) n).map fun rest =>
        ⟨UInt8.ofNat ((hi.toNat <<< 4) ||| lo.toNat) :: rest.1, by rw [List.length_cons, rest.2]⟩

/-- `HexToBytes32`, which `signer.cpp` and `auth_key.cpp` each define. -/
def hexToBytes32 (hex : Str) : Option (Bytes 32) :=
  if hex.length ≠ 64 then none else hexToBytesFrom hex 0 32

/-- `SerialiseForId`; `none` when `dump` throws. -/
def serialiseForId (pf : Platform) (pubkeyHex : Str) (createdAt kind : ℤ) (tags : Json)
    (content : Str) : Option Str :=
  pf.dumpJson (.array
    [.integer 0, .string pubkeyHex, .integer createdAt, .integer kind, tags, .string content])

/-- `DeriveHexPubkeyFromPrivkey`: empty when there is no such key. -/
def deriveHexPubkeyFromPrivkey (pf : Platform) (privkeyBytes : Bytes 32) : Str :=
  match pf.xonlyPubkey privkeyBytes with
  | none => []
  | some pubkeyBytes => bytesToHex pubkeyBytes.1

/-- `BuildAuthEvent`: empty when signing fails, `none` when `dump` throws. -/
def buildAuthEvent (pf : Platform) (m : Moment) (relayUrl challenge : Str)
    (privkeyBytes : Bytes 32) : Option Str :=
  if !m.contextOk then some []
  else
    match pf.xonlyPubkey privkeyBytes with
    | none => some []
    | some pubkeyBytes =>
      let pubkeyHex := bytesToHex pubkeyBytes.1
      let createdAt := m.unixSeconds
      let kKind := 22242
      let tags := Json.array
        [.array [.string (lit "relay"), .string relayUrl],
          .array [.string (lit "challenge"), .string challenge]]
      match serialiseForId pf pubkeyHex createdAt kKind tags [] with
      | none => none
      | some serialised =>
        let eventId := pf.sha256 serialised
        match m.auxRand with
        | none => some []
        | some auxRand =>
          match pf.schnorrSign eventId privkeyBytes auxRand with
          | none => some []
          | some sig =>
            pf.dumpJson (.object
              [(lit "content", .string []), (lit "created_at", .integer createdAt),
                (lit "id", .string (bytesToHex eventId.1)), (lit "kind", .integer kKind),
                (lit "pubkey", .string pubkeyHex), (lit "sig", .string (bytesToHex sig.1)),
                (lit "tags", tags)])

/-! ## `AuthKey` -/

/-- `AuthKey`. Its constructor is private: a key comes from `FromHexPrivkey`, with the hex of 32
public key bytes. -/
structure AuthKey where
  privkeyBytes : Bytes 32
  hexPubkey : Str
  isHex : ∃ pubkeyBytes : Bytes 32, hexPubkey = Nip19.bytesToHex pubkeyBytes.1
  deriving DecidableEq

theorem deriveHexPubkey_isHex {pf : Platform} {privkeyBytes : Bytes 32}
    (h : (deriveHexPubkeyFromPrivkey pf privkeyBytes).isEmpty = false) :
    ∃ pubkeyBytes : Bytes 32,
      deriveHexPubkeyFromPrivkey pf privkeyBytes = Nip19.bytesToHex pubkeyBytes.1 := by
  rw [deriveHexPubkeyFromPrivkey] at h ⊢
  cases hkey : pf.xonlyPubkey privkeyBytes with
  | none =>
    rw [hkey] at h
    cases h
  | some pubkeyBytes => exact ⟨pubkeyBytes, rfl⟩

def AuthKey.fromHexPrivkey (pf : Platform) (hexPrivkey : Str) : Option AuthKey :=
  match hexToBytes32 hexPrivkey with
  | none => none
  | some privkeyBytes =>
    if h : (deriveHexPubkeyFromPrivkey pf privkeyBytes).isEmpty = false then
      some { privkeyBytes := privkeyBytes
             hexPubkey := deriveHexPubkeyFromPrivkey pf privkeyBytes
             isHex := deriveHexPubkey_isHex h }
    else none

end Monitostr.Nostr
