import Monitostr.Utils.Platform
import Mathlib.Data.List.AList
import Mathlib.Data.List.Destutter
import Mathlib.Data.List.Sort

/-! # The store of relay statistics, `model/relay_stats.hpp` and `model_relay_stats.cpp`

The store maps relay URLs to records, and each record carries the URL it is stored under. Every
update creates a missing record, so the URLs of a snapshot are those written since the last reset.
-/

namespace Monitostr.Model
set_option autoImplicit false

inductive RelayStatus
  | disconnected
  | resolving
  | connecting
  | tlsHandshake
  | wsHandshake
  | subscribed
  | error
  deriving DecidableEq, Repr

/-- `ToString`. -/
def RelayStatus.toText : RelayStatus → Str
  | .disconnected => lit "Disconnected"
  | .resolving => lit "Resolving"
  | .connecting => lit "Connecting"
  | .tlsHandshake => lit "TLS"
  | .wsHandshake => lit "WebSocket"
  | .subscribed => lit "Subscribed"
  | .error => lit "Error"

/-- `RelayStat`. The store only keeps latencies, which are of any type `δ`; the sessions record whole
numbers of milliseconds. -/
structure RelayStat (δ : Type := ℤ) where
  relayUrl : Str := []
  status : RelayStatus := .disconnected
  latencyMs : Option δ := none
  eventsCount : UInt64 := 0
  supportedNips : List Int32 := []
  latencyHistoryMs : List δ := []
  lastError : Str := []
  connectedAt : Option ℕ := none
  deriving DecidableEq

/-- `RelayStats`: the member `by_relay_`. -/
structure RelayStats (δ : Type := ℤ) where
  byRelay : AList fun _ : Str => RelayStat δ
  named : ∀ url stat, byRelay.lookup url = some stat → stat.relayUrl = url

namespace RelayStats
variable {δ : Type}

def empty : RelayStats δ where
  byRelay := ∅
  named := by simp

def kLatencyHistoryWindow : ℕ := 60

theorem named_insert (stats : RelayStats δ) {relayUrl : Str} {stat : RelayStat δ}
    (h : stat.relayUrl = relayUrl) (url : Str) (found : RelayStat δ)
    (hfound : (stats.byRelay.insert relayUrl stat).lookup url = some found) :
    found.relayUrl = url := by
  by_cases heq : url = relayUrl
  · subst heq
    rw [AList.lookup_insert, Option.some.injEq] at hfound
    rw [← hfound, h]
  · rw [AList.lookup_insert_ne heq] at hfound
    exact stats.named url found hfound

/-- The record `by_relay_[relay_url]`, with its URL stored in it, after a change. -/
def update (stats : RelayStats δ) (relayUrl : Str) (change : RelayStat δ → RelayStat δ) :
    RelayStats δ where
  byRelay := stats.byRelay.insert relayUrl
    { change ((stats.byRelay.lookup relayUrl).getD {}) with relayUrl := relayUrl }
  named := stats.named_insert rfl

def reset (_ : RelayStats δ) : RelayStats δ := empty

def ensureRelay (stats : RelayStats δ) (relayUrl : Str) : RelayStats δ :=
  match stats.byRelay.lookup relayUrl with
  | none =>
    { byRelay := stats.byRelay.insert relayUrl { relayUrl := relayUrl }
      named := stats.named_insert rfl }
  | some _ => stats

def setStatus (stats : RelayStats δ) (m : Moment) (relayUrl : Str) (status : RelayStatus)
    (error : Str) : RelayStats δ :=
  stats.update relayUrl fun stat => { stat with
    status := status
    lastError := error
    connectedAt := if status = .subscribed then some m.steady else none }

def recordLatency (stats : RelayStats δ) (relayUrl : Str) (latencyMs : δ) : RelayStats δ :=
  stats.update relayUrl fun stat =>
    let history := stat.latencyHistoryMs ++ [latencyMs]
    { stat with
      latencyMs := some latencyMs
      latencyHistoryMs := history.drop (history.length - kLatencyHistoryWindow) }

def incrementEvent (stats : RelayStats δ) (relayUrl : Str) : RelayStats δ :=
  stats.update relayUrl fun stat => { stat with eventsCount := stat.eventsCount + 1 }

/-- `std::sort`, then `erase` of what `std::unique` leaves behind. -/
def sortUnique (nips : List Int32) : List Int32 :=
  (nips.mergeSort fun a b => decide (a ≤ b)).destutter (· ≠ ·)

def setSupportedNips (stats : RelayStats δ) (relayUrl : Str) (supportedNips : List Int32) :
    RelayStats δ :=
  stats.update relayUrl fun stat => { stat with supportedNips := sortUnique supportedNips }

def snapshot (stats : RelayStats δ) : List (RelayStat δ) :=
  (stats.byRelay.entries.map Sigma.snd).mergeSort fun lhs rhs => decide (lhs.relayUrl ≤ rhs.relayUrl)

end RelayStats

structure AggregateStats where
  connectedRelays : ℕ := 0
  erroredRelays : ℕ := 0
  totalEvents : UInt64 := 0
  deriving DecidableEq

/-- The body of the loop of `Aggregate`. -/
def AggregateStats.add {δ : Type} (aggregate : AggregateStats) (stat : RelayStat δ) :
    AggregateStats where
  connectedRelays :=
    if stat.status = .subscribed then aggregate.connectedRelays + 1 else aggregate.connectedRelays
  erroredRelays :=
    if stat.status = .error then aggregate.erroredRelays + 1 else aggregate.erroredRelays
  totalEvents := aggregate.totalEvents + stat.eventsCount

def RelayStats.aggregate {δ : Type} (stats : RelayStats δ) : AggregateStats :=
  (stats.byRelay.entries.map Sigma.snd).foldl AggregateStats.add {}

/-! ## Calls as data -/

/-- A call of one of the methods that change the store. -/
inductive StatsOp (δ : Type := ℤ)
  | reset
  | ensureRelay (relayUrl : Str)
  | setStatus (relayUrl : Str) (status : RelayStatus) (error : Str)
  | recordLatency (relayUrl : Str) (latencyMs : δ)
  | incrementEvent (relayUrl : Str)
  | setSupportedNips (relayUrl : Str) (supportedNips : List Int32)
  deriving DecidableEq

def StatsOp.relayUrl? {δ : Type} : StatsOp δ → Option Str
  | .reset => none
  | .ensureRelay relayUrl => some relayUrl
  | .setStatus relayUrl _ _ => some relayUrl
  | .recordLatency relayUrl _ => some relayUrl
  | .incrementEvent relayUrl => some relayUrl
  | .setSupportedNips relayUrl _ => some relayUrl

namespace RelayStats
variable {δ : Type}

def apply (stats : RelayStats δ) (m : Moment) : StatsOp δ → RelayStats δ
  | .reset => stats.reset
  | .ensureRelay relayUrl => stats.ensureRelay relayUrl
  | .setStatus relayUrl status error => stats.setStatus m relayUrl status error
  | .recordLatency relayUrl latencyMs => stats.recordLatency relayUrl latencyMs
  | .incrementEvent relayUrl => stats.incrementEvent relayUrl
  | .setSupportedNips relayUrl supportedNips => stats.setSupportedNips relayUrl supportedNips

/-! ## The URLs in the store -/

def Has (stats : RelayStats δ) (url : Str) : Prop := url ∈ stats.byRelay

theorem has_update (stats : RelayStats δ) (relayUrl url : Str) (change : RelayStat δ → RelayStat δ) :
    (stats.update relayUrl change).Has url ↔ url = relayUrl ∨ stats.Has url :=
  AList.mem_insert _

theorem has_ensureRelay (stats : RelayStats δ) (relayUrl url : Str) :
    (stats.ensureRelay relayUrl).Has url ↔ url = relayUrl ∨ stats.Has url := by
  rw [ensureRelay]
  cases h : stats.byRelay.lookup relayUrl with
  | none => exact AList.mem_insert _
  | some stat =>
    have hmem : stats.Has relayUrl := AList.lookup_isSome.mp (by rw [h]; rfl)
    refine ⟨Or.inr, ?_⟩
    rintro (rfl | hu)
    · exact hmem
    · exact hu

theorem has_apply {op : StatsOp δ} {relayUrl : Str} (h : op.relayUrl? = some relayUrl)
    (stats : RelayStats δ) (m : Moment) (url : Str) :
    (stats.apply m op).Has url ↔ url = relayUrl ∨ stats.Has url := by
  cases op with
  | reset => cases h
  | ensureRelay u =>
    obtain rfl := Option.some.inj h
    exact has_ensureRelay _ _ _
  | setStatus u status error =>
    obtain rfl := Option.some.inj h
    exact has_update _ _ _ _
  | recordLatency u latencyMs =>
    obtain rfl := Option.some.inj h
    exact has_update _ _ _ _
  | incrementEvent u =>
    obtain rfl := Option.some.inj h
    exact has_update _ _ _ _
  | setSupportedNips u nips =>
    obtain rfl := Option.some.inj h
    exact has_update _ _ _ _

theorem not_has_reset (stats : RelayStats δ) (url : Str) : ¬ stats.reset.Has url :=
  AList.notMem_empty url

theorem mem_snapshot_urls (stats : RelayStats δ) (url : Str) :
    url ∈ stats.snapshot.map RelayStat.relayUrl ↔ stats.Has url := by
  rw [snapshot, List.mem_map]
  simp only [List.mem_mergeSort, List.mem_map]
  constructor
  · rintro ⟨stat, ⟨entry, hentry, rfl⟩, rfl⟩
    have hlookup := AList.mem_lookup_iff.mpr hentry
    rw [stats.named entry.1 entry.2 hlookup]
    exact AList.lookup_isSome.mp (by rw [Option.mem_def.mp hlookup]; rfl)
  · intro h
    obtain ⟨stat, hstat⟩ := Option.isSome_iff_exists.mp (AList.lookup_isSome.mpr h)
    exact ⟨stat, ⟨⟨url, stat⟩, AList.mem_lookup_iff.mp hstat, rfl⟩, stats.named url stat hstat⟩

end RelayStats
end Monitostr.Model
