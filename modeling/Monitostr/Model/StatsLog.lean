import Monitostr.Foundations.KeyedStore
import Monitostr.Model.RelayStats
import Mathlib.Data.UInt

/-! # The store of relay statistics and its log of calls

A snapshot of the store is determined by the calls since the last reset, for each relay by its own. What
each field of a record says of these calls.
-/

namespace Monitostr.Model
open Foundations
set_option autoImplicit false
variable {δ : Type}

/-- A call with what its clock shows. -/
abbrev StatsCall (δ : Type) := Moment × StatsOp δ

def StatsCall.relayUrl? (call : StatsCall δ) : Option Str := call.2.relayUrl?

namespace RelayStats

/-- The store after the calls of a log. -/
def replay (log : List (StatsCall δ)) : RelayStats δ :=
  log.foldl (fun stats call => stats.apply call.1 call.2) empty

def lookup (stats : RelayStats δ) (url : Str) : Option (RelayStat δ) := stats.byRelay.lookup url

end RelayStats

/-! ## One record -/

/-- What a call makes of the record of its relay. -/
def RelayStat.apply (stat : RelayStat δ) (call : StatsCall δ) : RelayStat δ :=
  match call.2 with
  | .reset => stat
  | .ensureRelay _ => stat
  | .setStatus _ status error => { stat with
      status := status
      lastError := error
      connectedAt := if status = .subscribed then some call.1.steady else none }
  | .recordLatency _ latencyMs => { stat with
      latencyMs := some latencyMs
      latencyHistoryMs := (stat.latencyHistoryMs ++ [latencyMs]).rtake RelayStats.kLatencyHistoryWindow }
  | .incrementEvent _ => { stat with eventsCount := stat.eventsCount + 1 }
  | .setSupportedNips _ nips => { stat with supportedNips := RelayStats.sortUnique nips }

/-- The calls as operations on records that the URLs of the relays lead to. -/
def relayOps (δ : Type) : KeyedOps Str (RelayStat δ) (StatsCall δ) where
  key := StatsCall.relayUrl?
  record call stat := (stat.getD { relayUrl := call.relayUrl?.getD [] }).apply call

theorem RelayStat.apply_relayUrl (stat : RelayStat δ) (call : StatsCall δ) (url : Str) :
    { stat.apply call with relayUrl := url } = ({ stat with relayUrl := url } : RelayStat δ).apply call := by
  obtain ⟨m, op⟩ := call
  cases op <;> rfl

/-- What the calls make of a new record for their relay. -/
def recordOf (url : Str) (calls : List (StatsCall δ)) : RelayStat δ :=
  calls.foldl RelayStat.apply { relayUrl := url }

theorem recordOf_concat (url : Str) (calls : List (StatsCall δ)) (call : StatsCall δ) :
    recordOf url (calls ++ [call]) = (recordOf url calls).apply call := by
  rw [recordOf, List.foldl_append]
  rfl

namespace RelayStats

theorem lookup_update (stats : RelayStats δ) (relayUrl : Str) (change : RelayStat δ → RelayStat δ) :
    (stats.update relayUrl change).lookup = Function.update stats.lookup relayUrl
      (some { change ((stats.lookup relayUrl).getD {}) with relayUrl := relayUrl }) := by
  funext url
  by_cases h : url = relayUrl
  · subst h
    rw [Function.update_self]
    exact AList.lookup_insert _
  · rw [Function.update_of_ne h]
    exact AList.lookup_insert_ne h

theorem lookup_ensureRelay (stats : RelayStats δ) (relayUrl : Str) :
    (stats.ensureRelay relayUrl).lookup = Function.update stats.lookup relayUrl
      (some ((stats.lookup relayUrl).getD { relayUrl := relayUrl })) := by
  rw [ensureRelay]
  cases h : stats.byRelay.lookup relayUrl with
  | none =>
    have hnone : stats.lookup relayUrl = none := h
    rw [hnone]
    funext url
    by_cases hurl : url = relayUrl
    · subst hurl
      rw [Function.update_self]
      exact AList.lookup_insert _
    · rw [Function.update_of_ne hurl]
      exact AList.lookup_insert_ne hurl
  | some stat =>
    have hsome : stats.lookup relayUrl = some stat := h
    rw [hsome, Option.getD_some]
    exact (Function.update_eq_self_iff.mpr hsome.symm).symm

/-- A call for a relay changes the record of that relay. -/
theorem after_of_relayUrl {call : StatsCall δ} {relayUrl : Str} (hurl : call.relayUrl? = some relayUrl)
    (records : Str → Option (RelayStat δ)) :
    (relayOps δ).after records call = Function.update records relayUrl
      (some (((records relayUrl).getD { relayUrl := relayUrl }).apply call)) := by
  rw [KeyedOps.after, relayOps]
  dsimp only
  rw [hurl, Option.getD_some]

/-- Changing the record that is stored for a relay is applying the call to it. -/
theorem lookup_update_eq_after (stats : RelayStats δ) {call : StatsCall δ} {relayUrl : Str}
    {change : RelayStat δ → RelayStat δ} (hurl : call.relayUrl? = some relayUrl)
    (hchange : ∀ stat : RelayStat δ, change stat = stat.apply call) :
    (stats.update relayUrl change).lookup = (relayOps δ).after stats.lookup call := by
  have hrecord : ({ (stats.lookup relayUrl).getD {} with relayUrl := relayUrl } : RelayStat δ) =
      (stats.lookup relayUrl).getD { relayUrl := relayUrl } := by
    cases hlookup : stats.lookup relayUrl with
    | none => rfl
    | some stat => rw [Option.getD_some, Option.getD_some, ← stats.named relayUrl stat hlookup]
  rw [lookup_update, after_of_relayUrl hurl, hchange, RelayStat.apply_relayUrl, hrecord]

/-- The store acts on its records as the operations do. -/
theorem lookup_apply (stats : RelayStats δ) (call : StatsCall δ) :
    (stats.apply call.1 call.2).lookup = (relayOps δ).after stats.lookup call := by
  obtain ⟨m, op⟩ := call
  cases op with
  | reset => rfl
  | ensureRelay relayUrl => exact lookup_ensureRelay stats relayUrl
  | setStatus relayUrl status error => exact stats.lookup_update_eq_after rfl fun stat => rfl
  | recordLatency relayUrl latencyMs => exact stats.lookup_update_eq_after rfl fun stat => rfl
  | incrementEvent relayUrl => exact stats.lookup_update_eq_after rfl fun stat => rfl
  | setSupportedNips relayUrl nips => exact stats.lookup_update_eq_after rfl fun stat => rfl

theorem lookup_apply_of_relayUrl (stats : RelayStats δ) (m : Moment) {op : StatsOp δ} {relayUrl : Str}
    (hurl : op.relayUrl? = some relayUrl) :
    (stats.apply m op).lookup = Function.update stats.lookup relayUrl
      (some (((stats.lookup relayUrl).getD { relayUrl := relayUrl }).apply (m, op))) := by
  have hcall : StatsCall.relayUrl? (m, op) = some relayUrl := hurl
  rw [stats.lookup_apply (m, op), after_of_relayUrl hcall]

theorem lookup_replay (log : List (StatsCall δ)) : (replay log).lookup = (relayOps δ).replay log :=
  (relayOps δ).replay_of_step lookup_apply rfl log

/-- The calls for one relay since the last reset. -/
def ownCalls (url : Str) (log : List (StatsCall δ)) : List (StatsCall δ) := (relayOps δ).own url log

theorem relayUrl_of_mem_ownCalls {url : Str} {log : List (StatsCall δ)} {call : StatsCall δ}
    (h : call ∈ ownCalls url log) : call.relayUrl? = some url :=
  of_decide_eq_true (List.mem_filter.mp h).2

theorem foldl_record {url : Str} {calls : List (StatsCall δ)}
    (h : ∀ call ∈ calls, call.relayUrl? = some url) (hne : calls ≠ []) (stat : Option (RelayStat δ)) :
    calls.foldl (fun stat call => some ((relayOps δ).record call stat)) stat =
      some (calls.foldl RelayStat.apply (stat.getD { relayUrl := url })) := by
  have hsome : ∀ (calls : List (StatsCall δ)) (stat : RelayStat δ),
      calls.foldl (fun stat call => some ((relayOps δ).record call stat)) (some stat) =
        some (calls.foldl RelayStat.apply stat) := by
    intro calls
    induction calls with
    | nil => exact fun stat => rfl
    | cons call calls ih => exact fun stat => ih (stat.apply call)
  cases calls with
  | nil => exact absurd rfl hne
  | cons call calls =>
    have hcall : (relayOps δ).record call stat = (stat.getD { relayUrl := url }).apply call := by
      change (stat.getD { relayUrl := call.relayUrl?.getD [] }).apply call = _
      rw [h call List.mem_cons_self]
      rfl
    rw [List.foldl_cons, hcall, List.foldl_cons]
    exact hsome calls _

/-- The record of a relay is made by the calls for it, on a new record. -/
theorem lookup_replay_eq (log : List (StatsCall δ)) (url : Str) :
    (replay log).lookup url =
      if ownCalls url log = [] then none else some (recordOf url (ownCalls url log)) := by
  rw [lookup_replay, KeyedOps.replay_eq_own]
  split
  · rename_i hnil
    rw [ownCalls] at hnil
    rw [hnil, List.foldl_nil]
  · rename_i hne
    exact foldl_record (fun call hcall => relayUrl_of_mem_ownCalls hcall) hne none

end RelayStats

/-! ## The fields of a record -/

section Fields
variable (calls : List (StatsCall δ))

def increments : ℕ := calls.countP fun call =>
  match call.2 with
  | .incrementEvent _ => true
  | _ => false

/-- The recorded latencies, in order. -/
def latencies : List δ := calls.filterMap fun call =>
  match call.2 with
  | .recordLatency _ latencyMs => some latencyMs
  | _ => none

/-- The last `SetStatus`: when, the status, and the error. -/
def lastStatus : Option (ℕ × RelayStatus × Str) :=
  (calls.filterMap fun call =>
    match call.2 with
    | .setStatus _ status error => some (call.1.steady, status, error)
    | _ => none).getLast?

/-- The list of the last `SetSupportedNips`. -/
def lastNips : Option (List Int32) :=
  (calls.filterMap fun call =>
    match call.2 with
    | .setSupportedNips _ nips => some nips
    | _ => none).getLast?

end Fields

/-- What a record says of the calls for its relay. -/
structure Summarises (calls : List (StatsCall δ)) (stat : RelayStat δ) : Prop where
  eventsCount : stat.eventsCount.toNat = increments calls % 2 ^ 64
  latencyHistoryMs : stat.latencyHistoryMs = (latencies calls).rtake RelayStats.kLatencyHistoryWindow
  latencyMs : stat.latencyMs = stat.latencyHistoryMs.getLast?
  status : stat.status = ((lastStatus calls).map fun last => last.2.1).getD .disconnected
  lastError : stat.lastError = ((lastStatus calls).map fun last => last.2.2).getD []
  connectedAt : stat.connectedAt =
    if stat.status = .subscribed then (lastStatus calls).map Prod.fst else none
  supportedNips : stat.supportedNips.Pairwise (· < ·) ∧
    ∀ nip, nip ∈ stat.supportedNips ↔ nip ∈ (lastNips calls).getD []

/-! ### The list of NIPs -/

theorem mem_destutter'_ne {nip a : Int32} {nips : List Int32} :
    nip ∈ nips.destutter' (· ≠ ·) a ↔ nip = a ∨ nip ∈ nips := by
  induction nips generalizing a with
  | nil => simp
  | cons b nips ih =>
    rw [List.destutter'_cons]
    split
    · rw [List.mem_cons, ih, List.mem_cons]
    · rename_i hab
      obtain rfl := not_not.mp hab
      rw [ih, List.mem_cons]
      tauto

theorem mem_sortUnique {nip : Int32} {nips : List Int32} :
    nip ∈ RelayStats.sortUnique nips ↔ nip ∈ nips := by
  have hsort : nip ∈ nips.mergeSort (fun a b => decide (a ≤ b)) ↔ nip ∈ nips := List.mem_mergeSort
  rw [RelayStats.sortUnique, ← hsort]
  cases nips.mergeSort fun a b => decide (a ≤ b) with
  | nil => rfl
  | cons a nips => rw [List.destutter_cons', mem_destutter'_ne, List.mem_cons]

theorem sortUnique_pairwise (nips : List Int32) :
    (RelayStats.sortUnique nips).Pairwise (· < ·) := by
  have hsorted : (nips.mergeSort fun a b => decide (a ≤ b)).Pairwise fun a b => decide (a ≤ b) := by
    refine List.pairwise_mergeSort (fun a b c hab hbc => ?_) (fun a b => ?_) nips
    · simp only [decide_eq_true_eq] at hab hbc ⊢
      exact Int32.le_trans hab hbc
    · simpa using Int32.le_total a b
  have hle : (RelayStats.sortUnique nips).IsChain fun a b => decide (a ≤ b) :=
    (hsorted.sublist (List.destutter_sublist (· ≠ ·) _)).isChain
  have hne : (RelayStats.sortUnique nips).IsChain (· ≠ ·) := List.isChain_destutter (· ≠ ·) _
  have : @Trans Int32 Int32 Int32 (· < ·) (· < ·) (· < ·) := ⟨Int32.lt_trans⟩
  refine List.isChain_iff_pairwise.mp (List.isChain_iff_getElem.mpr fun i hi => ?_)
  exact Int32.lt_of_le_of_ne (of_decide_eq_true (List.isChain_iff_getElem.mp hle i hi))
    (List.isChain_iff_getElem.mp hne i hi)

/-! ### The window of latencies -/

theorem rtake_append_rtake {α : Type} (l : List α) (a : α) (n : ℕ) :
    (l.rtake (n + 1) ++ [a]).rtake (n + 1) = (l ++ [a]).rtake (n + 1) := by
  rw [List.rtake_concat_succ, List.rtake_concat_succ]
  congr 1
  simp only [List.rtake, List.length_drop, List.drop_drop]
  congr 1
  omega

theorem getLast?_rtake {α : Type} (l : List α) (a : α) (n : ℕ) :
    ((l ++ [a]).rtake (n + 1)).getLast? = some a := by
  rw [List.rtake_concat_succ, List.getLast?_concat]

/-! ### Field by field -/

theorem increments_append (calls calls' : List (StatsCall δ)) :
    increments (calls ++ calls') = increments calls + increments calls' :=
  List.countP_append

theorem latencies_append (calls calls' : List (StatsCall δ)) :
    latencies (calls ++ calls') = latencies calls ++ latencies calls' :=
  List.filterMap_append

section Concat
variable (calls : List (StatsCall δ)) (call : StatsCall δ)

theorem increments_concat : increments (calls ++ [call]) = increments calls +
    match call.2 with
    | .incrementEvent _ => 1
    | _ => 0 := by
  rw [increments_append]
  obtain ⟨m, op⟩ := call
  cases op <;> rfl

theorem latencies_concat : latencies (calls ++ [call]) = latencies calls ++
    match call.2 with
    | .recordLatency _ latencyMs => [latencyMs]
    | _ => [] := by
  rw [latencies_append]
  obtain ⟨m, op⟩ := call
  cases op <;> rfl

theorem lastStatus_concat : lastStatus (calls ++ [call]) =
    match call.2 with
    | .setStatus _ status error => some (call.1.steady, status, error)
    | _ => lastStatus calls := by
  rw [lastStatus, lastStatus, List.filterMap_append]
  obtain ⟨m, op⟩ := call
  cases op with
  | setStatus url status error => exact List.getLast?_concat
  | _ => exact congrArg List.getLast? (List.append_nil _)

theorem lastNips_concat : lastNips (calls ++ [call]) =
    match call.2 with
    | .setSupportedNips _ nips => some nips
    | _ => lastNips calls := by
  rw [lastNips, lastNips, List.filterMap_append]
  obtain ⟨m, op⟩ := call
  cases op with
  | setSupportedNips url nips => exact List.getLast?_concat
  | _ => exact congrArg List.getLast? (List.append_nil _)

end Concat

/-! ### What calls make of a record -/

theorem foldl_eventsCount (calls : List (StatsCall δ)) (stat : RelayStat δ) :
    (calls.foldl RelayStat.apply stat).eventsCount.toNat =
      (stat.eventsCount.toNat + increments calls) % 2 ^ 64 := by
  induction calls using List.reverseRecOn with
  | nil => exact (Nat.mod_eq_of_lt stat.eventsCount.toNat_lt).symm
  | append_singleton calls call ih =>
    obtain ⟨m, op⟩ := call
    rw [List.foldl_append, increments_concat]
    cases op with
    | incrementEvent relayUrl =>
      change ((calls.foldl RelayStat.apply stat).eventsCount + 1).toNat =
        (stat.eventsCount.toNat + (increments calls + 1)) % 2 ^ 64
      rw [UInt64.toNat_add, ih]
      exact Nat.mod_add_mod ..
    | _ => exact ih

theorem foldl_no_latency {calls : List (StatsCall δ)} (h : latencies calls = []) (stat : RelayStat δ) :
    (calls.foldl RelayStat.apply stat).latencyHistoryMs = stat.latencyHistoryMs ∧
      (calls.foldl RelayStat.apply stat).latencyMs = stat.latencyMs := by
  induction calls using List.reverseRecOn with
  | nil => exact ⟨rfl, rfl⟩
  | append_singleton calls call ih =>
    rw [latencies_concat, List.append_eq_nil_iff] at h
    obtain ⟨m, op⟩ := call
    rw [List.foldl_append]
    cases op with
    | recordLatency relayUrl latencyMs => cases h.2
    | _ => exact ih h.1

theorem foldl_latencies {calls : List (StatsCall δ)} (h : latencies calls ≠ []) (stat : RelayStat δ) :
    (calls.foldl RelayStat.apply stat).latencyHistoryMs =
        (stat.latencyHistoryMs ++ latencies calls).rtake RelayStats.kLatencyHistoryWindow ∧
      (calls.foldl RelayStat.apply stat).latencyMs =
        (calls.foldl RelayStat.apply stat).latencyHistoryMs.getLast? := by
  induction calls using List.reverseRecOn with
  | nil => exact absurd rfl h
  | append_singleton calls call ih =>
    obtain ⟨m, op⟩ := call
    rw [latencies_concat] at h ⊢
    rw [List.foldl_append]
    cases op with
    | recordLatency relayUrl latencyMs =>
      refine ⟨?_, (getLast?_rtake _ latencyMs 59).symm⟩
      change ((calls.foldl RelayStat.apply stat).latencyHistoryMs ++ [latencyMs]).rtake 60 =
        (stat.latencyHistoryMs ++ (latencies calls ++ [latencyMs])).rtake 60
      rw [← List.append_assoc]
      by_cases hnil : latencies calls = []
      · rw [(foldl_no_latency hnil stat).1, hnil, List.append_nil]
      · rw [(ih hnil).1]
        exact rtake_append_rtake (stat.latencyHistoryMs ++ latencies calls) latencyMs 59
    | _ =>
      simp only [List.append_nil] at h ⊢
      exact ih h

theorem foldl_no_status {calls : List (StatsCall δ)} (h : lastStatus calls = none)
    (stat : RelayStat δ) :
    (calls.foldl RelayStat.apply stat).status = stat.status ∧
      (calls.foldl RelayStat.apply stat).lastError = stat.lastError ∧
      (calls.foldl RelayStat.apply stat).connectedAt = stat.connectedAt := by
  induction calls using List.reverseRecOn with
  | nil => exact ⟨rfl, rfl, rfl⟩
  | append_singleton calls call ih =>
    obtain ⟨m, op⟩ := call
    rw [lastStatus_concat] at h
    rw [List.foldl_append]
    cases op with
    | setStatus relayUrl status error => cases h
    | _ => exact ih h

theorem foldl_no_nips {calls : List (StatsCall δ)} (h : lastNips calls = none) (stat : RelayStat δ) :
    (calls.foldl RelayStat.apply stat).supportedNips = stat.supportedNips := by
  induction calls using List.reverseRecOn with
  | nil => rfl
  | append_singleton calls call ih =>
    obtain ⟨m, op⟩ := call
    rw [lastNips_concat] at h
    rw [List.foldl_append]
    cases op with
    | setSupportedNips relayUrl nips => cases h
    | _ => exact ih h

section RecordOf
variable (url : Str) (calls : List (StatsCall δ))

theorem recordOf_eventsCount :
    (recordOf url calls).eventsCount.toNat = increments calls % 2 ^ 64 := by
  have h := foldl_eventsCount calls ({ relayUrl := url } : RelayStat δ)
  change _ = (0 + increments calls) % 2 ^ 64 at h
  rwa [Nat.zero_add] at h

theorem recordOf_latencies :
    (recordOf url calls).latencyHistoryMs =
        (latencies calls).rtake RelayStats.kLatencyHistoryWindow ∧
      (recordOf url calls).latencyMs = (recordOf url calls).latencyHistoryMs.getLast? := by
  by_cases hnil : latencies calls = []
  · obtain ⟨hhistory, hlast⟩ := foldl_no_latency hnil ({ relayUrl := url } : RelayStat δ)
    rw [recordOf, hhistory, hlast, hnil]
    exact ⟨rfl, rfl⟩
  · obtain ⟨hhistory, hlast⟩ := foldl_latencies hnil ({ relayUrl := url } : RelayStat δ)
    exact ⟨hhistory, hlast⟩

theorem recordOf_status :
    (recordOf url calls).status = ((lastStatus calls).map fun last => last.2.1).getD .disconnected ∧
      (recordOf url calls).lastError = ((lastStatus calls).map fun last => last.2.2).getD [] ∧
      (recordOf url calls).connectedAt =
        if (recordOf url calls).status = .subscribed then (lastStatus calls).map Prod.fst
        else none := by
  induction calls using List.reverseRecOn with
  | nil => exact ⟨rfl, rfl, rfl⟩
  | append_singleton calls call ih =>
    obtain ⟨m, op⟩ := call
    rw [recordOf_concat, lastStatus_concat]
    cases op with
    | setStatus relayUrl status error => exact ⟨rfl, rfl, rfl⟩
    | _ => exact ih

theorem recordOf_supportedNips :
    (recordOf url calls).supportedNips.Pairwise (· < ·) ∧
      ∀ nip, nip ∈ (recordOf url calls).supportedNips ↔ nip ∈ (lastNips calls).getD [] := by
  induction calls using List.reverseRecOn with
  | nil => exact ⟨List.Pairwise.nil, fun _ => Iff.rfl⟩
  | append_singleton calls call ih =>
    obtain ⟨m, op⟩ := call
    rw [recordOf_concat, lastNips_concat]
    cases op with
    | setSupportedNips relayUrl nips => exact ⟨sortUnique_pairwise nips, fun _ => mem_sortUnique⟩
    | _ => exact ih

theorem recordOf_relayUrl : (recordOf url calls).relayUrl = url := by
  induction calls using List.reverseRecOn with
  | nil => rfl
  | append_singleton calls call ih =>
    obtain ⟨m, op⟩ := call
    rw [recordOf_concat]
    cases op <;> exact ih

theorem summarises_recordOf : Summarises calls (recordOf url calls) where
  eventsCount := recordOf_eventsCount url calls
  latencyHistoryMs := (recordOf_latencies url calls).1
  latencyMs := (recordOf_latencies url calls).2
  status := (recordOf_status url calls).1
  lastError := (recordOf_status url calls).2.1
  connectedAt := (recordOf_status url calls).2.2
  supportedNips := recordOf_supportedNips url calls

end RecordOf

/-! ## The readers -/

namespace RelayStats

/-- The records, in the order in which a loop over the hash map meets them. -/
def records (stats : RelayStats δ) : List (RelayStat δ) := stats.byRelay.entries.map Sigma.snd

/-- `std::sort` of the records by URL, as in `Snapshot`. -/
def sortByUrl (stats : List (RelayStat δ)) : List (RelayStat δ) :=
  stats.mergeSort fun lhs rhs => decide (lhs.relayUrl ≤ rhs.relayUrl)

/-- The totals of a list of records. -/
def totals (stats : List (RelayStat δ)) : AggregateStats where
  connectedRelays := stats.countP fun stat => stat.status = .subscribed
  erroredRelays := stats.countP fun stat => stat.status = .error
  totalEvents := UInt64.ofNat (stats.map fun stat => stat.eventsCount.toNat).sum

theorem mem_records {stats : RelayStats δ} {stat : RelayStat δ} :
    stat ∈ stats.records ↔ stats.lookup stat.relayUrl = some stat := by
  rw [records, List.mem_map]
  constructor
  · rintro ⟨⟨url, stat⟩, hentry, rfl⟩
    have hlookup := AList.mem_lookup_iff.mpr hentry
    rw [stats.named url stat hlookup]
    exact hlookup
  · exact fun h => ⟨⟨stat.relayUrl, stat⟩, AList.mem_lookup_iff.mp h, rfl⟩

theorem nodup_records_urls (stats : RelayStats δ) : (stats.records.map RelayStat.relayUrl).Nodup := by
  have hkeys : stats.records.map RelayStat.relayUrl = stats.byRelay.keys := by
    rw [records, List.map_map]
    refine List.map_congr_left fun entry hentry => ?_
    exact stats.named entry.1 entry.2 (AList.mem_lookup_iff.mpr hentry)
  rw [hkeys]
  exact stats.byRelay.keys_nodup

theorem pairwise_sortByUrl {stats : List (RelayStat δ)}
    (h : (stats.map RelayStat.relayUrl).Nodup) :
    (sortByUrl stats).Pairwise fun lhs rhs => lhs.relayUrl < rhs.relayUrl := by
  have hperm : (sortByUrl stats).Perm stats := List.mergeSort_perm _ _
  have hle : (sortByUrl stats).Pairwise fun lhs rhs => decide (lhs.relayUrl ≤ rhs.relayUrl) := by
    refine List.pairwise_mergeSort (fun a b c hab hbc => ?_) (fun a b => ?_) stats
    · simp only [decide_eq_true_eq] at hab hbc ⊢
      exact List.le_trans hab hbc
    · simpa using List.le_total a.relayUrl b.relayUrl
  have hne : (sortByUrl stats).Pairwise fun lhs rhs => lhs.relayUrl ≠ rhs.relayUrl :=
    List.pairwise_map.mp ((hperm.map RelayStat.relayUrl).nodup_iff.mpr h)
  refine hle.imp₂ (fun a b hab hne => ?_) hne
  exact (List.le_iff_lt_or_eq.mp (of_decide_eq_true hab)).resolve_right hne

/-- Records for different URLs have one sorted order. -/
theorem sortByUrl_eq_of_perm {stats stats' : List (RelayStat δ)} (hperm : stats.Perm stats')
    (h : (stats.map RelayStat.relayUrl).Nodup) : sortByUrl stats = sortByUrl stats' := by
  have h' : (stats'.map RelayStat.relayUrl).Nodup := (hperm.map _).nodup_iff.mp h
  refine List.Perm.eq_of_pairwise (fun a b _ _ hab hba => ?_) (pairwise_sortByUrl h)
    (pairwise_sortByUrl h') ?_
  · exact absurd hba (List.lt_asymm hab)
  · exact (List.mergeSort_perm _ _).trans (hperm.trans (List.mergeSort_perm _ _).symm)

/-- Stores with the same records have the same snapshot. -/
theorem snapshot_eq_of_lookup {stats stats' : RelayStats δ} (h : stats.lookup = stats'.lookup) :
    stats.snapshot = stats'.snapshot := by
  have hperm : stats.records.Perm stats'.records := by
    refine (List.perm_ext_iff_of_nodup (List.Nodup.of_map _ stats.nodup_records_urls)
      (List.Nodup.of_map _ stats'.nodup_records_urls)).mpr fun stat => ?_
    rw [mem_records, mem_records, h]
  exact sortByUrl_eq_of_perm hperm stats.nodup_records_urls

theorem mem_snapshot {stats : RelayStats δ} {stat : RelayStat δ} :
    stat ∈ stats.snapshot ↔ stats.lookup stat.relayUrl = some stat := by
  rw [snapshot, List.mem_mergeSort]
  exact mem_records

/-- The loop of `Aggregate` counts and adds up, in whatever order it meets the records. -/
theorem foldl_add_eq_totals (stats : List (RelayStat δ)) :
    stats.foldl AggregateStats.add {} = totals stats := by
  induction stats using List.reverseRecOn with
  | nil => rfl
  | append_singleton stats stat ih =>
    rw [List.foldl_append, ih]
    simp only [List.foldl_cons, List.foldl_nil, totals, AggregateStats.add, List.countP_append,
      List.countP_singleton, decide_eq_true_eq, List.map_append, List.map_cons, List.map_nil,
      List.sum_append, List.sum_singleton, UInt64.ofNat_add, UInt64.ofNat_toNat]
    congr 1 <;> split <;> rfl

theorem totals_eq_of_perm {stats stats' : List (RelayStat δ)} (h : stats.Perm stats') :
    totals stats = totals stats' := by
  rw [totals, totals, h.countP_eq, h.countP_eq, (h.map _).sum_eq]

/-! ## The store and its log -/

/-- The calls since the last reset. -/
def currentCalls (log : List (StatsCall δ)) : List (StatsCall δ) := (relayOps δ).current log

theorem ownCalls_ne_nil {url : Str} {log : List (StatsCall δ)} :
    ownCalls url log ≠ [] ↔ ∃ call ∈ currentCalls log, call.relayUrl? = some url :=
  KeyedOps.own_ne_nil

theorem lookup_replay_eq_some {log : List (StatsCall δ)} {url : Str} {stat : RelayStat δ} :
    (replay log).lookup url = some stat ↔
      ownCalls url log ≠ [] ∧ recordOf url (ownCalls url log) = stat := by
  rw [lookup_replay_eq]
  split
  · rename_i hnil
    simp [hnil]
  · rename_i hne
    simp [hne]

/-- **The store refines its log.** The snapshot has one record for each relay that is mentioned since the
last reset, sorted by URL, and each is what the calls for its relay make of a new one. Calls for different
relays commute. The readers give the same for every order in which a loop over the hash map meets the
records, and the totals are those of the snapshot. -/
theorem replay_refines_log (log : List (StatsCall δ)) :
    (replay log).snapshot.Pairwise (fun lhs rhs => lhs.relayUrl < rhs.relayUrl) ∧
    (∀ url, url ∈ (replay log).snapshot.map RelayStat.relayUrl ↔
      ∃ call ∈ currentCalls log, call.relayUrl? = some url) ∧
    (∀ stat ∈ (replay log).snapshot, stat = recordOf stat.relayUrl (ownCalls stat.relayUrl log) ∧
      Summarises (ownCalls stat.relayUrl log) stat) ∧
    (∀ before call call' after url url', log = before ++ call :: call' :: after →
      call.relayUrl? = some url → call'.relayUrl? = some url' → url ≠ url' →
        (replay (before ++ call' :: call :: after)).snapshot = (replay log).snapshot) ∧
    (replay log).aggregate = totals (replay log).snapshot ∧
    ∀ order : List (RelayStat δ), order.Perm (replay log).records →
      sortByUrl order = (replay log).snapshot ∧
        order.foldl AggregateStats.add {} = totals (replay log).snapshot := by
  have hsorted : (replay log).snapshot = sortByUrl (replay log).records := rfl
  have htotals : ∀ order : List (RelayStat δ), order.Perm (replay log).records →
      order.foldl AggregateStats.add {} = totals (replay log).snapshot := by
    intro order horder
    rw [foldl_add_eq_totals, hsorted]
    exact totals_eq_of_perm (horder.trans (List.mergeSort_perm _ _).symm)
  refine ⟨pairwise_sortByUrl (nodup_records_urls _), fun url => ?_, fun stat hstat => ?_, ?_,
    htotals _ (List.Perm.refl _), fun order horder => ⟨?_, htotals order horder⟩⟩
  · rw [← ownCalls_ne_nil, List.mem_map]
    constructor
    · rintro ⟨stat, hstat, rfl⟩
      exact (lookup_replay_eq_some.mp (mem_snapshot.mp hstat)).1
    · intro hne
      have hurl := recordOf_relayUrl url (ownCalls url log)
      refine ⟨recordOf url (ownCalls url log), mem_snapshot.mpr ?_, hurl⟩
      rw [hurl]
      exact lookup_replay_eq_some.mpr ⟨hne, rfl⟩
  · obtain ⟨-, hrecord⟩ := lookup_replay_eq_some.mp (mem_snapshot.mp hstat)
    refine ⟨hrecord.symm, ?_⟩
    conv_rhs => rw [← hrecord]
    exact summarises_recordOf _ _
  · rintro before call call' after url url' rfl hurl hurl' hne
    refine snapshot_eq_of_lookup ?_
    rw [lookup_replay, lookup_replay]
    exact KeyedOps.replay_swap hurl' hurl hne.symm before after
  · rw [hsorted]
    exact sortByUrl_eq_of_perm horder ((horder.map _).nodup_iff.mpr (nodup_records_urls _))

end RelayStats

end Monitostr.Model
