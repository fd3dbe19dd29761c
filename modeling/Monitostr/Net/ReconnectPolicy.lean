import Monitostr.Net.SessionChain
import Monitostr.Net.SessionManager
import Monitostr.Utils.SamplePlatform

/-! # The reconnect policy

`ScheduleReconnect` counts the reconnects, `ShouldReconnectAttempt` tests the count, and a completed
websocket handshake resets it. A record of the waits since that handshake shows what the three make
together; the record also says whether something has happened after which no reconnect may follow.
-/

namespace Monitostr.Net
open Foundations Foundations.Behaviour SessionManager
set_option autoImplicit false

variable {pf : Platform} {m : Moment} {s : RelaySession}

/-! ## The delay -/

theorem baseMs_toNat {exp : ℕ} (h : exp ≤ 8) :
    (500 * ((1 : UInt32) <<< UInt32.ofNat exp)).toNat = 500 * 2 ^ exp := by
  have hall : ∀ i : Fin 9, (500 * ((1 : UInt32) <<< UInt32.ofNat i.val)).toNat = 500 * 2 ^ i.val := by
    decide
  exact hall ⟨exp, by omega⟩

theorem min_toNat (a b : UInt32) : (min a b).toNat = min a.toNat b.toNat := by
  change (if a ≤ b then a else b).toNat = min a.toNat b.toNat
  split
  · next h => exact (Nat.min_eq_left (UInt32.le_iff_toNat_le.mp h)).symm
  · next h =>
    rw [UInt32.le_iff_toNat_le] at h
    exact (Nat.min_eq_right (by omega)).symm

theorem computeReconnectDelayMs_toNat (relayUrl : Str) (reconnectAttempt : ℕ) (entropy : UInt64) :
    (computeReconnectDelayMs pf relayUrl reconnectAttempt entropy).toNat =
      min 30000 (500 * 2 ^ min (reconnectAttempt - 1) 8 + (pf.jitter relayUrl entropy).val) := by
  have hexp : (if reconnectAttempt > 0 then reconnectAttempt - 1 else 0) = reconnectAttempt - 1 := by
    split <;> omega
  have hpow : 2 ^ min (reconnectAttempt - 1) 8 ≤ 2 ^ 8 :=
    Nat.pow_le_pow_right (by decide) (Nat.min_le_right _ _)
  have hjitter := (pf.jitter relayUrl entropy).isLt
  have hofNat : (UInt32.ofNat (pf.jitter relayUrl entropy).val).toNat =
      (pf.jitter relayUrl entropy).val := by
    rw [UInt32.toNat_ofNat']
    exact Nat.mod_eq_of_lt (by omega)
  rw [computeReconnectDelayMs, hexp]
  rw [min_toNat, UInt32.toNat_add, baseMs_toNat (Nat.min_le_right _ _), hofNat,
    Nat.mod_eq_of_lt (by omega)]
  rfl

theorem delay_bounds {k : ℕ} (hk : k < kMaxReconnectAttempts) (relayUrl : Str) (entropy : UInt64) :
    500 * 2 ^ k ≤ (computeReconnectDelayMs pf relayUrl (k + 1) entropy).toNat ∧
      (computeReconnectDelayMs pf relayUrl (k + 1) entropy).toNat ≤ 500 * 2 ^ k + 250 := by
  rw [kMaxReconnectAttempts] at hk
  have hpow : 2 ^ k ≤ 2 ^ 5 := Nat.pow_le_pow_right (by decide) (by omega)
  have hjitter := (pf.jitter relayUrl entropy).isLt
  rw [computeReconnectDelayMs_toNat, Nat.add_sub_cancel, Nat.min_eq_left (by omega : k ≤ 8)]
  omega

/-! ## The record -/

def AsyncOp.waitMs? : AsyncOp → Option UInt32
  | .reconnectWait delayMs => some delayMs
  | _ => none

/-- The delays of the reconnects that are scheduled. -/
def scheduledWaits (effects : List Effect) : List UInt32 :=
  (effects.filterMap Effect.starts).filterMap AsyncOp.waitMs?

def completesHandshake : Item SessionCall AsyncOp Outcome → Bool
  | .completion (.wsHandshake _ _) o => o.ec.isNone
  | _ => false

/-- An item after which there is no reconnect: `Stop`, a failed websocket handshake, a failed `set_sni`. -/
def bars : Item SessionCall AsyncOp Outcome → Bool
  | .call .stop => true
  | .completion (.wsHandshake _ _) o => o.ec.isSome
  | .completion .connect o => o.ec.isNone && o.sniError.isSome
  | _ => false

structure ReconnectLog where
  /-- The delays scheduled since the last completed websocket handshake. -/
  waits : List UInt32 := []
  barred : Bool := false

def ReconnectLog.note (log : ReconnectLog) (o : SessionObject) (e : SessionEvent)
    (result : SessionObject × List Effect) : ReconnectLog where
  waits := (if (handledItem o e).any completesHandshake then [] else log.waits) ++
    scheduledWaits result.2
  barred := log.barred || (handledItem o e).any bars

structure WithinPolicy (waits : List UInt32) : Prop where
  count : waits.length ≤ kMaxReconnectAttempts
  range : ∀ k d, waits[k]? = some d → 500 * 2 ^ k ≤ d.toNat ∧ d.toNat ≤ 500 * 2 ^ k + 250
  increasing : waits.Pairwise (· < ·)
  below_cap : ∀ d ∈ waits, d.toNat < 30000

/-! ## What a handler does to the count -/

theorem shouldReconnectAttempt_iff {stopped : Bool} {reconnectAttempt : ℕ} {where_ : Str} :
    shouldReconnectAttempt stopped reconnectAttempt where_ = true ↔
      stopped = false ∧ reconnectAttempt < kMaxReconnectAttempts ∧
        where_ ∈ [lit "read", lit "resolve", lit "connect", lit "tls_handshake", lit "write_req"] := by
  have hnot : ∀ w ∈ [lit "read", lit "resolve", lit "connect", lit "tls_handshake", lit "write_req"],
      ¬ (w = lit "ws_handshake" ∨ w = lit "set_sni") := by
    decide
  rw [shouldReconnectAttempt]
  cases stopped with
  | true => simp
  | false =>
    by_cases hcount : reconnectAttempt ≥ kMaxReconnectAttempts
    · simp [hcount]
    · rw [if_neg (by simpa using hcount)]
      by_cases hname : where_ = lit "ws_handshake" ∨ where_ = lit "set_sni"
      · rw [if_pos hname]
        refine iff_of_false Bool.false_ne_true fun h => ?_
        exact hnot where_ h.2.2 hname
      · rw [if_neg hname]
        simp [Nat.lt_of_not_le hcount, or_assoc]

theorem where_of_reconnect {op : AsyncOp} (h : op.where_ ∈
    [lit "read", lit "resolve", lit "connect", lit "tls_handshake", lit "write_req"]) (o : Outcome) :
    completesHandshake (.completion op o) = false ∧
      (o.ec.isSome = true → bars (.completion op o) = false) := by
  cases op with
  | wsHandshake host target =>
    refine absurd h ?_
    simp only [AsyncOp.where_]
    decide
  | connect => exact ⟨rfl, fun hec => by rw [bars, Option.isNone_eq_false_iff.mpr hec, Bool.false_and]⟩
  | _ => exact ⟨rfl, fun _ => rfl⟩

theorem scheduledWaits_of_not_reconnect (pf : Platform) (m : Moment) {s : RelaySession} {where_ : Str}
    (ec : Str) (h : shouldReconnectAttempt s.stopped s.reconnectAttempt where_ = false) :
    scheduledWaits (s.markError pf m where_ ec).2 = [] := by
  rw [scheduledWaits, (s.markError_of_not_reconnect pf m ec h).2]
  rfl

/-- A handler schedules a reconnect only when the session is not stopped and the count allows it, and
then counts it; otherwise it leaves the count or, after a completed handshake, resets it. -/
theorem RelaySession.handle_reconnects (pf : Platform) (m : Moment) (s : RelaySession)
    (item : Item SessionCall AsyncOp Outcome) :
    (scheduledWaits (s.handle pf m item).2 = [] ∧ (s.handle pf m item).1.reconnectAttempt =
        if completesHandshake item then 0 else s.reconnectAttempt) ∨
      (scheduledWaits (s.handle pf m item).2 = [s.reconnectDelay pf m] ∧
        (s.handle pf m item).1.reconnectAttempt = s.reconnectAttempt + 1 ∧
        s.reconnectAttempt < kMaxReconnectAttempts ∧ s.stopped = false ∧
        bars item = false ∧ completesHandshake item = false) := by
  have h : RelaySession.Turn pf m s item (s.handle pf m item) := RelaySession.handle_turn item
  generalize s.handle pf m item = result at h ⊢
  cases h with
  | fail op o ec hop hec =>
    cases hre : shouldReconnectAttempt s.stopped s.reconnectAttempt op.where_ with
    | true =>
      obtain ⟨hdata, hstarts⟩ := s.markError_of_reconnect pf m ec hre
      obtain ⟨hrunning, hcount, hname⟩ := shouldReconnectAttempt_iff.mp hre
      obtain ⟨hopen, hbars⟩ := where_of_reconnect hname o
      refine Or.inr ⟨?_, ?_, hcount, hrunning, hbars (by rw [hec]; rfl), hopen⟩
      · rw [scheduledWaits, hstarts]
        rfl
      · rw [hdata]
    | false =>
      refine Or.inl ⟨scheduledWaits_of_not_reconnect pf m ec hre, ?_⟩
      rw [(s.markError_of_not_reconnect pf m ec hre).1, if_neg]
      cases op <;> simp [completesHandshake, hec]
  | failSni o ec text hec hsni =>
    have hre : shouldReconnectAttempt s.stopped s.reconnectAttempt (lit "set_sni") = false := by
      rw [← Bool.not_eq_true, shouldReconnectAttempt_iff]
      exact fun h => absurd h.2.2 (by decide)
    refine Or.inl ⟨scheduledWaits_of_not_reconnect pf m ec hre, ?_⟩
    rw [(s.markError_of_not_reconnect pf m ec hre).1]
    rfl
  | subscribed host target o text last hec hlast =>
    refine Or.inl ⟨?_, ?_⟩
    · rw [hlast]
      split <;> rfl
    · rw [completesHandshake, hec]
      rfl
  | read o next hec hnext =>
    refine Or.inl ⟨?_, rfl⟩
    have hmessage : scheduledWaits (s.handleMessage pf m s.readBuffer) = [] := by
      refine List.filterMap_eq_nil_iff.mpr fun op hop => ?_
      obtain ⟨message, rfl⟩ := RelaySession.handleMessage_starts _ op hop
      rfl
    rw [scheduledWaits] at hmessage ⊢
    rw [List.filterMap_append, List.filterMap_append, hmessage, hnext]
    split <;> rfl
  | _ => exact Or.inl ⟨rfl, rfl⟩

/-! ## The waits between two handshakes -/

/-- The record has as many waits as the session counts, and each is the delay for its place. -/
structure Counted (pf : Platform) (relayUrl : Str) (p : SessionObject × ReconnectLog) : Prop where
  url : p.1.data.relayUrl = relayUrl
  count : p.2.waits.length = p.1.data.reconnectAttempt
  bound : p.1.data.reconnectAttempt ≤ kMaxReconnectAttempts
  delays : ∀ k d, p.2.waits[k]? = some d →
    ∃ entropy, d = computeReconnectDelayMs pf relayUrl (k + 1) entropy

theorem Counted.withinPolicy {relayUrl : Str} {p : SessionObject × ReconnectLog}
    (hp : Counted pf relayUrl p) : WithinPolicy p.2.waits := by
  have hcount : p.2.waits.length ≤ kMaxReconnectAttempts := hp.count.trans_le hp.bound
  have hrange : ∀ k d, p.2.waits[k]? = some d →
      k < kMaxReconnectAttempts ∧ 500 * 2 ^ k ≤ d.toNat ∧ d.toNat ≤ 500 * 2 ^ k + 250 := by
    intro k d hd
    obtain ⟨entropy, rfl⟩ := hp.delays k d hd
    have hk : k < kMaxReconnectAttempts := by
      have := (List.getElem?_eq_some_iff.mp hd).1
      omega
    exact ⟨hk, delay_bounds hk relayUrl entropy⟩
  refine ⟨hcount, fun k d hd => (hrange k d hd).2, ?_, fun d hd => ?_⟩
  · rw [List.pairwise_iff_getElem]
    intro i j hi hj hij
    obtain ⟨-, -, hupper⟩ := hrange i _ (List.getElem?_eq_getElem hi)
    obtain ⟨-, hlower, -⟩ := hrange j _ (List.getElem?_eq_getElem hj)
    have hpow : 2 * 2 ^ i ≤ 2 ^ j := by
      rw [← Nat.pow_succ']
      exact Nat.pow_le_pow_right (by decide) hij
    have hpos : 1 ≤ 2 ^ i := Nat.one_le_two_pow
    rw [UInt32.lt_iff_toNat_lt]
    omega
  · obtain ⟨k, hk, rfl⟩ := List.getElem_of_mem hd
    obtain ⟨hlt, -, hupper⟩ := hrange k _ (List.getElem?_eq_getElem hk)
    rw [kMaxReconnectAttempts] at hlt
    have hpow : 2 ^ k ≤ 2 ^ 5 := Nat.pow_le_pow_right (by decide) (by omega)
    omega

/-- What holds of each place of a list holds of a longer one when it holds of the place that is new. -/
theorem forall_getElem?_concat {α : Type} {P : ℕ → α → Prop} {l : List α} {a : α}
    (h : ∀ k b, l[k]? = some b → P k b) (ha : P l.length a) :
    ∀ k b, (l ++ [a])[k]? = some b → P k b := by
  intro k b hb
  rcases Nat.lt_or_ge k l.length with hk | hk
  · rw [List.getElem?_append_left hk] at hb
    exact h k b hb
  · rw [List.getElem?_append_right hk] at hb
    obtain ⟨hlt, rfl⟩ := List.getElem?_eq_some_iff.mp hb
    have hk' : k = l.length := by
      rw [List.length_singleton] at hlt
      omega
    rw [List.getElem_singleton, hk']
    exact ha

/-- A handler that schedules no wait keeps the record, or it completes the handshake that clears it. -/
theorem Counted.unscheduled {relayUrl : Str} {p q : SessionObject × ReconnectLog} {done : Bool}
    (hp : Counted pf relayUrl p) (hurl : q.1.data.relayUrl = relayUrl)
    (hwaits : q.2.waits = if done then [] else p.2.waits)
    (hattempt : q.1.data.reconnectAttempt = if done then 0 else p.1.data.reconnectAttempt) :
    Counted pf relayUrl q := by
  cases done with
  | true =>
    rw [if_pos rfl] at hwaits hattempt
    refine ⟨hurl, ?_, hattempt.trans_le (Nat.zero_le _), ?_⟩
    · rw [hwaits, hattempt]
      rfl
    · rw [hwaits]
      exact fun k d hd => absurd hd (Option.some_ne_none d).symm
  | false =>
    rw [if_neg Bool.false_ne_true] at hwaits hattempt
    refine ⟨hurl, ?_, hattempt.trans_le hp.bound, ?_⟩
    · rw [hwaits, hattempt]
      exact hp.count
    · rw [hwaits]
      exact hp.delays

theorem Counted.step {relayUrl : Str} {p q : SessionObject × ReconnectLog} {e : SessionEvent}
    (hp : Counted pf relayUrl p)
    (h : watched (sessionBehaviour pf).react ReconnectLog.note p e = some q) :
    Counted pf relayUrl q := by
  obtain ⟨effects, hreact, hnote⟩ := watched_eq_some.mp h
  cases hitem : handledItem p.1 e with
  | none =>
    obtain ⟨hstarts, buffer, hdata⟩ := react_without_handler hitem hreact
    have hwaits : q.2.waits = p.2.waits := by
      rw [hnote, ReconnectLog.note, hitem, scheduledWaits, hstarts]
      exact List.append_nil _
    have hsame : q.1.data.relayUrl = p.1.data.relayUrl ∧
        q.1.data.reconnectAttempt = p.1.data.reconnectAttempt := by
      rw [hdata]
      exact ⟨rfl, rfl⟩
    exact @Counted.unscheduled pf relayUrl p q false hp (hsame.1.trans hp.url) hwaits hsame.2
  | some item =>
    obtain ⟨m, rest, rfl, -, rfl, hdata, -⟩ := react_handler hitem hreact
    have hurl : q.1.data.relayUrl = relayUrl := by
      rw [hdata, (p.1.data.handle_members pf m item).relayUrl, hp.url]
    have hwaits : q.2.waits = (if completesHandshake item then [] else p.2.waits) ++
        scheduledWaits (p.1.data.handle pf m item).2 := by
      rw [hnote, ReconnectLog.note, hitem]
      rfl
    rcases p.1.data.handle_reconnects pf m item with
      ⟨hnone, hattempt⟩ | ⟨hone, hattempt, hlt, -, -, hopen⟩
    · rw [hnone, List.append_nil] at hwaits
      rw [← hdata] at hattempt
      exact hp.unscheduled hurl hwaits hattempt
    · rw [hone, hopen, if_neg Bool.false_ne_true] at hwaits
      rw [← hdata] at hattempt
      refine ⟨hurl, ?_, hattempt.trans_le hlt, ?_⟩
      · rw [hwaits, List.length_append, hp.count, hattempt]
        rfl
      · rw [hwaits]
        refine forall_getElem?_concat hp.delays ⟨UInt64.ofNat m.steady, ?_⟩
        rw [RelaySession.reconnectDelay, hp.url, hp.count]

/-! ## The end of reconnecting -/

/-- A session that is started once: once it is barred, it is stopped or has no chain. -/
structure Barred (p : SessionObject × ReconnectLog) : Prop where
  once : StartedOnce p.1
  order : p.2.barred = true → NoStart p.1.queue
  ended : p.2.barred = true →
    p.1.data.stopped = true ∨ chains SessionCall.begins AsyncOp.inSequence p.1 = 0

theorem RelaySession.handle_bars (pf : Platform) (m : Moment) (s : RelaySession)
    {item : Item SessionCall AsyncOp Outcome} (hitem : bars item = true) :
    (s.handle pf m item).1.stopped = true ∨
      (isCompletionOf AsyncOp.inSequence item = true ∧ sequenceCount (s.handle pf m item).2 = 0) := by
  have hnone : ∀ where_ ec : Str, where_ = lit "ws_handshake" ∨ where_ = lit "set_sni" →
      sequenceCount (s.markError pf m where_ ec).2 = 0 := by
    intro where_ ec hwhere
    have hre : shouldReconnectAttempt s.stopped s.reconnectAttempt where_ = false := by
      rw [← Bool.not_eq_true, shouldReconnectAttempt_iff]
      rcases hwhere with rfl | rfl <;> exact fun h => absurd h.2.2 (by decide)
    rw [sequenceCount, (s.markError_of_not_reconnect pf m ec hre).2]
    rfl
  have h : RelaySession.Turn pf m s item (s.handle pf m item) := RelaySession.handle_turn item
  generalize s.handle pf m item = result at h ⊢
  cases h with
  | stopOpen | stopClosed => exact Or.inl rfl
  | fail op o ec hop hec =>
    cases op with
    | wsHandshake host target => exact Or.inr ⟨rfl, hnone _ ec (Or.inl rfl)⟩
    | connect =>
      rw [bars, hec] at hitem
      cases hitem
    | _ => cases hitem
  | failSni o ec text => exact Or.inr ⟨rfl, hnone _ ec (Or.inr rfl)⟩
  | connected o text hec hsni =>
    rw [bars, hsni, Option.isSome_none, Bool.and_false] at hitem
    cases hitem
  | subscribed host target o text last hec =>
    rw [bars, hec] at hitem
    cases hitem
  | _ => cases hitem

/-- Nothing is scheduled in a session that is barred. -/
def SchedulesNone (pf : Platform) (p : SessionObject × ReconnectLog) (e : SessionEvent) : Prop :=
  p.2.barred = true → ∀ o' effects, (sessionBehaviour pf).react p.1 e = some (o', effects) →
    scheduledWaits effects = []

theorem scheduledWaits_of_sequenceCount {effects : List Effect} (h : sequenceCount effects = 0) :
    scheduledWaits effects = [] := by
  refine List.filterMap_eq_nil_iff.mpr fun op hop => ?_
  have hout := List.countP_eq_zero.mp h op hop
  cases op with
  | reconnectWait delayMs => exact absurd rfl hout
  | _ => rfl

theorem Barred.schedulesNone {p : SessionObject × ReconnectLog} (hp : Barred p) (e : SessionEvent) :
    SchedulesNone pf p e := by
  intro hbarred o' effects hreact
  rcases hp.ended hbarred with hstopped | hnone
  · cases hitem : handledItem p.1 e with
    | none => rw [scheduledWaits, (react_without_handler hitem hreact).1, List.filterMap_nil]
    | some item =>
      obtain ⟨m, rest, -, -, rfl, -, -⟩ := react_handler hitem hreact
      rcases p.1.data.handle_reconnects pf m item with ⟨h, -⟩ | ⟨-, -, -, hrunning, -, -⟩
      · exact h
      · rw [hstopped] at hrunning
        cases hrunning
  · exact scheduledWaits_of_sequenceCount ((session_chained pf).none_started hreact hnone)

/-- A chain ends with a link that starts nothing. -/
theorem chains_eq_zero_of_last {p q : SessionObject} {m : Moment} {effects : List Effect}
    {item : Item SessionCall AsyncOp Outcome} {rest : List (Item SessionCall AsyncOp Outcome)}
    (hp : StartedOnce p) (hq : p.queue = item :: rest)
    (hreact : (sessionBehaviour pf).react p (.run m) = some (q, effects))
    (hlink : isCompletionOf AsyncOp.inSequence item = true)
    (hnone : sequenceCount (p.data.handle pf m item).2 = 0) :
    chains SessionCall.begins AsyncOp.inSequence q = 0 := by
  have hcount : chains SessionCall.begins AsyncOp.inSequence q +
      (isCompletionOf AsyncOp.inSequence item).toNat + (isCallOf SessionCall.begins item).toNat =
        chains SessionCall.begins AsyncOp.inSequence p + sequenceCount (p.data.handle pf m item).2 :=
    Chained.run_item hq hreact
  have hsingle := hp.single
  rw [hnone, hlink, Bool.toNat_true] at hcount
  omega

theorem Barred.step {p q : SessionObject × ReconnectLog} {e : SessionEvent} (hp : Barred p)
    (he : isCallEvent SessionCall.begins e = false)
    (h : watched (sessionBehaviour pf).react ReconnectLog.note p e = some q) : Barred q := by
  obtain ⟨effects, hreact, hnote⟩ := watched_eq_some.mp h
  have honce : StartedOnce q.1 := hp.once.react he hreact
  have hchains : chains SessionCall.begins AsyncOp.inSequence q.1 ≤
      chains SessionCall.begins AsyncOp.inSequence p.1 := by
    have hle := (session_chained pf).react hreact
    rwa [he, Bool.toNat_false, Nat.add_zero] at hle
  cases hitem : handledItem p.1 e with
  | none =>
    have hbarred : q.2.barred = p.2.barred := by
      rw [hnote, ReconnectLog.note, hitem]
      exact Bool.or_false _
    obtain ⟨more, hmore, hqueue⟩ := react_queue he hitem hreact
    obtain ⟨-, buffer, hdata⟩ := react_without_handler hitem hreact
    refine ⟨honce, fun hb => ?_, fun hb => ?_⟩
    · rw [hqueue]
      exact List.forall_mem_append.mpr ⟨hp.order (hbarred ▸ hb), hmore⟩
    · rw [hdata]
      exact (hp.ended (hbarred ▸ hb)).imp id fun hnone => Nat.le_zero.mp (hchains.trans_eq hnone)
  | some item =>
    have hbarred : q.2.barred = (p.2.barred || bars item) := by
      rw [hnote, ReconnectLog.note, hitem]
      rfl
    obtain ⟨m, rest, rfl, hq, rfl, hdata, hrest⟩ := react_handler hitem hreact
    refine ⟨honce, fun hb => ?_, fun hb => ?_⟩
    · rw [hrest]
      rw [hbarred, Bool.or_eq_true] at hb
      rcases hb with hb | hb
      · exact fun x hx => hp.order hb x (hq ▸ List.mem_cons_of_mem _ hx)
      · rcases (hq ▸ hp.once.order).tail.2 with ⟨key, rfl⟩ | hnone
        · cases hb
        · exact hnone
    · rw [hbarred, Bool.or_eq_true] at hb
      rcases hb with hb | hb
      · refine (hp.ended hb).imp (fun hstopped => ?_) fun hnone =>
          Nat.le_zero.mp (hchains.trans_eq hnone)
        have hstart := hp.order hb item (hq ▸ List.mem_cons_self)
        refine hdata ▸ (p.1.data.handle_members pf m item).stays_stopped ?_ hstopped
        rintro rfl
        cases hstart
      · rcases p.1.data.handle_bars pf m hb with hstopped | ⟨hlink, hnone⟩
        · exact Or.inl (hdata ▸ hstopped)
        · exact Or.inr (chains_eq_zero_of_last hp.once hq hreact hlink hnone)

/-! ## The policy -/

/-- **The reconnect policy.** Between two completed websocket handshakes a session schedules at most
`kMaxReconnectAttempts` reconnects, with strictly increasing delays below the cap, each within its
range. A session that is started once schedules none after a failed websocket handshake, a failed
`set_sni` or `Stop`. The 32-bit arithmetic is that of the natural numbers. -/
theorem reconnect_policy (pf : Platform) (relayUrl hexPubkey : Str) (authKey : Option Nostr.AuthKey)
    (es : List SessionEvent) (hes : ∀ e ∈ es, isCallEvent SessionCall.begins e = false) :
    Throughout (watched (sessionBehaviour pf).react ReconnectLog.note)
        (fun p => WithinPolicy p.2.waits) (startedSession hexPubkey authKey relayUrl, {}) es ∧
      Along (watched (sessionBehaviour pf).react ReconnectLog.note) (SchedulesNone pf)
        (startedSession hexPubkey authKey relayUrl, {}) es ∧
      ∀ reconnectAttempt entropy,
        (computeReconnectDelayMs pf relayUrl reconnectAttempt entropy).toNat =
          min 30000 (500 * 2 ^ min (reconnectAttempt - 1) 8 + (pf.jitter relayUrl entropy).val) := by
  have hcounted : Counted pf relayUrl (startedSession hexPubkey authKey relayUrl, {}) :=
    ⟨rfl, rfl, Nat.zero_le _, fun k d hd => absurd hd (Option.some_ne_none d).symm⟩
  have hbarred : Barred (startedSession hexPubkey authKey relayUrl, {}) :=
    ⟨⟨.waiting [authKey] [] (by simp [NoStart]), Nat.le_refl 1⟩,
      fun h => absurd h Bool.false_ne_true, fun h => absurd h Bool.false_ne_true⟩
  refine ⟨?_, ?_, computeReconnectDelayMs_toNat relayUrl⟩
  · exact throughout_keeps (I := Counted pf relayUrl) (G := fun _ _ => True)
      (fun _ _ _ hp _ h => hp.step h) (fun _ hp => hp.withinPolicy) hcounted
      (along_of_forall fun _ _ _ => trivial)
  · exact along_keeps (I := Barred) (G := fun _ e => isCallEvent SessionCall.begins e = false)
      (fun _ e _ hp he h => ⟨hp.step he h, hp.schedulesNone e⟩) hbarred
      (along_of_forall fun e he _ => hes e he)

/-- The host is not found three times. -/
def hostNotFound : List SessionEvent :=
  [.run {}, .run {}, .finish 0 { ec := some (lit "Host not found") }, .run {},
    .finish 0 {}, .run {}, .finish 0 { ec := some (lit "Host not found") }, .run {},
    .finish 0 {}, .run {}, .finish 0 { ec := some (lit "Host not found") }, .run {}]

theorem reconnect_policy_host_not_found :
    (Throughout (watched (sessionBehaviour samplePlatform).react ReconnectLog.note)
        (fun p => WithinPolicy p.2.waits) (startedSession (lit "00") none sampleRelay, {}) hostNotFound ∧
      Along (watched (sessionBehaviour samplePlatform).react ReconnectLog.note)
        (SchedulesNone samplePlatform) (startedSession (lit "00") none sampleRelay, {}) hostNotFound ∧
      ∀ reconnectAttempt entropy,
        (computeReconnectDelayMs samplePlatform sampleRelay reconnectAttempt entropy).toNat =
          min 30000 (500 * 2 ^ min (reconnectAttempt - 1) 8 +
            (samplePlatform.jitter sampleRelay entropy).val)) ∧
      (run (watched (sessionBehaviour samplePlatform).react ReconnectLog.note)
        (startedSession (lit "00") none sampleRelay, {}) hostNotFound).map (fun p => p.2.waits) =
          some [500, 1000, 2000] :=
  ⟨reconnect_policy samplePlatform sampleRelay (lit "00") none _ (by decide), by decide +kernel⟩

end Monitostr.Net
