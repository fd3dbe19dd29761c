import Monitostr.Net.SeedRefinement

/-! # What is said to a seed, and how long it takes

Whatever a seed answers, its calls are made in one order: the opening, a query of kind 10002, a query of
kind 3 when the first has no relays, and the close. A query is a REQ, its reads, and the CLOSE of the same
subscription, so at most one subscription is open. Every read is begun in the window of its query, which
bounds the time of the whole search by the time that one call takes.
-/

namespace Monitostr.Net
open Foundations Model Nostr
set_option autoImplicit false

variable {pf : Platform} {seedRelayUrl hexPubkey : Str} {parsed : ParsedRelayUrl}

/-! ## The order of the calls -/

/-- A step, with the call that it makes. -/
def SeedStage.react (pf : Platform) (seedRelayUrl hexPubkey : Str) (parsed : ParsedRelayUrl)
    (stage : SeedStage) (r : SeedReturn) : Option (SeedStage × Option SeedCall) :=
  (stage.step pf seedRelayUrl hexPubkey parsed r).map fun stage' => (stage', stage'.call parsed)

/-- The calls of a conversation, in the order in which they are made. -/
def noteCalls (calls : List SeedCall) (_ : SeedStage) (_ : SeedReturn)
    (result : SeedStage × Option SeedCall) : List SeedCall :=
  calls ++ result.2.toList

/-- The calls before the first query. -/
def openingCalls (parsed : ParsedRelayUrl) : List SeedCall :=
  [.resolve parsed.host parsed.port, .connect] ++
    (if parsed.secure then [.setSni parsed.host, .tlsHandshake] else []) ++
    [.wsHandshake parsed.host parsed.target]

def frameOf (pf : Platform) (message : Json) : Str := (pf.dumpJson message).getD []

/-- The calls of a query, with that many reads. -/
def queryCalls (pf : Platform) (hexPubkey : Str) (query : SeedQuery) (reads : ℕ) : List SeedCall :=
  .write (frameOf pf (reqMessage hexPubkey query)) ::
    (List.replicate reads .read ++ [.write (frameOf pf (closeMessage query))])

/-- The calls before a query. -/
def CallsBefore (pf : Platform) (hexPubkey : Str) (parsed : ParsedRelayUrl) :
    SeedQuery → List SeedCall → Prop
  | .kind10002, calls => calls = openingCalls parsed
  | .kind3, calls => ∃ reads, calls = openingCalls parsed ++ queryCalls pf hexPubkey .kind10002 reads

/-- A whole conversation: `second` are the reads of the second query, when it is asked. -/
def conversation (pf : Platform) (hexPubkey : Str) (parsed : ParsedRelayUrl) (first : ℕ)
    (second : Option ℕ) : List SeedCall :=
  openingCalls parsed ++ queryCalls pf hexPubkey .kind10002 first ++
    (second.map (queryCalls pf hexPubkey .kind3)).getD [] ++ [.close]

/-- The calls so far are the beginning of a conversation, and all of it but the close has been said when a
result is at hand. The second query is left out exactly when the first has relays. -/
def Converses (pf : Platform) (hexPubkey : Str) (parsed : ParsedRelayUrl)
    (p : SeedStage × List SeedCall) : Prop :=
  ∃ first second, p.2 <+: conversation pf hexPubkey parsed first second ∧
    ∀ result, p.1 = .closing result → p.2 = conversation pf hexPubkey parsed first second ∧
      (second = none ↔ result.sourceEventKind = lit "10002")

/-- What has been said when a stage is reached. -/
def Said (pf : Platform) (hexPubkey : Str) (parsed : ParsedRelayUrl) :
    SeedStage → List SeedCall → Prop
  | .resolving, calls => calls = [.resolve parsed.host parsed.port]
  | .connecting, calls => calls = [.resolve parsed.host parsed.port, .connect]
  | .settingSni, calls => parsed.secure = true ∧
      calls = [.resolve parsed.host parsed.port, .connect, .setSni parsed.host]
  | .securing, calls => parsed.secure = true ∧
      calls = [.resolve parsed.host parsed.port, .connect, .setSni parsed.host, .tlsHandshake]
  | .upgrading, calls => calls = openingCalls parsed
  | .requesting query _, calls => ∃ before, CallsBefore pf hexPubkey parsed query before ∧
      calls = before ++ [.write (frameOf pf (reqMessage hexPubkey query))]
  | .reading query _ _, calls => ∃ before reads, CallsBefore pf hexPubkey parsed query before ∧
      calls = before ++ .write (frameOf pf (reqMessage hexPubkey query)) :: List.replicate reads .read
  | .unsubscribing query _ _, calls => ∃ before reads, CallsBefore pf hexPubkey parsed query before ∧
      calls = before ++ queryCalls pf hexPubkey query reads
  | .closing result, calls => ∃ first second, calls = conversation pf hexPubkey parsed first second ∧
      (second = none ↔ result.sourceEventKind = lit "10002")
  | .finished _, calls => ∃ first second, calls <+: conversation pf hexPubkey parsed first second

theorem callsBefore_prefix {query : SeedQuery} {before : List SeedCall}
    (h : CallsBefore pf hexPubkey parsed query before) (reads : ℕ) :
    ∃ first second, before ++ queryCalls pf hexPubkey query reads <+:
      conversation pf hexPubkey parsed first second := by
  cases query with
  | kind10002 =>
    subst h
    exact ⟨reads, none, by simp [conversation]⟩
  | kind3 =>
    obtain ⟨first, rfl⟩ := h
    exact ⟨first, some reads, by simp [conversation]⟩

theorem opening_prefix : openingCalls parsed <+: conversation pf hexPubkey parsed 0 none := by
  simp only [conversation, List.append_assoc]
  exact List.prefix_append _ _

/-- What has been said is the beginning of a conversation. -/
theorem Said.converses {stage : SeedStage} {calls : List SeedCall}
    (h : Said pf hexPubkey parsed stage calls) : Converses pf hexPubkey parsed (stage, calls) := by
  have hopening : ∀ {calls : List SeedCall}, calls <+: openingCalls parsed →
      calls <+: conversation pf hexPubkey parsed 0 none := fun hcalls => hcalls.trans opening_prefix
  cases stage with
  | resolving =>
    subst h
    refine ⟨0, none, hopening ?_, nofun⟩
    simp [openingCalls]
  | connecting =>
    subst h
    refine ⟨0, none, hopening ?_, nofun⟩
    simp [openingCalls]
  | settingSni =>
    obtain ⟨hsecure, rfl⟩ := h
    refine ⟨0, none, hopening ?_, nofun⟩
    simp [openingCalls, hsecure]
  | securing =>
    obtain ⟨hsecure, rfl⟩ := h
    refine ⟨0, none, hopening ?_, nofun⟩
    simp [openingCalls, hsecure]
  | upgrading =>
    subst h
    exact ⟨0, none, opening_prefix, nofun⟩
  | requesting query frame =>
    obtain ⟨before, hbefore, rfl⟩ := h
    obtain ⟨first, second, hprefix⟩ := callsBefore_prefix hbefore 0
    refine ⟨first, second, List.IsPrefix.trans ?_ hprefix, nofun⟩
    simp [queryCalls]
  | reading query started relayUrls =>
    obtain ⟨before, reads, hbefore, rfl⟩ := h
    obtain ⟨first, second, hprefix⟩ := callsBefore_prefix hbefore reads
    refine ⟨first, second, List.IsPrefix.trans ?_ hprefix, nofun⟩
    simp [queryCalls]
  | unsubscribing query frame relayUrls =>
    obtain ⟨before, reads, hbefore, rfl⟩ := h
    obtain ⟨first, second, hprefix⟩ := callsBefore_prefix hbefore reads
    exact ⟨first, second, hprefix, nofun⟩
  | closing result =>
    obtain ⟨first, second, rfl, hsecond⟩ := h
    refine ⟨first, second, List.prefix_refl _, fun other hother => ⟨rfl, ?_⟩⟩
    rwa [← SeedStage.closing.inj hother]
  | finished outcome =>
    obtain ⟨first, second, hprefix⟩ := h
    exact ⟨first, second, hprefix, nofun⟩

/-! ## A step of the conversation -/

theorem frameOf_eq {message : Json} {frame : Str} (h : pf.dumpJson message = some frame) :
    frameOf pf message = frame := by
  rw [frameOf, h]
  rfl

/-- A query that is asked next is the first, or the second after a first with no relays. -/
theorem said_ask {query : SeedQuery} {calls : List SeedCall}
    (h : CallsBefore pf hexPubkey parsed query calls) (r : SeedReturn) :
    Said pf hexPubkey parsed (ask pf hexPubkey query r)
      (calls ++ ((ask pf hexPubkey query r).call parsed).toList) := by
  rw [ask]
  cases hdump : pf.dumpJson (reqMessage hexPubkey query) with
  | none =>
    obtain ⟨first, second, hprefix⟩ := callsBefore_prefix h 0
    exact ⟨first, second, by simpa [SeedStage.call] using (List.prefix_append _ _).trans hprefix⟩
  | some frame => exact ⟨calls, h, by rw [frameOf_eq hdump]; rfl⟩

theorem said_leaveLoop {query : SeedQuery} {before : List SeedCall}
    (h : CallsBefore pf hexPubkey parsed query before) (reads : ℕ) (relayUrls : List Str)
    (r : SeedReturn) :
    Said pf hexPubkey parsed (leaveLoop pf query relayUrls r)
      (before ++ .write (frameOf pf (reqMessage hexPubkey query)) :: List.replicate reads .read ++
        ((leaveLoop pf query relayUrls r).call parsed).toList) := by
  rw [leaveLoop]
  cases hdump : pf.dumpJson (closeMessage query) with
  | none =>
    obtain ⟨first, second, hprefix⟩ := callsBefore_prefix h reads
    refine ⟨first, second, List.IsPrefix.trans ?_ hprefix⟩
    simp [SeedStage.call, queryCalls]
  | some frame =>
    refine ⟨before, reads, h, ?_⟩
    rw [queryCalls, frameOf_eq hdump]
    simp [SeedStage.call]

theorem said_readOn {query : SeedQuery} {before : List SeedCall}
    (h : CallsBefore pf hexPubkey parsed query before) (reads started : ℕ) (relayUrls : List Str)
    (r : SeedReturn) :
    Said pf hexPubkey parsed (readOn pf query started relayUrls r)
      (before ++ .write (frameOf pf (reqMessage hexPubkey query)) :: List.replicate reads .read ++
        ((readOn pf query started relayUrls r).call parsed).toList) := by
  rw [readOn]
  split
  · refine ⟨before, reads + 1, h, ?_⟩
    rw [List.replicate_succ']
    simp [SeedStage.call]
  · exact said_leaveLoop h reads relayUrls r

theorem said_afterQuery {query : SeedQuery} {before : List SeedCall}
    (h : CallsBefore pf hexPubkey parsed query before) (reads : ℕ) (relays : List Str)
    (r : SeedReturn) :
    Said pf hexPubkey parsed (afterQuery pf hexPubkey query relays r)
      (before ++ queryCalls pf hexPubkey query reads ++
        ((afterQuery pf hexPubkey query relays r).call parsed).toList) := by
  cases query with
  | kind10002 =>
    subst h
    rw [afterQuery]
    split
    · exact ⟨reads, none, by simp [conversation, SeedStage.call], by simp⟩
    · have hbefore : CallsBefore pf hexPubkey parsed .kind3
          (openingCalls parsed ++ queryCalls pf hexPubkey .kind10002 reads) := ⟨reads, rfl⟩
      exact said_ask hbefore r
  | kind3 =>
    obtain ⟨first, rfl⟩ := h
    have hthree : lit "3" ≠ lit "10002" := by decide
    have hnone : lit "none" ≠ lit "10002" := by decide
    rw [afterQuery]
    split
    · exact ⟨first, some reads, by simp [conversation, SeedStage.call], by simp [hthree]⟩
    · exact ⟨first, some reads, by simp [conversation, SeedStage.call], by simp [hnone]⟩

theorem Said.thrown {stage : SeedStage} {calls : List SeedCall}
    (h : Said pf hexPubkey parsed stage calls) (outcome : Except Str (BootstrapResult × List LogLine)) :
    Said pf hexPubkey parsed (.finished outcome) calls := by
  obtain ⟨first, second, hprefix, -⟩ := h.converses
  exact ⟨first, second, hprefix⟩

theorem Said.returned {stage : SeedStage} {calls : List SeedCall}
    (h : Said pf hexPubkey parsed stage calls) (r : SeedReturn) :
    Said pf hexPubkey parsed (stage.returned pf seedRelayUrl hexPubkey parsed r)
      (calls ++ ((stage.returned pf seedRelayUrl hexPubkey parsed r).call parsed).toList) := by
  cases stage with
  | resolving =>
    subst h
    rfl
  | connecting =>
    subst h
    cases hsecure : parsed.secure with
    | true =>
      have hnext : SeedStage.returned pf seedRelayUrl hexPubkey parsed .connecting r = .settingSni :=
        if_pos hsecure
      rw [hnext]
      exact ⟨hsecure, rfl⟩
    | false =>
      have hnext : SeedStage.returned pf seedRelayUrl hexPubkey parsed .connecting r = .upgrading :=
        if_neg (by simp [hsecure])
      rw [hnext, Said, openingCalls, hsecure]
      rfl
  | settingSni =>
    obtain ⟨hsecure, rfl⟩ := h
    cases hset : r.sniSet with
    | true =>
      have hnext : SeedStage.returned pf seedRelayUrl hexPubkey parsed .settingSni r = .securing :=
        if_pos hset
      rw [hnext]
      exact ⟨hsecure, rfl⟩
    | false =>
      have hnext : SeedStage.returned pf seedRelayUrl hexPubkey parsed .settingSni r =
          .finished (.ok ({ error := lit "failed to set SNI" }, [])) := if_neg (by simp [hset])
      have hsaid : Said pf hexPubkey parsed .settingSni
          [.resolve parsed.host parsed.port, .connect, .setSni parsed.host] := ⟨hsecure, rfl⟩
      rw [hnext]
      exact hsaid.thrown _
  | securing =>
    obtain ⟨hsecure, rfl⟩ := h
    rw [SeedStage.returned, Said, openingCalls, hsecure]
    rfl
  | upgrading =>
    have hbefore : CallsBefore pf hexPubkey parsed .kind10002 calls := h
    exact said_ask hbefore r
  | requesting query frame =>
    obtain ⟨before, hbefore, rfl⟩ := h
    exact said_readOn hbefore 0 r.started [] r
  | reading query started relayUrls =>
    obtain ⟨before, reads, hbefore, rfl⟩ := h
    rw [SeedStage.returned]
    dsimp only
    split
    · exact said_leaveLoop hbefore reads _ r
    · exact said_readOn hbefore reads started _ r
  | unsubscribing query frame relayUrls =>
    obtain ⟨before, reads, hbefore, rfl⟩ := h
    exact said_afterQuery hbefore reads _ r
  | closing result =>
    have hdone := h.thrown (.ok (supportedOrFallback seedRelayUrl result))
    rw [SeedStage.returned, SeedStage.call, Option.toList_none, List.append_nil]
    exact hdone
  | finished outcome =>
    rw [SeedStage.returned, SeedStage.call, Option.toList_none, List.append_nil]
    exact h

theorem Said.step {p q : SeedStage × List SeedCall} {r : SeedReturn}
    (h : Said pf hexPubkey parsed p.1 p.2)
    (hstep : watched (SeedStage.react pf seedRelayUrl hexPubkey parsed) noteCalls p r = some q) :
    Said pf hexPubkey parsed q.1 q.2 := by
  obtain ⟨call, hreact, hnote⟩ := watched_eq_some.mp hstep
  obtain ⟨stage', hstage, hpair⟩ := Option.map_eq_some_iff.mp hreact
  obtain ⟨rfl, rfl⟩ := Prod.mk.inj hpair
  rw [hnote, noteCalls]
  rcases SeedStage.step_cases hstage with ⟨what, hq⟩ | hq
  · rw [hq, SeedStage.call, Option.toList_none, List.append_nil]
    exact h.thrown _
  · rw [hq]
    exact h.returned r

/-- **The conversation with a seed.** Whatever the seed answers and however its calls fail, the calls made
so far are the beginning of a conversation, and when a result is at hand the whole of it has been said.
The frames can be read back as the messages that they are for. -/
theorem seed_conversation (hjson : ParseInvertsDump pf) (hpubkey : IsUtf8 hexPubkey)
    (seedRelayUrl : Str) (parsed : ParsedRelayUrl) (returns : List SeedReturn) :
    (∀ query, pf.parseJson (frameOf pf (reqMessage hexPubkey query)) = some (reqMessage hexPubkey query) ∧
      pf.parseJson (frameOf pf (closeMessage query)) = some (closeMessage query)) ∧
    Throughout (watched (SeedStage.react pf seedRelayUrl hexPubkey parsed) noteCalls)
      (Converses pf hexPubkey parsed) (.resolving, [.resolve parsed.host parsed.port]) returns := by
  constructor
  · intro query
    obtain ⟨req, hreq, hreqRead⟩ := hjson _ (queryMessages_plain hpubkey query).1
    obtain ⟨close, hclose, hcloseRead⟩ := hjson _ (queryMessages_plain hpubkey query).2
    rw [frameOf_eq hreq, frameOf_eq hclose]
    exact ⟨hreqRead, hcloseRead⟩
  · refine throughout_keeps (I := fun p => Said pf hexPubkey parsed p.1 p.2) (G := fun _ _ => True)
      (fun _ _ _ h _ hstep => Said.step h hstep) (fun _ h => h.converses) ?_
      (along_of_forall fun _ _ _ => trivial)
    rfl

/-- The first query has no relays, so the second is asked. -/
theorem seed_conversation_second :
    Throughout (watched (SeedStage.react textPlatform (lit "wss://nos.lol") (lit "00")
        ⟨true, lit "nos.lol", lit "443", lit "/"⟩) noteCalls)
      (Converses textPlatform (lit "00") ⟨true, lit "nos.lol", lit "443", lit "/"⟩)
      (.resolving, [.resolve (lit "nos.lol") (lit "443")])
      [{}, {}, {}, {}, {}, { now := kQueryWindow }, {}, {}, { now := kQueryWindow }, {}, {}] :=
  (seed_conversation RelaySession.textPlatform_laws.1 (isUtf8_of_all rfl) _
    ⟨true, lit "nos.lol", lit "443", lit "/"⟩ _).2

/-! ## How long a search takes -/

/-- The clock after each call. -/
def noteClock (_ : ℕ) (_ : SeedSearch) (r : SeedReturn) (_ : SeedSearch × Unit) : ℕ := r.now

def SeedSearch.react (pf : Platform) (hexPubkey : Str) (search : SeedSearch) (r : SeedReturn) :
    Option (SeedSearch × Unit) :=
  (search.step pf hexPubkey r).map fun search' => (search', ())

/-- A call returns in `D`, and the clock does not go back. -/
def ReturnsIn (D : ℕ) (p : SeedSearch × ℕ) (r : SeedReturn) : Prop :=
  p.2 ≤ r.started ∧ r.started ≤ r.now ∧ r.now ≤ p.2 + D

/-- The time that one seed takes, when each call takes at most `D`. -/
def seedTime (D : ℕ) : ℕ := 12 * D + 2 * kQueryWindow

/-- How late it can be in a stage of a seed that is asked at `t`. -/
def InTime (D t : ℕ) : SeedStage → ℕ → Prop
  | .resolving, now => now ≤ t
  | .connecting, now => now ≤ t + D
  | .settingSni, now => now ≤ t + 2 * D
  | .securing, now => now ≤ t + 3 * D
  | .upgrading, now => now ≤ t + 4 * D
  | .requesting .kind10002 _, now => now ≤ t + 5 * D
  | .reading .kind10002 started _, now => started ≤ t + 6 * D ∧ now < started + kQueryWindow
  | .unsubscribing .kind10002 _ _, now => now ≤ t + 7 * D + kQueryWindow
  | .requesting .kind3 _, now => now ≤ t + 8 * D + kQueryWindow
  | .reading .kind3 started _, now => started ≤ t + 9 * D + kQueryWindow ∧ now < started + kQueryWindow
  | .unsubscribing .kind3 _ _, now => now ≤ t + 10 * D + 2 * kQueryWindow
  | .closing _, now => now ≤ t + 11 * D + 2 * kQueryWindow
  | .finished _, now => now ≤ t + seedTime D

/-- There is time left for the outstanding call. -/
theorem InTime.left {D t now : ℕ} {stage : SeedStage} (h : InTime D t stage now)
    (hstage : ∀ outcome, stage ≠ .finished outcome) : now + D ≤ t + seedTime D := by
  rw [seedTime]
  cases stage with
  | requesting query _ | reading query _ _ | unsubscribing query _ _ =>
    cases query <;> simp only [InTime] at h <;> omega
  | finished outcome => exact absurd rfl (hstage outcome)
  | _ => simp only [InTime] at h; omega

theorem inTime_ask {D t : ℕ} {query : SeedQuery} {r : SeedReturn}
    (h : ∀ frame, InTime D t (.requesting query frame) r.now) :
    InTime D t (ask pf hexPubkey query r) r.now := by
  rw [ask]
  cases pf.dumpJson (reqMessage hexPubkey query) with
  | none => exact Nat.le_trans (Nat.le_add_right _ D) ((h []).left fun _ hend => by cases hend)
  | some frame => exact h frame

theorem inTime_leaveLoop {D t : ℕ} {query : SeedQuery} {relayUrls : List Str} {r : SeedReturn}
    (h : ∀ frame, InTime D t (.unsubscribing query frame relayUrls) r.now) :
    InTime D t (leaveLoop pf query relayUrls r) r.now := by
  rw [leaveLoop]
  cases pf.dumpJson (closeMessage query) with
  | none => exact Nat.le_trans (Nat.le_add_right _ D) ((h []).left fun _ hend => by cases hend)
  | some frame => exact h frame

theorem InTime.returned {D t now : ℕ} {stage : SeedStage} {r : SeedReturn}
    (h : InTime D t stage now) (hstarted : now ≤ r.started) (hnow : r.started ≤ r.now)
    (hin : r.now ≤ now + D) (hstage : ∀ outcome, stage ≠ .finished outcome) :
    InTime D t (stage.returned pf seedRelayUrl hexPubkey parsed r) r.now := by
  have hleft := h.left hstage
  cases stage with
  | resolving | securing => simp only [InTime, SeedStage.returned] at h ⊢; omega
  | connecting =>
    simp only [InTime] at h
    rw [SeedStage.returned]
    split <;> simp only [InTime] <;> omega
  | settingSni =>
    simp only [InTime] at h
    rw [SeedStage.returned]
    split <;> simp only [InTime] <;> omega
  | upgrading =>
    simp only [InTime] at h
    refine inTime_ask fun frame => ?_
    simp only [InTime]
    omega
  | requesting query frame =>
    rw [SeedStage.returned, readOn]
    split
    · cases query <;> simp only [InTime] at h ⊢ <;> omega
    · refine inTime_leaveLoop fun frame => ?_
      cases query <;> simp only [InTime] at h ⊢ <;> omega
  | reading query started relayUrls =>
    have hleave : ∀ frame relayUrls, InTime D t (.unsubscribing query frame relayUrls) r.now := by
      intro frame relayUrls
      cases query <;> simp only [InTime] at h ⊢ <;> omega
    rw [SeedStage.returned]
    dsimp only
    split
    · exact inTime_leaveLoop fun frame => hleave frame _
    · rw [readOn]
      split
      · cases query <;> simp only [InTime] at h ⊢ <;> omega
      · exact inTime_leaveLoop fun frame => hleave frame _
  | unsubscribing query frame relayUrls =>
    rw [SeedStage.returned]
    cases query with
    | kind10002 =>
      simp only [InTime] at h
      rw [afterQuery]
      split
      · simp only [InTime]
        omega
      · refine inTime_ask fun frame => ?_
        simp only [InTime]
        omega
    | kind3 =>
      simp only [InTime] at h
      rw [afterQuery]
      split <;> simp only [InTime] <;> omega
  | closing result => exact Nat.le_trans hin hleft
  | finished outcome => exact absurd rfl (hstage outcome)

/-- The search began at `t`, and each candidate has its time. -/
def SearchInTime (D t : ℕ) (p : SeedSearch × ℕ) : Prop :=
  match p.1 with
  | .asking _ _ stage rest _ _ => (∀ outcome, stage ≠ .finished outcome) ∧
      ∃ begun, begun + (rest.length + 1) * seedTime D ≤ t + 6 * seedTime D ∧ InTime D begun stage p.2
  | .ended _ _ => p.2 ≤ t + 6 * seedTime D

theorem searchInTime_tryNext {D t now : ℕ} (candidates : List Str) (result : BootstrapResult)
    (logs : List LogLine) (h : now + candidates.length * seedTime D ≤ t + 6 * seedTime D) :
    SearchInTime D t (tryNext hexPubkey result logs candidates, now) := by
  induction candidates generalizing result logs with
  | nil => exact Nat.le_trans (Nat.le_add_right _ _) h
  | cons candidate rest ih =>
    have hrest : now + rest.length * seedTime D ≤ t + 6 * seedTime D := by
      rw [List.length_cons, Nat.succ_mul] at h
      omega
    rw [tryNext]
    dsimp only
    split
    · exact ih _ _ hrest
    · split
      · exact ih _ _ hrest
      · refine ⟨fun _ hend => ?_, now, h, Nat.le_refl now⟩
        cases hend

theorem SearchInTime.step {D t : ℕ} {p q : SeedSearch × ℕ} {r : SeedReturn}
    (h : SearchInTime D t p) (hin : ReturnsIn D p r)
    (hstep : watched (SeedSearch.react pf hexPubkey) noteClock p r = some q) : SearchInTime D t q := by
  obtain ⟨_, hreact, hnote⟩ := watched_eq_some.mp hstep
  obtain ⟨search', hsearch, hpair⟩ := Option.map_eq_some_iff.mp hreact
  obtain ⟨rfl, -⟩ := Prod.mk.inj hpair
  obtain ⟨search, now⟩ := p
  obtain ⟨hstarted, hnow, hlast⟩ := hin
  cases search with
  | ended result logs => cases hsearch
  | asking candidate parsed stage rest result logs =>
    obtain ⟨hstage, begun, hbegun, htime⟩ := h
    obtain ⟨stage', hstep', hq⟩ := Option.map_eq_some_iff.mp hsearch
    have htime' : InTime D begun stage' r.now := by
      rcases SeedStage.step_cases hstep' with ⟨what, rfl⟩ | rfl
      · exact Nat.le_trans hlast (htime.left hstage)
      · exact htime.returned hstarted hnow hlast hstage
    have hq' : q = (q.1, r.now) := Prod.ext rfl hnote
    rw [hq', ← hq]
    split
    · next outcome =>
      have hended : r.now ≤ begun + seedTime D := htime'
      have hrest : r.now + rest.length * seedTime D ≤ t + 6 * seedTime D := by
        rw [Nat.succ_mul] at hbegun
        omega
      rcases outcome with what | ⟨answer, seedLogs⟩
      · exact searchInTime_tryNext rest _ _ hrest
      · rw [afterSeed]
        split
        · exact Nat.le_trans (Nat.le_add_right _ _) hrest
        · exact searchInTime_tryNext rest _ _ hrest
    · next hother => exact ⟨hother, begun, hbegun, htime'⟩

/-- **A search ends in time.** When each call returns in `D`, a search that is begun at `t` is never at work
later than six seeds take, each twelve calls and two windows, whatever they send. -/
theorem seed_search_in_time (pf : Platform) (seedRelayUrl hexPubkey : Str) (D t : ℕ)
    (returns : List SeedReturn)
    (hin : Along (watched (SeedSearch.react pf hexPubkey) noteClock) (ReturnsIn D)
      (SeedSearch.start seedRelayUrl hexPubkey, t) returns) :
    Throughout (watched (SeedSearch.react pf hexPubkey) noteClock)
      (fun p => p.2 ≤ t + 6 * (12 * D + 2 * kQueryWindow))
      (SeedSearch.start seedRelayUrl hexPubkey, t) returns := by
  refine throughout_keeps (I := SearchInTime D t) (G := ReturnsIn D)
    (fun _ _ _ h hr hstep => h.step hr hstep) ?_ (searchInTime_tryNext _ _ _ (Nat.le_refl _)) hin
  rintro ⟨search, now⟩ h
  cases search with
  | ended result logs => exact h
  | asking candidate parsed stage rest result logs =>
    obtain ⟨hstage, begun, hbegun, htime⟩ := h
    have hleft := htime.left hstage
    rw [Nat.succ_mul] at hbegun
    change now ≤ t + 6 * seedTime D
    omega

/-- The first two calls take their time, and the TLS handshake after them fails. -/
theorem seed_search_in_time_failing :
    Throughout (watched (SeedSearch.react textPlatform (lit "00")) noteClock)
      (fun p => p.2 ≤ 0 + 6 * (12 * 5 + 2 * kQueryWindow))
      (SeedSearch.start kDefaultSeed (lit "00"), 0)
      [{ started := 1, now := 3 }, { started := 3, now := 8 }, { started := 8, now := 8 },
        { thrown := some (lit "stream truncated"), started := 9, now := 12 }] := by
  refine seed_search_in_time _ _ _ 5 0 _ fun p hp => ⟨by rw [ReturnsIn]; decide, fun q hq => ?_⟩
  obtain ⟨_, -, hp⟩ := watched_eq_some.mp hp
  refine ⟨by rw [ReturnsIn, hp, noteClock]; decide, fun u hu => ?_⟩
  obtain ⟨_, -, hq⟩ := watched_eq_some.mp hq
  refine ⟨by rw [ReturnsIn, hq, noteClock]; decide, fun v _ => ?_⟩
  obtain ⟨_, -, hu⟩ := watched_eq_some.mp hu
  exact ⟨by rw [ReturnsIn, hu, noteClock]; decide, trivial⟩

end Monitostr.Net
