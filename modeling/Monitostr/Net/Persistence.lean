import Monitostr.Net.Lifecycle
import Monitostr.Net.ReconnectPolicy
import Monitostr.Net.SessionTargets

/-! # A session is never stuck

As long as it is not stopped and its reconnect timers expire, a session has something to wait for. It has given
up only for a reason that it has reported: a URL that it cannot use, a failure after which no reconnect
follows, or the last of its reconnects.
-/

namespace Monitostr.Net
open Foundations Foundations.Behaviour Model
set_option autoImplicit false

variable {pf : Platform} {m : Moment} {s : RelaySession}

/-- An event of a session that is not stopped, nor started again, and whose reconnect timers expire. -/
def Undisturbed (session : SessionObject) : SessionEvent → Prop
  | .call c => c ≠ .start ∧ c ≠ .stop
  | .finish i o => ∀ q, session.inFlight[i]? = some q → q.op.isWait = true → q.cancelled = false → o.ec = none
  | .run m => ClockFits (.run m)

/-- The failures after which no reconnect follows. -/
def finalErrors : List Str := [lit "ws_handshake: ", lit "set_sni: "]

/-- The session has given up, with the reason that it has reported last. -/
inductive GaveUp (p : SessionObject × History) : Prop
  | unusable (text : Str) : p.2.getLast? = some (.error, text) → text ∈ invalidUrlTexts →
    ¬ p.1.data.Usable → GaveUp p
  | final (text ec : Str) : text ∈ finalErrors → p.2.getLast? = some (.error, text ++ ec) → GaveUp p
  | exhausted (text : Str) : p.2.getLast? = some (.error, text) →
    p.1.data.reconnectAttempt = kMaxReconnectAttempts → GaveUp p

/-- What a session has to wait for. -/
inductive Engaged (p : SessionObject × History) : Prop
  | starts : Item.call .start ∈ p.1.queue → outstandingOps AsyncOp.inSequence p.1 = [] → p.2 = [] →
    Engaged p
  | works (op : AsyncOp) : outstandingOps AsyncOp.inSequence p.1 = [op] → lastShown p.2 = op.shown →
    Engaged p
  | gaveUp : outstandingOps AsyncOp.inSequence p.1 = [] → GaveUp p → Engaged p

/-! ## The chain runs -/

/-- An operation of the chain is not cancelled, and a wait that has expired says so. -/
structure ChainRuns (o : SessionObject) : Prop where
  pending : ∀ q ∈ o.inFlight, q.op.inSequence = true → q.cancelled = false
  expired : ∀ delayMs outcome, Item.completion (.reconnectWait delayMs) outcome ∈ o.queue → outcome.ec = none

theorem eq_nil_of_concat_eq {α : Type} {xs before after : List α} {x y : α} (hx : x ∉ xs)
    (h : xs ++ [y] = before ++ x :: after) : after = [] := by
  rcases List.eq_nil_or_concat after with rfl | ⟨more, z, rfl⟩
  · rfl
  · have hlast : xs = before ++ x :: more := by
      have hsplit : xs ++ [y] = (before ++ x :: more) ++ [z] := by simpa using h
      exact (List.append_inj' hsplit rfl).1
    exact absurd (hlast ▸ by simp) hx

/-- A failure starts its wait after everything else. -/
theorem markError_effects (pf : Platform) (m : Moment) (s : RelaySession) (where_ ec : Str) :
    ∃ texts, (∀ op, Effect.start op ∉ texts) ∧ (s.markError pf m where_ ec).2 = texts ++
      if shouldReconnectAttempt s.stopped s.reconnectAttempt where_ then
        [.start (.reconnectWait (s.reconnectDelay pf m))]
      else [] := by
  rw [RelaySession.markError]
  dsimp only
  split
  · refine ⟨[_, _, _, .cancelTimer], ?_, rfl⟩
    simp [RelaySession.setStatus, RelaySession.error, RelaySession.warn]
  · refine ⟨_, ?_, (List.append_nil _).symm⟩
    simp [RelaySession.setStatus, RelaySession.error]

theorem markError_started_last {texts before after : List Effect} {where_ ec : Str} {op : AsyncOp}
    (htexts : ∀ op, Effect.start op ∉ texts)
    (h : texts ++ (s.markError pf m where_ ec).2 = before ++ .start op :: after) : after = [] := by
  obtain ⟨more, hmore, heffects⟩ := markError_effects pf m s where_ ec
  have hnone : ∀ op, Effect.start op ∉ texts ++ more :=
    fun op => List.not_mem_append (htexts op) (hmore op)
  rw [heffects, ← List.append_assoc] at h
  split at h
  · exact eq_nil_of_concat_eq (hnone op) h
  · rw [List.append_nil] at h
    exact absurd (h ▸ by simp) (hnone op)

/-- An operation of the chain is started after everything else. -/
theorem sequence_started_last {item : Item SessionCall AsyncOp Outcome} {before after : List Effect}
    {op : AsyncOp} (hop : op.inSequence = true)
    (h : (s.handle pf m item).2 = before ++ .start op :: after) : after = [] := by
  have hmem : Effect.start op ∈ (s.handle pf m item).2 := by
    rw [h]
    simp
  have hturn : RelaySession.Turn pf m s item (s.handle pf m item) := RelaySession.handle_turn item
  generalize s.handle pf m item = result at hturn h hmem
  cases hturn with
  | fail op' o ec => exact @markError_started_last _ _ _ [] _ _ _ _ _ (fun _ => List.not_mem_nil) h
  | failSni o ec text => exact @markError_started_last _ _ _ [.log .info text] _ _ _ _ _ (by simp) h
  | start => exact @eq_nil_of_concat_eq _ [_, _, _, _] _ _ _ _ (by simp [RelaySession.setStatus]) h
  | resolved | connected | secured =>
    exact @eq_nil_of_concat_eq _ [_, _] _ _ _ _ (by simp [RelaySession.setStatus]) h
  | subscribed host target o text last =>
    refine @eq_nil_of_concat_eq _ [_, _, _] _ _ _ _ ?_ h
    cases op <;> simp [RelaySession.setStatus, AsyncOp.inSequence] at hop ⊢
  | requested => exact @eq_nil_of_concat_eq _ [] _ _ _ _ List.not_mem_nil h
  | read o next hec hnext =>
    have hmessage : Effect.start op ∉ s.handleMessage pf m s.readBuffer := by
      intro hmessage
      obtain ⟨message, rfl⟩ := RelaySession.handleMessage_starts _ _ (mem_starts.mp hmessage)
      cases hop
    subst hnext
    split at h
    · have hall : s.handleMessage pf m s.readBuffer = before ++ .start op :: after :=
        (List.append_nil _).symm.trans h
      exact absurd (hall ▸ by simp) hmessage
    · exact eq_nil_of_concat_eq hmessage h
  | reconnect => exact @eq_nil_of_concat_eq _ [_, _, _] _ _ _ _ (by simp [RelaySession.setStatus]) h
  | stopOpen =>
    obtain rfl : op = .close := by simpa using hmem
    cases hop
  | _ => simp [RelaySession.setStatus] at hmem

theorem item_of_cancels {item : Item SessionCall AsyncOp Outcome} {effect : Effect} {op : AsyncOp}
    (h : effect ∈ (s.handle pf m item).2) (hcancels : effect.cancels op = true) :
    outside item = false ∨ item = .call .stop := by
  have hturn : RelaySession.Turn pf m s item (s.handle pf m item) := RelaySession.handle_turn item
  generalize s.handle pf m item = result at hturn h
  cases hturn with
  | fail op' o ec hop =>
    refine Or.inl ?_
    cases op' <;> first | rfl | cases hop
  | stopOpen | stopClosed => exact Or.inr rfl
  | setAuthKey | noNips => cases h
  | authWritten | closed =>
    obtain rfl := List.mem_singleton.mp h
    cases hcancels
  | nips =>
    simp only [List.mem_cons, List.not_mem_nil, or_false] at h
    rcases h with rfl | rfl <;> cases hcancels
  | _ => exact Or.inl rfl

theorem isCompletionOf_of_not_outside {item : Item SessionCall AsyncOp Outcome} (h : outside item = false) :
    (isCompletionOf AsyncOp.inSequence item).toNat + (isCallOf SessionCall.begins item).toNat ≠ 0 := by
  rw [outside] at h
  cases hc : isCompletionOf AsyncOp.inSequence item <;>
    cases hb : isCallOf SessionCall.begins item <;> simp [hc, hb] at h ⊢

theorem inSequence_of_isWait {op : AsyncOp} (h : op.isWait = true) : op.inSequence = true := by
  cases op with
  | reconnectWait delayMs => rfl
  | _ => cases h

theorem ChainRuns.run {o : SessionObject} {place : Place AsyncOp} {item : Item SessionCall AsyncOp Outcome}
    {rest : List (Item SessionCall AsyncOp Outcome)} (ho : ChainRuns o)
    (hat : IsAt SessionCall.begins AsyncOp.inSequence o place) (hq : o.queue = item :: rest)
    (hstop : item ≠ .call .stop) :
    ∀ q ∈ (sessionBehaviour pf).perform o.inFlight (o.data.handle pf m item).2,
      q.op.inSequence = true → q.cancelled = false := by
  intro q hmem hsequence
  rw [Bool.eq_false_iff]
  intro hcancelled
  rcases cancelled_of_mem_perform hmem with ⟨r, hr, hop, hmark⟩ | ⟨before, effect, after, heq, hstarts, hlater⟩
  · rcases hmark hcancelled with hold | ⟨effect, heffect, hcancels⟩
    · rw [ho.pending r hr (hop ▸ hsequence)] at hold
      cases hold
    · -- a handler that cancels something has no operation of the chain beside it
      have hinside := (item_of_cancels heffect hcancels).resolve_right hstop
      have hnone := (hat.leave hq (isCompletionOf_of_not_outside hinside)).2.2
      have hpending : r.op ∈ outstandingOps AsyncOp.inSequence { o with queue := rest } :=
        List.mem_filter.mpr ⟨List.mem_append_right _ (List.mem_map_of_mem hr), hop ▸ hsequence⟩
      rw [hnone] at hpending
      cases hpending
  · obtain rfl : effect = .start q.op := by
      cases effect with
      | start op => exact congrArg Effect.start (Option.some.inj hstarts)
      | _ => cases hstarts
    obtain ⟨later, hmore, -⟩ := hlater hcancelled
    rw [sequence_started_last hsequence heq] at hmore
    cases hmore

theorem ChainRuns.step {p q : SessionObject × History} {place : Place AsyncOp} {e : SessionEvent}
    (hp : ChainRuns p.1) (hat : IsAt SessionCall.begins AsyncOp.inSequence p.1 place)
    (hstop : Item.call .stop ∉ p.1.queue) (he : Undisturbed p.1 e) {effects : List Effect}
    (h : (sessionBehaviour pf).react p.1 e = some (q.1, effects)) : ChainRuns q.1 := by
  cases e with
  | call c =>
    obtain ⟨hafter, -⟩ := react_call.mp h
    rw [← hafter]
    refine ⟨hp.pending, fun delayMs outcome hmem => hp.expired delayMs outcome ?_⟩
    simpa using hmem
  | finish i outcome =>
    obtain ⟨f, hf, ⟨-, -, hafter⟩ | ⟨hd, hafter⟩⟩ := react_finish h
    · rw [hafter]
      refine ⟨fun q hq => hp.pending q (List.mem_of_mem_eraseIdx hq), fun delayMs out hmem => ?_⟩
      rcases List.mem_append.mp hmem with hmem | hmem
      · exact hp.expired delayMs out hmem
      · obtain ⟨hop, rfl⟩ := Item.completion.inj (List.mem_singleton.mp hmem)
        have hwait : f.op.isWait = true := hop ▸ rfl
        exact he f hf hwait (hp.pending f (List.mem_of_getElem? hf) (inSequence_of_isWait hwait))
    · rw [hafter]
      refine ⟨fun q hq hsequence => ?_, hp.expired⟩
      -- what bypasses the strand only reports
      have hquiet : ∀ effect ∈ effects, effect.starts = none ∧ ∀ op, effect.cancels op = false := by
        rcases RelaySession.direct_cases hd with ⟨-, rfl⟩ | ⟨message, rfl⟩ <;>
          simp [Effect.starts, Effect.cancels, RelaySession.setStatus, RelaySession.warn]
      rw [Bool.eq_false_iff]
      intro hcancelled
      rcases cancelled_of_mem_perform hq with ⟨r, hr, hop, hmark⟩ | ⟨before, effect, after, rfl, hstarts, -⟩
      · rcases hmark hcancelled with hold | ⟨effect, heffect, hcancels⟩
        · rw [hp.pending r (List.mem_of_mem_eraseIdx hr) (hop ▸ hsequence)] at hold
          cases hold
        · exact Bool.false_ne_true (((hquiet effect heffect).2 _).symm.trans hcancels)
      · have hnone := (hquiet effect (by simp)).1
        cases hnone.symm.trans hstarts
  | run m =>
    obtain ⟨item, rest, hq, -, hafter⟩ := react_run h
    rw [hafter]
    refine ⟨hp.run hat hq ?_, fun delayMs outcome hmem => ?_⟩
    · rintro rfl
      exact hstop (hq ▸ List.mem_cons_self)
    · exact hp.expired delayMs outcome (hq ▸ List.mem_cons_of_mem _ hmem)

/-! ## The undisturbed session -/

structure Persistent (relayUrl hexPubkey : Str) (p : SessionObject × History) (place : Place AsyncOp) :
    Prop where
  course : OnCourse p place
  target : Targeted relayUrl hexPubkey p.1.data
  running : p.1.data.stopped = false
  noStop : Item.call .stop ∉ p.1.queue
  chain : ChainRuns p.1
  bound : p.1.data.reconnectAttempt ≤ kMaxReconnectAttempts
  ended : place = .spent → GaveUp p

theorem Targeted.usable_iff {relayUrl hexPubkey : Str} {s s' : RelaySession}
    (hs : Targeted relayUrl hexPubkey s) (hs' : Targeted relayUrl hexPubkey s') : s'.Usable ↔ s.Usable := by
  have hsame : s'.restarted.parsedRelay = s.restarted.parsedRelay := by
    rw [RelaySession.restarted, RelaySession.restarted, hs.url, hs'.url]
  rw [RelaySession.Usable, RelaySession.Usable, hsame]

theorem Targeted.usable {relayUrl hexPubkey : Str} {s : RelaySession} (hs : Targeted relayUrl hexPubkey s)
    {parsed : ParsedRelayUrl} (hparsed : parseRelayUrl relayUrl = some parsed)
    (hsecure : parsed.secure = true) : s.Usable := by
  have hrelay : s.restarted.parsedRelay = parsed := by
    rw [RelaySession.restarted, hs.url, hparsed]
    rfl
  rw [RelaySession.Usable, hrelay]
  exact ⟨by simpa using parseRelayUrl_host hparsed, hsecure⟩

theorem GaveUp.congr {relayUrl hexPubkey : Str} {p q : SessionObject × History} (hp : GaveUp p)
    (htarget : Targeted relayUrl hexPubkey p.1.data) (htarget' : Targeted relayUrl hexPubkey q.1.data)
    (hhistory : q.2 = p.2) (hattempt : q.1.data.reconnectAttempt = p.1.data.reconnectAttempt) : GaveUp q := by
  cases hp with
  | unusable text hlast htext hnot =>
    exact .unusable text (hhistory ▸ hlast) htext (mt (htarget.usable_iff htarget').mp hnot)
  | final text ec htext hlast => exact .final text ec htext (hhistory ▸ hlast)
  | exhausted text hlast hmax => exact .exhausted text (hhistory ▸ hlast) (hattempt.trans hmax)

/-- An item that is not of the chain leaves the count of the reconnects. -/
theorem reconnectAttempt_outside {item : Item SessionCall AsyncOp Outcome} (h : outside item = true) :
    (s.handle pf m item).1.reconnectAttempt = s.reconnectAttempt := by
  have hturn : RelaySession.Turn pf m s item (s.handle pf m item) := RelaySession.handle_turn item
  generalize s.handle pf m item = result at hturn
  cases hturn with
  | fail op o ec hop => cases op <;> first | exact absurd h Bool.false_ne_true | exact absurd hop Bool.false_ne_true
  | stopOpen | stopClosed | setAuthKey | authWritten | closed | noNips | nips => rfl
  | _ => cases h

theorem reconnectAttempt_stays {o o' : SessionObject} {e : SessionEvent} {effects : List Effect}
    (h : (sessionBehaviour pf).react o e = some (o', effects))
    (hitem : ∀ item, handledItem o e = some item → outside item = true) :
    o'.data.reconnectAttempt = o.data.reconnectAttempt := by
  cases hhandled : handledItem o e with
  | none =>
    obtain ⟨-, buffer, hdata⟩ := react_without_handler hhandled h
    rw [hdata]
  | some item =>
    obtain ⟨m, rest, -, -, -, hdata, -⟩ := react_handler hhandled h
    rw [hdata]
    exact reconnectAttempt_outside (hitem item hhandled)

theorem reconnectAttempt_react_le {o o' : SessionObject} {e : SessionEvent} {effects : List Effect}
    (h : (sessionBehaviour pf).react o e = some (o', effects))
    (hle : o.data.reconnectAttempt ≤ kMaxReconnectAttempts) :
    o'.data.reconnectAttempt ≤ kMaxReconnectAttempts := by
  cases hhandled : handledItem o e with
  | none =>
    obtain ⟨-, buffer, hdata⟩ := react_without_handler hhandled h
    rw [hdata]
    exact hle
  | some item =>
    obtain ⟨m, rest, -, -, -, hdata, -⟩ := react_handler hhandled h
    rw [hdata]
    rcases o.data.handle_reconnects pf m item with ⟨-, hattempt⟩ | ⟨-, hattempt, hlt, -⟩
    · rw [hattempt]
      split
      · exact Nat.zero_le _
      · exact hle
    · rw [hattempt]
      exact hlt

/-- The handler of what a session is at leaves it with something to wait for, or it has given up. -/
theorem Progress.gaveUp {throws : Prop} {item : Item SessionCall AsyncOp Outcome}
    {reported : List (RelayStatus × Str)} {started : List AsyncOp} {q : SessionObject × History}
    {history : History} (h : Progress s throws item reported started) (hthrows : ¬ throws)
    (hrunning : s.stopped = false)
    (hexpired : ∀ delayMs outcome, item = .completion (.reconnectWait delayMs) outcome → outcome.ec = none)
    (hbound : s.reconnectAttempt ≤ kMaxReconnectAttempts) (hhistory : q.2 = history ++ reported)
    (husable : q.1.data.Usable ↔ s.Usable)
    (hattempt : completesHandshake item = false → q.1.data.reconnectAttempt = s.reconnectAttempt)
    (hnone : started = []) : GaveUp q := by
  have hlast : ∀ report, reported = [report] → q.2.getLast? = some report := by
    rintro report rfl
    rw [hhistory, List.getLast?_concat]
  cases h with
  | refuse text hnot htext => exact .unusable text (hlast _ rfl) htext (mt husable.mp hnot)
  | giveUp op o where_ ec hop hwhere hfailed hshould =>
    have hcases : s.reconnectAttempt = kMaxReconnectAttempts ∨ where_ ++ lit ": " ∈ finalErrors := by
      rw [Bool.eq_false_iff, Ne, shouldReconnectAttempt_iff] at hshould
      by_cases hlt : s.reconnectAttempt < kMaxReconnectAttempts
      · right
        have hother := fun hmem => hshould ⟨hrunning, hlt, hmem⟩
        rcases hwhere with rfl | rfl
        · cases op with
          | wsHandshake host target => exact .head _
          | reconnectWait | writeAuth | close | fetchNips => cases hop
          | _ => exact absurd (by simp [AsyncOp.where_]) hother
        · exact .tail _ (.head _)
      · exact Or.inl (Nat.le_antisymm hbound (Nat.le_of_not_lt hlt))
    rcases hcases with hmax | hfinal
    · refine .exhausted _ (hlast _ rfl) ((hattempt ?_).trans hmax)
      rcases hfailed with hfailed | rfl
      · cases op <;> simp [completesHandshake, Option.isNone_eq_false_iff.mpr hfailed]
      · rfl
    · exact .final _ ec hfinal (hlast _ rfl)
  | noRequest host target o hec hthrow => exact absurd hthrow hthrows
  | lastRead o hec hstop =>
    rcases hstop with hstop | hthrow
    · rw [hrunning] at hstop
      cases hstop
    · exact absurd hthrow hthrows
  | noReconnect delayMs o hstop =>
    rcases hstop with hfailed | hstop
    · rw [hexpired delayMs o rfl] at hfailed
      cases hfailed
    · rw [hrunning] at hstop
      cases hstop
  | start | retry | next | keep => cases hnone

theorem noStop_react {o o' : SessionObject} {e : SessionEvent} {effects : List Effect}
    (h : (sessionBehaviour pf).react o e = some (o', effects)) (he : ∀ c, e = .call c → c ≠ .stop)
    (ho : Item.call .stop ∉ o.queue) : Item.call .stop ∉ o'.queue := by
  cases e with
  | call c =>
    obtain ⟨rfl, -⟩ := react_call.mp h
    simpa [ho] using (he c rfl).symm
  | finish i outcome =>
    obtain ⟨f, -, ⟨-, -, rfl⟩ | ⟨-, rfl⟩⟩ := react_finish h
    · simpa using ho
    · exact ho
  | run m =>
    obtain ⟨item, rest, hq, -, rfl⟩ := react_run h
    exact fun hmem => ho (hq ▸ List.mem_cons_of_mem _ hmem)

theorem stopped_react {o o' : SessionObject} {e : SessionEvent} {effects : List Effect}
    (h : (sessionBehaviour pf).react o e = some (o', effects)) (ho : Item.call .stop ∉ o.queue)
    (hrunning : o.data.stopped = false) : o'.data.stopped = false := by
  cases hhandled : handledItem o e with
  | none =>
    obtain ⟨-, buffer, hdata⟩ := react_without_handler hhandled h
    rw [hdata]
    exact hrunning
  | some item =>
    obtain ⟨m, rest, -, hq, -, hdata, -⟩ := react_handler hhandled h
    rw [hdata, (o.data.handle_members pf m item).stopped]
    split
    · rfl
    · exact absurd (hq ▸ List.mem_cons_self) ho
    · exact hrunning

theorem start_mem_of_ahead {o : SessionObject} (h : IsAt SessionCall.begins AsyncOp.inSequence o .ahead) :
    Item.call .start ∈ o.queue := by
  have hcount : 0 < o.queue.countP (isCallOf SessionCall.begins) := by
    rw [h.1]
    exact Nat.one_pos
  obtain ⟨item, hmem, hbegins⟩ := List.countP_pos_iff.mp hcount
  cases item with
  | call c => cases c <;> first | exact hmem | cases hbegins
  | completion op o => cases hbegins

theorem Persistent.engaged {relayUrl hexPubkey : Str} {p : SessionObject × History} {place : Place AsyncOp}
    (hp : Persistent relayUrl hexPubkey p place) : Engaged p := by
  have hat := hp.course.isAt
  have hshown := hp.course.shown
  cases place with
  | ahead => exact .starts (start_mem_of_ahead hat) hat.2 hshown
  | busy op => exact .works op hat.2 hshown
  | spent => exact .gaveUp hat.2 (hp.ended rfl)

theorem persistent_started (relayUrl hexPubkey : Str) (authKey : Option Nostr.AuthKey) :
    Persistent relayUrl hexPubkey (SessionManager.startedSession hexPubkey authKey relayUrl, []) .ahead where
  course := onCourse_started hexPubkey authKey relayUrl
  target := targeted_startedSession hexPubkey authKey relayUrl
  running := rfl
  noStop := by simp [SessionManager.startedSession, dispatch]
  chain := ⟨List.forall_mem_nil _, by simp [SessionManager.startedSession, dispatch]⟩
  bound := Nat.zero_le _
  ended := nofun

section Undisturbed
variable (hjson : Nostr.ParseInvertsDump pf) (hutf8 : ParsesUtf8 pf) {relayUrl hexPubkey : Str}
  (hurl : IsUtf8 relayUrl) (hpubkey : IsUtf8 hexPubkey)
include hjson hutf8 hurl hpubkey

/-- A session keeps its place, or comes from it to the operation that its handler starts. -/
theorem Persistent.next {p q : SessionObject × History} {place : Place AsyncOp} {e : SessionEvent}
    (hp : Persistent relayUrl hexPubkey p place) (he : Undisturbed p.1 e)
    (h : watched (sessionBehaviour pf).react noteReports p e = some q) :
    Persistent relayUrl hexPubkey q place ∨ ∃ m item rest, e = .run m ∧ p.1.queue = item :: rest ∧
      Leaves SessionCall.begins AsyncOp.inSequence item place ∧
      Effect.throws ∉ (p.1.data.handle pf m item).2 ∧
      Persistent relayUrl hexPubkey q (.ofStarted (sequenceStarts (p.1.data.handle pf m item).2)) := by
  obtain ⟨effects, hreact, -⟩ := watched_eq_some.mp h
  have hbegins : isCallEvent SessionCall.begins e = false := by
    cases e with
    | call c => cases c <;> first | rfl | exact absurd rfl he.1
    | _ => rfl
  have hcalls : ∀ c, e = .call c → c ≠ .stop := by
    rintro c rfl
    exact he.2
  have htarget : Targeted relayUrl hexPubkey q.1.data := hp.target.react hreact
  have hrunning := stopped_react hreact hp.noStop hp.running
  have hnoStop := noStop_react hreact hcalls hp.noStop
  have hchain : ChainRuns q.1 := hp.chain.step hp.course.isAt hp.noStop he hreact
  have hbound := reconnectAttempt_react_le hreact hp.bound
  rcases hp.course.step hbegins h with
    ⟨hcourse, hhistory, hitem⟩ | ⟨m, item, rest, rfl, hq, hdata, hhistory, hleaves, hprogress, hcourse⟩
  · refine Or.inl ⟨hcourse, htarget, hrunning, hnoStop, hchain, hbound, fun hover => ?_⟩
    exact (hp.ended hover).congr hp.target htarget hhistory (reconnectAttempt_stays hreact hitem)
  · have hthrows := hp.target.no_throw hjson hutf8 hurl hpubkey he item
    refine Or.inr ⟨m, item, rest, rfl, hq, hleaves, hthrows, hcourse, htarget, hrunning, hnoStop, hchain,
      hbound, fun hover => ?_⟩
    have hnone : sequenceStarts (p.1.data.handle pf m item).2 = [] := by
      cases hstarts : sequenceStarts (p.1.data.handle pf m item).2 with
      | nil => rfl
      | cons op ops => rw [hstarts] at hover; cases hover
    refine hprogress.gaveUp hthrows hp.running ?_ hp.bound hhistory (hp.target.usable_iff htarget)
      (fun hopen => ?_) hnone
    · rintro delayMs outcome rfl
      exact hp.chain.expired delayMs outcome (hq ▸ List.mem_cons_self)
    · rw [hdata]
      rcases p.1.data.handle_reconnects pf m item with ⟨-, hattempt⟩ | ⟨hone, -⟩
      · rw [hattempt, hopen, if_neg Bool.false_ne_true]
      · have hwait : p.1.data.reconnectDelay pf m ∈ scheduledWaits (p.1.data.handle pf m item).2 := by
          rw [hone]
          exact List.mem_singleton_self _
        obtain ⟨op, hop, hdelay⟩ := List.mem_filterMap.mp hwait
        have hseq : op ∈ sequenceStarts (p.1.data.handle pf m item).2 :=
          List.mem_filter.mpr ⟨hop, by cases op <;> first | rfl | cases hdelay⟩
        rw [hnone] at hseq
        cases hseq

theorem Persistent.step {p q : SessionObject × History} {place : Place AsyncOp} {e : SessionEvent}
    (hp : Persistent relayUrl hexPubkey p place) (he : Undisturbed p.1 e)
    (h : watched (sessionBehaviour pf).react noteReports p e = some q) :
    ∃ place', Persistent relayUrl hexPubkey q place' := by
  rcases hp.next hjson hutf8 hurl hpubkey he h with hstays | ⟨_, _, _, -, -, -, -, hmoved⟩
  · exact ⟨place, hstays⟩
  · exact ⟨_, hmoved⟩

theorem persistent_throughout {P : SessionObject × History → Prop}
    (himp : ∀ p place, Persistent relayUrl hexPubkey p place → P p) (authKey : Option Nostr.AuthKey)
    {es : List SessionEvent}
    (hes : Along (watched (sessionBehaviour pf).react noteReports) (fun p => Undisturbed p.1)
      (SessionManager.startedSession hexPubkey authKey relayUrl, []) es) :
    Throughout (watched (sessionBehaviour pf).react noteReports) P
      (SessionManager.startedSession hexPubkey authKey relayUrl, []) es := by
  refine throughout_keeps (I := fun p => ∃ place, Persistent relayUrl hexPubkey p place)
    (G := fun p => Undisturbed p.1) ?_ ?_ ⟨.ahead, persistent_started relayUrl hexPubkey authKey⟩ hes
  · rintro p e q ⟨place, hp⟩ he h
    exact hp.step hjson hutf8 hurl hpubkey he h
  · rintro p ⟨place, hp⟩
    exact himp p place hp

/-- **A session is never stuck.** As long as a session that has been started is not stopped and its reconnect
timers expire, in every state, whatever the network and the relay have done, its `Start` is still to come,
or one operation of its chain is outstanding and the table shows which, or it has given up, having
reported that its URL cannot be used, a failed websocket handshake or `set_sni`, or the failure after the last
of its reconnects. -/
theorem never_stuck (authKey : Option Nostr.AuthKey) (es : List SessionEvent)
    (hes : Along (watched (sessionBehaviour pf).react noteReports) (fun p => Undisturbed p.1)
      (SessionManager.startedSession hexPubkey authKey relayUrl, []) es) :
    Throughout (watched (sessionBehaviour pf).react noteReports) Engaged
      (SessionManager.startedSession hexPubkey authKey relayUrl, []) es :=
  persistent_throughout hjson hutf8 hurl hpubkey (fun _ _ hp => hp.engaged) authKey hes

end Undisturbed

theorem never_stuck_without_sni :
    Throughout (watched (sessionBehaviour textPlatform).react noteReports) Engaged
      (SessionManager.startedSession (lit "00") none sampleRelay, [])
      [.run {}, .run {}, .finish 0 {}, .run {}, .finish 0 { sniError := some (lit "no memory") }, .run {}] := by
  refine never_stuck RelaySession.textPlatform_laws.1 textPlatform_parsesUtf8 (isUtf8_of_all rfl)
    (isUtf8_of_all rfl) none _ (along_of_forall fun e he p => ?_)
  simp only [List.mem_cons, List.not_mem_nil, or_false] at he
  rcases he with rfl | rfl | rfl | rfl | rfl | rfl <;> first | exact clockFits_start | exact fun _ _ _ _ => rfl

end Monitostr.Net
