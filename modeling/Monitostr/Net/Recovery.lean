import Monitostr.Net.Persistence
import Monitostr.Net.WindDown

/-! # A session recovers

Whatever has happened to a session that runs, it goes on as soon as nothing fails any more: each of its steps
brings it closer to reading what the relay sends, and there is always a next one. Only what has failed
before can still make it give up.
-/

namespace Monitostr.Net
open Foundations Foundations.Behaviour Model
set_option autoImplicit false

variable {pf : Platform} {m : Moment} {s : RelaySession}

/-- The completion of an operation of the chain is a failure. -/
def AsyncOp.fails : AsyncOp → Outcome → Bool
  | .connect, o => o.ec.isSome || o.sniError.isSome
  | .resolve _ _, o | .tlsHandshake, o | .wsHandshake _ _, o | .writeReq _, o | .read, o
  | .reconnectWait _, o => o.ec.isSome
  | .writeAuth _, _ | .close, _ | .fetchNips _, _ => false

/-- An event with which nothing of the chain fails, and no call stops the session or starts it again. -/
def GoesWell (session : SessionObject) : SessionEvent → Prop
  | .call c => c ≠ .start ∧ c ≠ .stop
  | .finish i o => ∀ q, session.inFlight[i]? = some q → q.op.fails o = false
  | .run m => ClockFits (.run m)

/-- A failure that is still to be handled. -/
def FailureQueued (session : SessionObject) : Prop :=
  ∃ op o, Item.completion op o ∈ session.queue ∧ op.fails o = true

/-- The session reads what the relay sends. -/
structure Reads (p : SessionObject × History) : Prop where
  reading : outstandingOps AsyncOp.inSequence p.1 = [.read]
  shown : lastShown p.2 = .subscribed
  sound : ¬ FailureQueued p.1

/-- Nothing of the chain is to come. -/
def Over (p : SessionObject × History) : Prop :=
  Item.call .start ∉ p.1.queue ∧ outstandingOps AsyncOp.inSequence p.1 = []

/-- Nothing stands in the way of the session. -/
structure Ready (p : SessionObject × History) : Prop where
  usable : p.1.data.Usable
  sound : ¬ FailureQueued p.1
  going : ¬ Over p

/-- The steps of the session until it reads, at most. -/
def stepsToRead (session : SessionObject) : ℕ := 19 * (session.queue.length + session.inFlight.length)

variable (pf) in
/-- As long as nothing fails, the session can go on at any moment, and comes to read after so many steps,
whatever their order, unless it gives up, which it does not when it is ready; and once it reads, it stays so. -/
structure Recovers (p : SessionObject × History) : Prop where
  goesOn : ∀ fs q, Along (watched (sessionBehaviour pf).react noteReports) (fun p => GoesWell p.1) p fs →
    run (watched (sessionBehaviour pf).react noteReports) p fs = some q → ∀ m, ClockFits (.run m) →
    Over q ∨ ∃ (io : SessionIo) (r : SessionObject × History), GoesWell q.1 (io.event m) ∧
      watched (sessionBehaviour pf).react noteReports q (io.event m) = some r
  inTime : ∀ fs q, Along (watched (sessionBehaviour pf).react noteReports) (fun p => GoesWell p.1) p fs →
    run (watched (sessionBehaviour pf).react noteReports) p fs = some q →
    stepsToRead p.1 + fs.countP (fun e => !isOwn e) < fs.countP isOwn → Reads q ∨ Over q
  keepsGoing : Ready p → ∀ fs q,
    Along (watched (sessionBehaviour pf).react noteReports) (fun p => GoesWell p.1) p fs →
    run (watched (sessionBehaviour pf).react noteReports) p fs = some q → ¬ Over q
  keepsReading : Reads p → ∀ fs q,
    Along (watched (sessionBehaviour pf).react noteReports) (fun p => GoesWell p.1) p fs →
    run (watched (sessionBehaviour pf).react noteReports) p fs = some q → Reads q

theorem GoesWell.undisturbed {session : SessionObject} {e : SessionEvent} (h : GoesWell session e) :
    Undisturbed session e := by
  cases e with
  | call c => exact h
  | finish i o =>
    intro q hq hwait _
    have hfails : q.op.fails o = false := h q hq
    cases hop : q.op with
    | reconnectWait delayMs =>
      rw [hop] at hfails
      exact Option.isNone_iff_eq_none.mp (Option.isSome_eq_false_iff.mp hfails)
    | _ => rw [hop] at hwait; cases hwait
  | run m => exact h

/-! ## The next operation of the chain -/

theorem ec_of_succeeds {op : AsyncOp} {o : Outcome} (hop : op.advances = true) (h : op.fails o = false) :
    o.ec = none := by
  cases hec : o.ec with
  | none => rfl
  | some ec =>
    exfalso
    cases op <;> first | exact absurd hop Bool.false_ne_true | simp [AsyncOp.fails, hec] at h

/-- A read that succeeds is followed by another. -/
theorem sequenceStarts_of_read {o : Outcome} (hec : o.ec = none) (hrunning : s.stopped = false)
    (hthrows : Effect.throws ∉ (s.handle pf m (.completion .read o)).2) :
    sequenceStarts (s.handle pf m (.completion .read o)).2 = [.read] := by
  have h : RelaySession.Turn pf m s (.completion .read o) (s.handle pf m (.completion .read o)) :=
    RelaySession.handle_turn _
  generalize s.handle pf m (.completion .read o) = result at h hthrows ⊢
  cases h with
  | fail op o ec hop hfailed =>
    rw [hec] at hfailed
    cases hfailed
  | read o next hec hnext =>
    have hgo : ¬ (s.stopped = true ∨ Effect.throws ∈ s.handleMessage pf m s.readBuffer) := by
      rintro (hstop | hthrow)
      · rw [hrunning] at hstop
        cases hstop
      · exact hthrows (List.mem_append_left _ hthrow)
    rw [if_neg hgo] at hnext
    rw [hnext, sequenceStarts_append, sequenceStarts_of_count (handleMessage_sequenceCount _)]
    rfl

/-- What does not fail is followed by the next operation of the chain. -/
theorem sequenceStarts_ne_nil {item : Item SessionCall AsyncOp Outcome} {place : Place AsyncOp}
    (hleaves : Leaves SessionCall.begins AsyncOp.inSequence item place) (husable : s.Usable)
    (hrunning : s.stopped = false) (hthrows : Effect.throws ∉ (s.handle pf m item).2)
    (hsound : ∀ op o, item = .completion op o → op.fails o = false) :
    sequenceStarts (s.handle pf m item).2 ≠ [] := by
  have hinside := outside_of_leaves hleaves
  have h : RelaySession.Turn pf m s item (s.handle pf m item) := RelaySession.handle_turn item
  by_cases hstart : item = .call .start
  · subst hstart
    have hprogress := onStart_progress (s := s) False
    intro hnone
    have hnone : sequenceStarts s.onStart.2 = [] := hnone
    rw [hnone] at hprogress
    generalize reports s.onStart.2 = reported at hprogress
    cases hprogress with
    | refuse text hnot => exact hnot husable
  by_cases hread : ∃ o, item = .completion .read o
  · obtain ⟨o, rfl⟩ := hread
    rw [sequenceStarts_of_read (ec_of_succeeds rfl (hsound _ _ rfl)) hrunning hthrows]
    exact List.cons_ne_nil _ _
  generalize s.handle pf m item = result at h hthrows ⊢
  cases h with
  | refuse | start => exact absurd rfl hstart
  | stopOpen | stopClosed | setAuthKey | authWritten | closed | noNips | nips => cases hinside
  | fail op o ec hop hec =>
    have hok := ec_of_succeeds hop (hsound _ _ rfl)
    rw [hec] at hok
    cases hok
  | failSni o ec text hec hsni =>
    have hok : AsyncOp.connect.fails o = false := hsound _ _ rfl
    simp [AsyncOp.fails, hsni] at hok
  | subscribed host target o text last hec hlast =>
    cases hreq : buildMonitorReqMessage pf s.hexPubkey with
    | none =>
      rw [hreq] at hlast
      exact absurd (hlast ▸ by simp) hthrows
    | some req =>
      rw [hreq] at hlast
      rw [hlast]
      exact List.cons_ne_nil _ _
  | read o => exact absurd ⟨o, rfl⟩ hread
  | noReconnect delayMs o hno =>
    have hok : (AsyncOp.reconnectWait delayMs).fails o = false := hsound _ _ rfl
    rcases hno with hfailed | hstopped
    · rw [AsyncOp.fails, hfailed] at hok
      cases hok
    · rw [hrunning] at hstopped
      cases hstopped
  | _ => exact List.cons_ne_nil _ _

/-! ## Where it is -/

section Where
variable {relayUrl hexPubkey : Str} {p q : SessionObject × History} {place : Place AsyncOp}

theorem Persistent.over_iff (hp : Persistent relayUrl hexPubkey p place) : Over p ↔ place = .spent := by
  have hat := hp.course.isAt
  cases place with
  | ahead => exact ⟨fun h => absurd (start_mem_of_ahead hat) h.1, fun h => by cases h⟩
  | busy op =>
    refine ⟨fun h => ?_, fun h => by cases h⟩
    have hnone := h.2
    rw [hat.2] at hnone
    cases hnone
  | spent =>
    refine ⟨fun _ => rfl, fun _ => ⟨fun hmem => ?_, hat.2⟩⟩
    exact List.countP_eq_zero.mp hat.1 _ hmem rfl

theorem Persistent.reads_iff (hp : Persistent relayUrl hexPubkey p place) :
    Reads p ↔ place = .busy .read ∧ ¬ FailureQueued p.1 := by
  have hat := hp.course.isAt
  constructor
  · intro h
    refine ⟨?_, h.sound⟩
    have hreading := h.reading
    cases place with
    | ahead | spent => rw [hat.2] at hreading; cases hreading
    | busy op =>
      rw [hat.2] at hreading
      rw [(List.cons.inj hreading).1]
  · rintro ⟨rfl, hsound⟩
    exact ⟨hat.2, hp.course.shown, hsound⟩

theorem inSequence_of_fails {op : AsyncOp} {o : Outcome} (h : op.fails o = true) : op.inSequence = true := by
  cases op <;> first | rfl | cases h

/-- The completion that a chain is at is the only one of the chain. -/
theorem not_failureQueued_of_leaves {session : SessionObject} {op : AsyncOp} {o : Outcome}
    {rest : List (Item SessionCall AsyncOp Outcome)}
    (hat : IsAt SessionCall.begins AsyncOp.inSequence session place)
    (hq : session.queue = .completion op o :: rest) (hop : op.inSequence = true) (ho : op.fails o = false) :
    ¬ FailureQueued session := by
  rintro ⟨op', o', hmem, hfails⟩
  have hnone := (hat.leave hq (by simp [isCompletionOf, hop])).2.2
  rw [hq] at hmem
  rcases List.mem_cons.mp hmem with hhead | hrest
  · obtain ⟨rfl, rfl⟩ := Item.completion.inj hhead
    rw [ho] at hfails
    cases hfails
  · have hpending : op' ∈ outstandingOps AsyncOp.inSequence { session with queue := rest } :=
      List.mem_filter.mpr ⟨List.mem_append_left _ (List.mem_filterMap.mpr ⟨_, hrest, rfl⟩),
        inSequence_of_fails hfails⟩
    rw [hnone] at hpending
    cases hpending

/-- What goes well brings no failure. -/
theorem failureQueued_react {session session' : SessionObject} {e : SessionEvent} {effects : List Effect}
    (he : GoesWell session e) (h : (sessionBehaviour pf).react session e = some (session', effects))
    (hfailure : FailureQueued session') : FailureQueued session := by
  obtain ⟨op, o, hmem, hfails⟩ := hfailure
  refine ⟨op, o, ?_, hfails⟩
  cases e with
  | call c =>
    obtain ⟨rfl, -⟩ := react_call.mp h
    simpa using hmem
  | finish i outcome =>
    obtain ⟨f, hf, ⟨-, -, rfl⟩ | ⟨-, rfl⟩⟩ := react_finish h
    · rcases List.mem_append.mp hmem with hmem | hmem
      · exact hmem
      · obtain ⟨rfl, rfl⟩ := Item.completion.inj (List.mem_singleton.mp hmem)
        rw [he f hf] at hfails
        cases hfails
    · exact hmem
  | run m =>
    obtain ⟨item, rest, hq, -, rfl⟩ := react_run h
    rw [hq]
    exact List.mem_cons_of_mem _ hmem

end Where

/-! ## The steps that are left -/

/-- The completion of an operation in flight and its handler, and what may follow until the session reads. -/
def AsyncOp.toRead : AsyncOp → ℕ
  | .reconnectWait _ => 18
  | op => op.weight

def itemToRead : Item SessionCall AsyncOp Outcome → ℕ
  | .call .start => 17
  | .call .stop | .call (.setAuthKey _) => 1
  | .completion op o => if op.fails o then 19 else op.toRead - 1

def toRead (session : SessionObject) : ℕ :=
  tally itemToRead session.queue + tally AsyncOp.toRead (session.inFlight.map InFlight.op)

def startedToRead (effects : List Effect) : ℕ := tally AsyncOp.toRead (effects.filterMap Effect.starts)

theorem AsyncOp.toRead_bounds (op : AsyncOp) : 2 ≤ op.toRead ∧ op.toRead ≤ 18 := by
  cases op <;> exact ⟨Nat.le_of_ble_eq_true rfl, Nat.le_of_ble_eq_true rfl⟩

theorem toRead_le (session : SessionObject) : toRead session ≤ stepsToRead session := by
  have hqueue : tally itemToRead session.queue ≤ 19 * session.queue.length := by
    refine tally_le fun item _ => ?_
    cases item with
    | call c => cases c <;> exact Nat.le_of_ble_eq_true rfl
    | completion op o =>
      have hbound := op.toRead_bounds.2
      rw [itemToRead]
      split <;> omega
  have hflight : tally AsyncOp.toRead (session.inFlight.map InFlight.op) ≤
      19 * (session.inFlight.map InFlight.op).length :=
    tally_le fun op _ => Nat.le_succ_of_le op.toRead_bounds.2
  rw [List.length_map] at hflight
  rw [toRead, stepsToRead]
  omega

theorem startedToRead_markError (where_ ec : Str) : startedToRead (s.markError pf m where_ ec).2 ≤ 18 := by
  cases hre : shouldReconnectAttempt s.stopped s.reconnectAttempt where_ with
  | false =>
    rw [startedToRead, (s.markError_of_not_reconnect pf m ec hre).2]
    exact Nat.zero_le 18
  | true =>
    rw [startedToRead, (s.markError_of_reconnect pf m ec hre).2]
    exact Nat.le_refl 18

theorem le_itemToRead (op : AsyncOp) (o : Outcome) : op.toRead - 1 ≤ itemToRead (.completion op o) := by
  have hbound := op.toRead_bounds.2
  rw [itemToRead]
  split <;> omega

theorem itemToRead_of_fails {op : AsyncOp} {o : Outcome} (h : op.fails o = true) :
    itemToRead (.completion op o) = 19 := by
  rw [itemToRead, if_pos h]

/-- A handler starts less than the weight of its item, but for that of a read that succeeds. -/
theorem startedToRead_handle {item : Item SessionCall AsyncOp Outcome} (hstop : item ≠ .call .stop)
    (hread : ∀ o, item = .completion .read o → AsyncOp.read.fails o = true) :
    startedToRead (s.handle pf m item).2 + 1 ≤ itemToRead item := by
  have h : RelaySession.Turn pf m s item (s.handle pf m item) := RelaySession.handle_turn item
  generalize s.handle pf m item = result at h ⊢
  cases h with
  | refuse | start | setAuthKey => exact Nat.le_of_ble_eq_true rfl
  | stopOpen | stopClosed => exact absurd rfl hstop
  | fail op o ec hop hec =>
    have hfails : op.fails o = true := by
      cases op <;> first | exact absurd hop Bool.false_ne_true | simp [AsyncOp.fails, hec]
    rw [itemToRead_of_fails hfails]
    exact Nat.succ_le_succ (startedToRead_markError _ _)
  | failSni o ec text hec hsni =>
    rw [itemToRead_of_fails (by simp [AsyncOp.fails, hsni])]
    exact Nat.succ_le_succ (startedToRead_markError _ _)
  | subscribed host target o text last hec hlast =>
    refine Nat.le_trans ?_ (le_itemToRead _ _)
    rw [hlast]
    split <;> exact Nat.le_of_ble_eq_true rfl
  | read o next hec =>
    have hfails := hread o rfl
    rw [AsyncOp.fails, hec] at hfails
    cases hfails
  | _ =>
    refine Nat.le_trans ?_ (le_itemToRead _ _)
    exact Nat.le_of_ble_eq_true rfl

/-- Until the session reads, a step of its own lowers the weight of what is left. -/
theorem toRead_react {session session' : SessionObject} {place : Place AsyncOp} {e : SessionEvent}
    {effects : List Effect} (hat : IsAt SessionCall.begins AsyncOp.inSequence session place)
    (hreads : ¬ (place = .busy .read ∧ ¬ FailureQueued session)) (hstop : Item.call .stop ∉ session.queue)
    (he : GoesWell session e) (h : (sessionBehaviour pf).react session e = some (session', effects)) :
    toRead session' + (isOwn e).toNat ≤ toRead session + (!isOwn e).toNat := by
  have hperform : ∀ (ops : List (InFlight AsyncOp)) (effects : List Effect),
      tally AsyncOp.toRead (((sessionBehaviour pf).perform ops effects).map InFlight.op) =
        tally AsyncOp.toRead (ops.map InFlight.op) + startedToRead effects := fun ops effects => by
    rw [perform_ops, tally_append]
    rfl
  cases e with
  | call c =>
    obtain ⟨rfl, -⟩ := react_call.mp h
    have hcall : itemToRead (.call c) = 1 := by
      cases c with
      | start => exact absurd rfl he.1
      | stop | setAuthKey => rfl
    simp only [toRead, tally_append, tally_cons, tally_nil, hcall, isOwn, Bool.toNat_false, Bool.not_false,
      Bool.toNat_true]
    omega
  | finish i outcome =>
    obtain ⟨f, hf, hcases⟩ := react_finish h
    have hpos := f.op.toRead_bounds.1
    have hflight : tally AsyncOp.toRead (session.inFlight.map InFlight.op) =
        f.op.toRead + tally AsyncOp.toRead ((session.inFlight.eraseIdx i).map InFlight.op) := by
      rw [tally_map, tally_map]
      exact tally_eraseIdx (fun p : InFlight AsyncOp => p.op.toRead) hf
    rcases hcases with ⟨-, -, rfl⟩ | ⟨hd, rfl⟩
    · have hitem : itemToRead (.completion f.op outcome) = f.op.toRead - 1 := by
        rw [itemToRead, he f hf, if_neg Bool.false_ne_true]
      simp only [toRead, tally_append, tally_cons, tally_nil, hitem, hflight, isOwn, Bool.toNat_true,
        Bool.not_true, Bool.toNat_false]
      omega
    · have hnone : startedToRead effects = 0 := by
        rcases RelaySession.direct_cases hd with ⟨-, rfl⟩ | ⟨message, rfl⟩ <;> rfl
      simp only [toRead, hperform, hnone, hflight, isOwn, Bool.toNat_true, Bool.not_true, Bool.toNat_false]
      omega
  | run m =>
    obtain ⟨item, rest, hq, -, rfl⟩ := react_run h
    have hitem : startedToRead (session.data.handle pf m item).2 + 1 ≤ itemToRead item := by
      refine startedToRead_handle ?_ ?_
      · rintro rfl
        exact hstop (hq ▸ List.mem_cons_self)
      · rintro o rfl
        -- a read that succeeds is that of a session that reads
        by_contra hfails
        rw [Bool.not_eq_true] at hfails
        refine hreads ⟨?_, not_failureQueued_of_leaves hat hq rfl hfails⟩
        exact ((hat.leave hq (by simp [isCompletionOf, AsyncOp.inSequence])).1.2)
    simp only [toRead, hperform, hq, tally_cons, isOwn, Bool.toNat_true, Bool.not_true, Bool.toNat_false]
    change _ + (_ + startedToRead (session.data.handle pf m item).2) + 1 ≤ _
    omega

/-! ## There is always a next step -/

theorem Persistent.goesOn {relayUrl hexPubkey : Str} {p : SessionObject × History} {place : Place AsyncOp}
    (hp : Persistent relayUrl hexPubkey p place) (hclock : ClockFits (.run m)) (hgoing : ¬ Over p) :
    ∃ (io : SessionIo) (q : SessionObject × History), GoesWell p.1 (io.event m) ∧
      watched (sessionBehaviour pf).react noteReports p (io.event m) = some q := by
  cases hq : p.1.queue with
  | cons item rest =>
    have hreact := react_run_cons (B := sessionBehaviour pf) m hq
    exact ⟨.run, (_, noteReports p.2 p.1 (.run m) (_, _)), hclock, watched_eq_some.mpr ⟨_, hreact, rfl⟩⟩
  | nil =>
    have hat := hp.course.isAt
    cases place with
    | ahead =>
      have hstart := start_mem_of_ahead hat
      rw [hq] at hstart
      cases hstart
    | spent => exact absurd (hp.over_iff.mpr rfl) hgoing
    | busy op =>
      -- with an empty queue the operation of the chain is in flight, and is not cancelled
      have hmem : op ∈ outstandingOps AsyncOp.inSequence p.1 := by
        rw [hat.2]
        exact List.mem_singleton_self op
      rw [outstandingOps, hq] at hmem
      obtain ⟨hflight, hsequence⟩ := List.mem_filter.mp hmem
      obtain ⟨f, hf, rfl⟩ := List.mem_map.mp hflight
      obtain ⟨i, hi⟩ := List.mem_iff_getElem?.mp hf
      have hlive := hp.chain.pending f hf hsequence
      have hdirect : (sessionBehaviour pf).direct p.1.data f.op {} = none := by
        cases hd : RelaySession.direct pf p.1.data f.op {} with
        | none => exact hd
        | some effects => rw [(reports_direct hd).2] at hsequence; cases hsequence
      have hwell : GoesWell p.1 (.finish i {}) := by
        intro f' hf'
        obtain rfl := Option.some.inj (hi.symm.trans hf')
        cases f.op <;> rfl
      have hreact := react_finish_queued (B := sessionBehaviour pf) hi hlive hdirect
      exact ⟨.finish i {}, (_, noteReports p.2 p.1 (.finish i {}) (_, _)), hwell,
        watched_eq_some.mpr ⟨_, hreact, rfl⟩⟩

/-! ## A session that nothing fails -/

section GoesWell
variable (hjson : Nostr.ParseInvertsDump pf) (hutf8 : ParsesUtf8 pf) {relayUrl hexPubkey : Str}
  (hurl : IsUtf8 relayUrl) (hpubkey : IsUtf8 hexPubkey) {p q : SessionObject × History}
  {place : Place AsyncOp} {e : SessionEvent}
include hjson hutf8 hurl hpubkey

theorem Persistent.reads_step (hp : Persistent relayUrl hexPubkey p place) (hreads : Reads p)
    (he : GoesWell p.1 e) (h : watched (sessionBehaviour pf).react noteReports p e = some q) : Reads q := by
  obtain ⟨effects, hreact, -⟩ := watched_eq_some.mp h
  obtain ⟨rfl, hsound⟩ := hp.reads_iff.mp hreads
  have hsound' : ¬ FailureQueued q.1 := fun hfailure => hsound (failureQueued_react he hreact hfailure)
  rcases hp.next hjson hutf8 hurl hpubkey he.undisturbed h with
    hstays | ⟨m, item, rest, rfl, hq, hleaves, hthrows, hmoved⟩
  · exact hstays.reads_iff.mpr ⟨rfl, hsound'⟩
  · -- the read is followed by the next one
    cases item with
    | call c => cases hleaves.2
    | completion op o =>
      obtain rfl : AsyncOp.read = op := Place.busy.inj hleaves.2
      have hok : AsyncOp.read.fails o = false :=
        Bool.eq_false_iff.mpr fun hfails => hsound ⟨_, o, hq ▸ List.mem_cons_self, hfails⟩
      rw [sequenceStarts_of_read (ec_of_succeeds rfl hok) hp.running hthrows] at hmoved
      exact hmoved.reads_iff.mpr ⟨rfl, hsound'⟩

theorem Persistent.over_step (hp : Persistent relayUrl hexPubkey p place) (hover : Over p)
    (he : GoesWell p.1 e) (h : watched (sessionBehaviour pf).react noteReports p e = some q) : Over q := by
  obtain rfl := hp.over_iff.mp hover
  rcases hp.next hjson hutf8 hurl hpubkey he.undisturbed h with
    hstays | ⟨m, item, rest, rfl, hq, hleaves, -⟩
  · exact hstays.over_iff.mpr rfl
  · cases item with
    | call c => cases hleaves.2
    | completion op o => cases hleaves.2

theorem Persistent.ready_step (hp : Persistent relayUrl hexPubkey p place) (hready : Ready p)
    (he : GoesWell p.1 e) (h : watched (sessionBehaviour pf).react noteReports p e = some q) : Ready q := by
  obtain ⟨effects, hreact, -⟩ := watched_eq_some.mp h
  have hsound : ¬ FailureQueued q.1 :=
    fun hfailure => hready.sound (failureQueued_react he hreact hfailure)
  rcases hp.next hjson hutf8 hurl hpubkey he.undisturbed h with
    hstays | ⟨m, item, rest, rfl, hq, hleaves, hthrows, hmoved⟩
  · refine ⟨(hp.target.usable_iff hstays.target).mpr hready.usable, hsound, fun hover => hready.going ?_⟩
    exact hp.over_iff.mpr (hstays.over_iff.mp hover)
  · refine ⟨(hp.target.usable_iff hmoved.target).mpr hready.usable, hsound, fun hover => ?_⟩
    have hnext := @sequenceStarts_ne_nil pf m _ _ _ hleaves hready.usable hp.running hthrows ?_
    · have hspent := hmoved.over_iff.mp hover
      cases hstarts : sequenceStarts (p.1.data.handle pf m item).2 with
      | nil => exact hnext hstarts
      | cons op ops => rw [hstarts] at hspent; cases hspent
    · rintro op o rfl
      exact Bool.eq_false_iff.mpr fun hfails => hready.sound ⟨op, o, hq ▸ List.mem_cons_self, hfails⟩

theorem Persistent.recovers (hp : Persistent relayUrl hexPubkey p place) : Recovers pf p := by
  have hinv : ∀ p e q, (∃ place, Persistent relayUrl hexPubkey p place) → GoesWell p.1 e →
      watched (sessionBehaviour pf).react noteReports p e = some q →
      ∃ place, Persistent relayUrl hexPubkey q place := by
    rintro p e q ⟨place, hp⟩ he h
    exact hp.step hjson hutf8 hurl hpubkey he.undisturbed h
  have hkeep : ∀ p e q, (∃ place, Persistent relayUrl hexPubkey p place) → Reads p ∨ Over p →
      GoesWell p.1 e → watched (sessionBehaviour pf).react noteReports p e = some q → Reads q ∨ Over q := by
    rintro p e q ⟨place, hp⟩ hmet he h
    exact hmet.imp (fun hreads => hp.reads_step hjson hutf8 hurl hpubkey hreads he h)
      fun hover => hp.over_step hjson hutf8 hurl hpubkey hover he h
  have hlower : ∀ p e q, (∃ place, Persistent relayUrl hexPubkey p place) → ¬ (Reads p ∨ Over p) →
      GoesWell p.1 e → watched (sessionBehaviour pf).react noteReports p e = some q →
      toRead q.1 + (isOwn e).toNat ≤ toRead p.1 + (!isOwn e).toNat := by
    rintro p e q ⟨place, hp⟩ hnot he h
    obtain ⟨effects, hreact, -⟩ := watched_eq_some.mp h
    exact toRead_react hp.course.isAt (fun hreads => hnot (Or.inl (hp.reads_iff.mpr hreads))) hp.noStop he
      hreact
  refine ⟨fun fs q hfs hrun m hclock => ?_, fun fs q hfs hrun henough => ?_, fun hready fs q hfs hrun => ?_,
    fun hreads fs q hfs hrun => ?_⟩
  · obtain ⟨place', hq⟩ := run_keeps hinv ⟨place, hp⟩ hfs hrun
    exact or_iff_not_imp_left.mpr (hq.goesOn hclock)
  · refine (run_settles hinv hkeep hlower ⟨place, hp⟩ hfs hrun).resolve_right fun hle => ?_
    have hbound := toRead_le p.1
    have hle : toRead q.1 + fs.countP isOwn ≤ toRead p.1 + fs.countP (fun e => !isOwn e) := hle
    omega
  · refine (run_keeps (I := fun p => (∃ place, Persistent relayUrl hexPubkey p place) ∧ Ready p) ?_
      ⟨⟨place, hp⟩, hready⟩ hfs hrun).2.going
    rintro p e q ⟨⟨place, hp⟩, hready⟩ he h
    exact ⟨hinv p e q ⟨place, hp⟩ he h, hp.ready_step hjson hutf8 hurl hpubkey hready he h⟩
  · refine (run_keeps (I := fun p => (∃ place, Persistent relayUrl hexPubkey p place) ∧ Reads p) ?_
      ⟨⟨place, hp⟩, hreads⟩ hfs hrun).2
    rintro p e q ⟨⟨place, hp⟩, hreads⟩ he h
    exact ⟨hinv p e q ⟨place, hp⟩ he h, hp.reads_step hjson hutf8 hurl hpubkey hreads he h⟩

/-- A session that is ready can be led to read, by its own steps at one moment. -/
theorem Persistent.exists_reads (hclock : ClockFits (.run m)) (hp : Persistent relayUrl hexPubkey p place)
    (hready : Ready p) : ∃ (ios : List SessionIo) (q : SessionObject × History),
      run (watched (sessionBehaviour pf).react noteReports) p (ios.map (SessionIo.event m)) = some q ∧
        Along (watched (sessionBehaviour pf).react noteReports) (fun p => GoesWell p.1) p
          (ios.map (SessionIo.event m)) ∧ Reads q := by
  induction hn : toRead p.1 using Nat.strong_induction_on generalizing p place with
  | h n ih =>
    by_cases hreads : Reads p
    · exact ⟨[], p, run_nil p, trivial, hreads⟩
    obtain ⟨io, q, hwell, hstep⟩ := @Persistent.goesOn pf m _ _ _ _ hp hclock hready.going
    obtain ⟨effects, hreact, -⟩ := watched_eq_some.mp hstep
    have hown : isOwn (io.event m) = true := by cases io <;> rfl
    have hlower := toRead_react hp.course.isAt (fun h => hreads (hp.reads_iff.mpr h)) hp.noStop hwell hreact
    rw [hown] at hlower
    obtain ⟨place', hq⟩ := hp.step hjson hutf8 hurl hpubkey hwell.undisturbed hstep
    have hready' := hp.ready_step hjson hutf8 hurl hpubkey hready hwell hstep
    have hless : toRead q.1 < n := by
      rw [← hn]
      exact hlower
    obtain ⟨ios, r, hrun, halong, hr⟩ := ih (toRead q.1) hless hq hready' rfl
    refine ⟨io :: ios, r, run_cons_eq_some.mpr ⟨q, hstep, hrun⟩, fun q' hq' => ⟨hwell, ?_⟩, hr⟩
    obtain rfl := Option.some.inj (hstep.symm.trans hq')
    exact halong

/-- **A session recovers.** Whatever the network and the relay have done to a session that has been started and
not been stopped, in every state, from when on no operation of its chain fails: it always has a next step, and
after a bounded number of steps, in whatever order they come and with whatever keys set meanwhile, it is
subscribed and reads, and stays so. Otherwise it has given up, and then its URL cannot be used, or it had
given up already, or a failure was still to be handled. -/
theorem session_recovers (authKey : Option Nostr.AuthKey) (es : List SessionEvent)
    (hes : Along (watched (sessionBehaviour pf).react noteReports) (fun p => Undisturbed p.1)
      (SessionManager.startedSession hexPubkey authKey relayUrl, []) es) :
    Throughout (watched (sessionBehaviour pf).react noteReports) (Recovers pf)
      (SessionManager.startedSession hexPubkey authKey relayUrl, []) es :=
  persistent_throughout hjson hutf8 hurl hpubkey
    (fun _ _ hp => hp.recovers hjson hutf8 hurl hpubkey) authKey hes

end GoesWell

theorem session_recovers_refused :
    Throughout (watched (sessionBehaviour textPlatform).react noteReports) (Recovers textPlatform)
      (SessionManager.startedSession (lit "00") none sampleRelay, [])
      [.run {}, .run {}, .finish 0 {}, .run {}, .finish 0 { ec := some (lit "Connection refused") }, .run {},
        .finish 0 {}] := by
  refine session_recovers RelaySession.textPlatform_laws.1 textPlatform_parsesUtf8 (isUtf8_of_all rfl)
    (isUtf8_of_all rfl) none _ ?_
  rintro p₁ h₁
  refine ⟨clockFits_start, fun p₂ h₂ => ⟨clockFits_start, fun p₃ h₃ => ⟨fun _ _ _ _ => rfl, fun p₄ h₄ =>
    ⟨clockFits_start, fun p₅ h₅ => ⟨?_, along_of_forall fun e he p => ?_⟩⟩⟩⟩⟩
  · obtain rfl := Option.some.inj h₁
    obtain rfl := Option.some.inj h₂
    obtain rfl := Option.some.inj h₃
    obtain rfl := Option.some.inj h₄
    intro q hq hwait
    obtain rfl := Option.some.inj hq
    cases hwait
  · simp only [List.mem_cons, List.not_mem_nil, or_false] at he
    rcases he with rfl | rfl
    · exact clockFits_start
    · exact fun _ _ _ _ => rfl

end Monitostr.Net
