import Monitostr.Foundations.Strand
import Mathlib.Data.List.TakeWhile

/-! # When a stopped object stays quiet

An object has been told to stop. Some items are loud when they are handled in a stopped state, some
operations can complete with a loud item, and a barrier (a later start) ends the stopped period. Other
items consume what operations have left in the object: they are loud unless the object is clean. The
object then stays quiet on every continuation up to the next barrier exactly when nothing loud is
queued before the barrier, no consumer is queued there with an operation in flight that feeds it, and,
if no barrier is queued, no operation in flight can become loud.
-/

namespace Foundations
namespace Behaviour
set_option autoImplicit false

variable {σ η ω ο μ φ : Type*}

/-- A stopped period of the objects of a class: its states and its end, and what is loud in it. -/
structure Period (σ η ω ο φ : Type*) where
  Stopped : σ → Prop
  /-- Nothing is left in the object for a consumer. -/
  Clean : σ → Prop
  barrier : Item η ω ο → Bool
  loud : Item η ω ο → Bool
  consumes : Item η ω ο → Bool
  loudOp : ω → Bool
  feeds : ω → Bool
  Quiet : List φ → Prop

/-- What the handlers of a class have to satisfy in a stopped period. -/
structure Quieting (B : Behaviour σ η ω ο μ φ) (P : Period σ η ω ο φ) : Prop where
  stays : ∀ m s item, P.Stopped s → P.barrier item = false → P.Stopped (B.handle m s item).1
  cleans : ∀ m s item, P.Clean s → P.Clean (B.handle m s item).1
  deliver_stays : ∀ s op outcome, P.Stopped s → P.Stopped (B.deliver s op outcome)
  deliver_cleans : ∀ s op outcome, P.feeds op = false → P.Clean s → P.Clean (B.deliver s op outcome)
  quiet : ∀ m s item, P.Stopped s → P.barrier item = false → P.loud item = false →
    (P.consumes item = true → P.Clean s) → P.Quiet (B.handle m s item).2 ∧
      ∀ effect ∈ (B.handle m s item).2, ∀ op, B.starts effect = some op → P.loudOp op = false
  loud_effects : ∀ m s item, P.Stopped s → P.loud item = true → ¬ P.Quiet (B.handle m s item).2
  direct_quiet : ∀ s op outcome effects, B.direct s op outcome = some effects → P.Quiet effects ∧
    ∀ effect ∈ effects, ∀ op, B.starts effect = some op → P.loudOp op = false
  nil_quiet : P.Quiet []
  call_quiet : ∀ handler, P.loud (.call handler) = false ∧ P.consumes (.call handler) = false
  op_quiet : ∀ op outcome, P.loudOp op = false →
    P.loud (.completion op outcome) = false ∧ P.consumes (.completion op outcome) = false
  op_loud : ∀ op, P.loudOp op = true → ∃ outcome, B.aborted outcome = true ∧
    (∀ s, B.direct s op outcome = none) ∧ P.loud (.completion op outcome) = true
  op_feeds : ∀ op, P.feeds op = true → P.loudOp op = true ∧ ∃ outcome, B.aborted outcome = true ∧
    (∀ s, B.direct s op outcome = none) ∧
    ∀ m s item, P.Stopped s → P.Clean s → P.consumes item = true →
      ¬ P.Quiet (B.handle m (B.deliver s op outcome) item).2
  completion_passes : ∀ op outcome, P.barrier (.completion op outcome) = false

namespace Period
variable (P : Period σ η ω ο φ)

/-- The items that are handled before the next barrier. -/
def ahead (queue : List (Item η ω ο)) : List (Item η ω ο) :=
  queue.takeWhile fun item => !P.barrier item

/-- Something loud can be handled before the next barrier. -/
inductive Exposed (o : Object σ η ω ο) : Prop
  | queued (item : Item η ω ο) : item ∈ P.ahead o.queue → P.loud item = true → Exposed o
  | inFlight (p : InFlight ω) : (∀ item ∈ o.queue, P.barrier item = false) → p ∈ o.inFlight →
    P.loudOp p.op = true → Exposed o
  | fed (item : Item η ω ο) (p : InFlight ω) : item ∈ P.ahead o.queue → P.consumes item = true →
    p ∈ o.inFlight → P.feeds p.op = true → Exposed o

theorem exposed_iff {o : Object σ η ω ο} : P.Exposed o ↔
    (∃ item ∈ P.ahead o.queue, P.loud item = true) ∨
      ((∀ item ∈ o.queue, P.barrier item = false) ∧ ∃ p ∈ o.inFlight, P.loudOp p.op = true) ∨
      ∃ item ∈ P.ahead o.queue, P.consumes item = true ∧ ∃ p ∈ o.inFlight, P.feeds p.op = true := by
  constructor
  · rintro (⟨item, hitem, hl⟩ | ⟨p, hall, hp, hl⟩ | ⟨item, p, hitem, hc, hp, hf⟩)
    · exact Or.inl ⟨item, hitem, hl⟩
    · exact Or.inr (Or.inl ⟨hall, p, hp, hl⟩)
    · exact Or.inr (Or.inr ⟨item, hitem, hc, p, hp, hf⟩)
  · rintro (⟨item, hitem, hl⟩ | ⟨hall, p, hp, hl⟩ | ⟨item, hitem, hc, p, hp, hf⟩)
    · exact .queued item hitem hl
    · exact .inFlight p hall hp hl
    · exact .fed item p hitem hc hp hf

instance (o : Object σ η ω ο) : Decidable (P.Exposed o) := decidable_of_iff _ (P.exposed_iff).symm

/-- A stopped object that stays quiet: nothing is exposed, nor left for a consumer. -/
structure Calm (o : Object σ η ω ο) : Prop where
  stopped : P.Stopped o.data
  clean : ∀ item ∈ P.ahead o.queue, P.consumes item = true → P.Clean o.data
  hidden : ¬ P.Exposed o

def NoBarrier (o : Object σ η ω ο) (e : StrandEvent μ η ο) : Prop :=
  ∀ m item rest, e = .run m → o.queue = item :: rest → P.barrier item = false

def QuietStep (B : Behaviour σ η ω ο μ φ) (o : Object σ η ω ο) (e : StrandEvent μ η ο) : Prop :=
  ∀ o' effects, B.react o e = some (o', effects) → P.Quiet effects

variable {P}

theorem mem_ahead_concat {queue : List (Item η ω ο)} {item x : Item η ω ο}
    (h : x ∈ P.ahead (queue ++ [item])) :
    x ∈ P.ahead queue ∨ (x = item ∧ ∀ y ∈ queue, P.barrier y = false) := by
  rw [ahead] at h
  by_cases hall : ∀ y ∈ queue, P.barrier y = false
  · rw [List.takeWhile_append_of_pos (by simpa using hall)] at h
    rcases List.mem_append.mp h with h | h
    · left
      rwa [ahead, List.takeWhile_eq_self_iff.mpr (by simpa using hall)]
    · exact Or.inr ⟨List.mem_singleton.mp (List.takeWhile_subset _ h), hall⟩
  · rw [List.takeWhile_append, if_neg] at h
    · exact Or.inl h
    · intro hlen
      have heq := (List.takeWhile_prefix fun item => !P.barrier item).eq_of_length hlen
      exact hall (by simpa using List.takeWhile_eq_self_iff.mp heq)

theorem ahead_cons {item : Item η ω ο} (h : P.barrier item = false) (rest : List (Item η ω ο)) :
    P.ahead (item :: rest) = item :: P.ahead rest := by
  rw [ahead, List.takeWhile_cons, h]
  rfl

theorem ahead_split {queue : List (Item η ω ο)} {item : Item η ω ο} (h : item ∈ P.ahead queue) :
    ∃ before post, queue = before ++ item :: post ∧ (∀ x ∈ before, P.barrier x = false) ∧
      P.barrier item = false := by
  have hpass : ∀ x ∈ P.ahead queue, P.barrier x = false :=
    fun x hx => by simpa using List.mem_takeWhile_imp hx
  obtain ⟨before, post, hsplit⟩ := List.append_of_mem h
  refine ⟨before, post ++ queue.dropWhile fun item => !P.barrier item, ?_, fun x hx => ?_,
    hpass item h⟩
  · rw [← List.cons_append, ← List.append_assoc, ← hsplit]
    exact List.takeWhile_append_dropWhile.symm
  · exact hpass x (by rw [hsplit]; exact List.mem_append_left _ hx)

end Period

variable {B : Behaviour σ η ω ο μ φ} {P : Period σ η ω ο φ}

/-! ## A calm object stays calm -/

theorem Quieting.calm_call (hB : Quieting B P) {o : Object σ η ω ο} (ho : P.Calm o) (handler : η) :
    P.Calm { o with queue := o.queue ++ [.call handler] } := by
  obtain ⟨hloud, hconsumes⟩ := hB.call_quiet handler
  refine ⟨ho.stopped, fun item hitem hc => ?_, fun hexp => ?_⟩
  · rcases Period.mem_ahead_concat hitem with hitem | ⟨rfl, -⟩
    · exact ho.clean item hitem hc
    · rw [hconsumes] at hc
      cases hc
  · cases hexp with
    | queued item hitem hl =>
      rcases Period.mem_ahead_concat hitem with hitem | ⟨rfl, -⟩
      · exact ho.hidden (.queued item hitem hl)
      · rw [hloud] at hl
        cases hl
    | inFlight p hall hp hl =>
      exact ho.hidden (.inFlight p (fun x hx => hall x (List.mem_append_left _ hx)) hp hl)
    | fed item p hitem hc hp hf =>
      rcases Period.mem_ahead_concat hitem with hitem | ⟨rfl, -⟩
      · exact ho.hidden (.fed item p hitem hc hp hf)
      · rw [hconsumes] at hc
        cases hc

theorem Quieting.calm_deliver (hB : Quieting B P) {o : Object σ η ω ο} (ho : P.Calm o)
    {p : InFlight ω} {i : ℕ} (hp : p ∈ o.inFlight) (outcome : ο) :
    P.Calm { data := B.deliver o.data p.op outcome, queue := o.queue ++ [.completion p.op outcome],
             inFlight := o.inFlight.eraseIdx i } := by
  -- behind a barrier the completion is out of reach, and otherwise its operation is harmless
  have hlast : (∀ y ∈ o.queue, P.barrier y = false) →
      P.loud (.completion p.op outcome) = false ∧ P.consumes (.completion p.op outcome) = false := by
    intro hall
    refine hB.op_quiet p.op outcome ?_
    by_contra hl
    exact ho.hidden (.inFlight p hall hp (by simpa using hl))
  refine ⟨hB.deliver_stays _ _ _ ho.stopped, fun item hitem hc => ?_, fun hexp => ?_⟩
  · rcases Period.mem_ahead_concat hitem with hitem | ⟨rfl, hall⟩
    · refine hB.deliver_cleans _ _ _ ?_ (ho.clean item hitem hc)
      by_contra hf
      exact ho.hidden (.fed item p hitem hc hp (by simpa using hf))
    · rw [(hlast hall).2] at hc
      cases hc
  · cases hexp with
    | queued item hitem hl =>
      rcases Period.mem_ahead_concat hitem with hitem | ⟨rfl, hall⟩
      · exact ho.hidden (.queued item hitem hl)
      · rw [(hlast hall).1] at hl
        cases hl
    | inFlight q hall hq hl =>
      exact ho.hidden (.inFlight q (fun x hx => hall x (List.mem_append_left _ hx))
        (List.mem_of_mem_eraseIdx hq) hl)
    | fed item q hitem hc hq hf =>
      rcases Period.mem_ahead_concat hitem with hitem | ⟨rfl, hall⟩
      · exact ho.hidden (.fed item q hitem hc (List.mem_of_mem_eraseIdx hq) hf)
      · rw [(hlast hall).2] at hc
        cases hc

/-- Handling an item, or a completion past the strand, starts nothing that is loud. -/
theorem Quieting.hidden_perform (hB : Quieting B P) {o : Object σ η ω ο} {data : σ}
    {queue : List (Item η ω ο)} {ops : List (InFlight ω)} {effects : List φ} (ho : ¬ P.Exposed o)
    (hahead : ∀ item ∈ P.ahead queue, item ∈ P.ahead o.queue)
    (hall : (∀ item ∈ queue, P.barrier item = false) → ∀ item ∈ o.queue, P.barrier item = false)
    (hops : ∀ p ∈ ops, p ∈ o.inFlight)
    (hstarts : ∀ effect ∈ effects, ∀ op, B.starts effect = some op → P.loudOp op = false) :
    ¬ P.Exposed { data := data, queue := queue, inFlight := B.perform ops effects } := by
  have hflight : ∀ p ∈ B.perform ops effects, P.loudOp p.op = true → ∃ q ∈ o.inFlight, q.op = p.op := by
    intro p hp hl
    rcases mem_perform hp with ⟨q, hq, hqp⟩ | ⟨effect, heff, hst⟩
    · exact ⟨q, hops q hq, hqp⟩
    · rw [hstarts effect heff _ hst] at hl
      cases hl
  intro hexp
  cases hexp with
  | queued item hitem hl => exact ho (.queued item (hahead item hitem) hl)
  | inFlight p hclear hp hl =>
    obtain ⟨q, hq, hqp⟩ := hflight p hp hl
    exact ho (.inFlight q (hall hclear) hq (by rw [hqp]; exact hl))
  | fed item p hitem hc hp hf =>
    obtain ⟨q, hq, hqp⟩ := hflight p hp (hB.op_feeds _ hf).1
    exact ho (.fed item q (hahead item hitem) hc hq (by rw [hqp]; exact hf))

theorem Quieting.exposed_perform (hB : Quieting B P) {o : Object σ η ω ο} {data : σ}
    {effects : List φ}
    (hstarts : ∀ effect ∈ effects, ∀ op, B.starts effect = some op → P.loudOp op = false) :
    P.Exposed { data := data, queue := o.queue, inFlight := B.perform o.inFlight effects } ↔
      P.Exposed o := by
  constructor
  · contrapose
    exact fun ho => hB.hidden_perform ho (fun _ h => h) (fun h => h) (fun _ h => h) hstarts
  · intro hexp
    cases hexp with
    | queued item hitem hl => exact .queued item hitem hl
    | inFlight p hall hp hl =>
      obtain ⟨q, hq, hqp⟩ := exists_mem_perform (B := B) effects hp
      exact .inFlight q hall hq (by rw [hqp]; exact hl)
    | fed item p hitem hc hp hf =>
      obtain ⟨q, hq, hqp⟩ := exists_mem_perform (B := B) effects hp
      exact .fed item q hitem hc hq (by rw [hqp]; exact hf)

/-- A step that runs no barrier keeps a calm object calm, and is quiet. -/
theorem Quieting.step (hB : Quieting B P) {o o' : Object σ η ω ο} {e : StrandEvent μ η ο}
    {effects : List φ} (ho : P.Calm o) (hnb : P.NoBarrier o e)
    (h : B.react o e = some (o', effects)) : P.Calm o' ∧ P.Quiet effects := by
  cases e with
  | call handler =>
    obtain ⟨rfl, rfl⟩ := react_call.mp h
    exact ⟨hB.calm_call ho handler, hB.nil_quiet⟩
  | finish i outcome =>
    obtain ⟨p, hp, ⟨-, rfl, rfl⟩ | ⟨hd, rfl⟩⟩ := react_finish h
    · exact ⟨hB.calm_deliver ho (List.mem_of_getElem? hp) outcome, hB.nil_quiet⟩
    · obtain ⟨hquiet, hstarts⟩ := hB.direct_quiet _ _ _ _ hd
      exact ⟨⟨ho.stopped, ho.clean, hB.hidden_perform ho.hidden (fun _ h => h) (fun h => h)
        (fun _ => List.mem_of_mem_eraseIdx) hstarts⟩, hquiet⟩
  | run m =>
    obtain ⟨item, rest, hq, rfl, rfl⟩ := react_run h
    have hb : P.barrier item = false := hnb m item rest rfl hq
    have hahead : P.ahead o.queue = item :: P.ahead rest := by rw [hq, Period.ahead_cons hb]
    have hitem : item ∈ P.ahead o.queue := by
      rw [hahead]
      exact List.mem_cons_self
    have hrest : ∀ x ∈ P.ahead rest, x ∈ P.ahead o.queue := by
      rw [hahead]
      exact fun x hx => List.mem_cons_of_mem _ hx
    have hl : P.loud item = false := by
      by_contra hl
      exact ho.hidden (.queued item hitem (by simpa using hl))
    obtain ⟨hquiet, hstarts⟩ := hB.quiet m o.data item ho.stopped hb hl (ho.clean item hitem)
    refine ⟨⟨hB.stays m o.data item ho.stopped hb, fun x hx hc =>
      hB.cleans m o.data item (ho.clean x (hrest x hx) hc), ?_⟩, hquiet⟩
    refine hB.hidden_perform ho.hidden hrest (fun hall => ?_) (fun _ h => h) hstarts
    rw [hq]
    exact List.forall_mem_cons.mpr ⟨hb, hall⟩

/-! ## What is exposed can be handled -/

/-- The queue up to an item can be handled, with the operations in flight still in flight. -/
theorem Quieting.reach (hB : Quieting B P) (m : μ) {item : Item η ω ο} {post : List (Item η ω ο)} :
    ∀ (before : List (Item η ω ο)) (o : Object σ η ω ο), P.Stopped o.data →
      (∀ x ∈ before, P.barrier x = false) → o.queue = before ++ item :: post →
      ∃ es o', run B.step o es = some o' ∧ Along B.step P.NoBarrier o es ∧ P.Stopped o'.data ∧
        (P.Clean o.data → P.Clean o'.data) ∧ o'.queue = item :: post ∧
        ∀ q ∈ o.inFlight, ∃ p ∈ o'.inFlight, p.op = q.op
  | [], o, hs, _, hq => ⟨[], o, rfl, trivial, hs, id, hq, fun q hq => ⟨q, hq, rfl⟩⟩
  | x :: before, o, hs, hall, hq => by
      have hstep := step_eq_some.mpr ⟨_, react_run_cons (B := B) m hq⟩
      have hx : P.barrier x = false := hall x List.mem_cons_self
      obtain ⟨es, o', hrun, hclear, hs', hclean, hq', hops⟩ := hB.reach m before
        { data := (B.handle m o.data x).1, queue := before ++ item :: post,
          inFlight := B.perform o.inFlight (B.handle m o.data x).2 }
        (hB.stays m o.data x hs hx) (fun y hy => hall y (List.mem_cons_of_mem _ hy)) rfl
      refine ⟨.run m :: es, o', run_cons_eq_some.mpr ⟨_, hstep, hrun⟩, fun s' hs' => ?_, hs',
        fun hc => hclean (hB.cleans m o.data x hc), hq', fun q hqm => ?_⟩
      · obtain rfl := Option.some.inj (hstep.symm.trans hs')
        refine ⟨fun m' y rest _ hy => ?_, hclear⟩
        obtain ⟨rfl, -⟩ := List.cons.inj (hq.symm.trans hy)
        exact hx
      · obtain ⟨p, hp, hpq⟩ := exists_mem_perform (B := B) (B.handle m o.data x).2 hqm
        obtain ⟨r, hr, hrp⟩ := hops p hp
        exact ⟨r, hr, hrp.trans hpq⟩

/-- An operation in flight can complete as a cancelled one does. -/
theorem step_finish {o : Object σ η ω ο} {p : InFlight ω} (hp : p ∈ o.inFlight) {outcome : ο}
    (hab : B.aborted outcome = true) (hd : ∀ s, B.direct s p.op outcome = none) :
    ∃ i, B.step o (.finish i outcome) =
      some { data := B.deliver o.data p.op outcome, queue := o.queue ++ [.completion p.op outcome],
             inFlight := o.inFlight.eraseIdx i } := by
  obtain ⟨i, hi, hget⟩ := List.getElem_of_mem hp
  have hget? : o.inFlight[i]? = some p := by rw [List.getElem?_eq_getElem hi, hget]
  refine ⟨i, ?_⟩
  simp only [step, react, hget?, hab, hd, Bool.not_true, Bool.and_false, Bool.false_eq_true, if_false,
    Option.map_some]

/-- Some continuation without a barrier is not quiet. -/
def CanBeLoud (B : Behaviour σ η ω ο μ φ) (P : Period σ η ω ο φ) (o : Object σ η ω ο) : Prop :=
  ∃ es, Along B.step P.NoBarrier o es ∧ ¬ Along B.step (P.QuietStep B) o es

theorem canBeLoud_of_run {o o' : Object σ η ω ο} {es : List (StrandEvent μ η ο)}
    (hrun : run B.step o es = some o') (hclear : Along B.step P.NoBarrier o es)
    (h : CanBeLoud B P o') : CanBeLoud B P o := by
  obtain ⟨fs, hclear', hloud⟩ := h
  refine ⟨es ++ fs, along_append.mpr ⟨hclear, fun t ht => ?_⟩, fun ha => ?_⟩
  · obtain rfl := Option.some.inj (hrun.symm.trans ht)
    exact hclear'
  · exact hloud ((along_append.mp ha).2 o' hrun)

theorem canBeLoud_of_finish {o o' : Object σ η ω ο} {i : ℕ} {outcome : ο}
    (hstep : B.step o (.finish i outcome) = some o') (h : CanBeLoud B P o') : CanBeLoud B P o := by
  have hrun : run B.step o [.finish i outcome] = some o' := run_cons_eq_some.mpr ⟨o', hstep, rfl⟩
  refine canBeLoud_of_run hrun (fun _ _ => ⟨fun m x rest he _ => ?_, trivial⟩) h
  cases he

theorem canBeLoud_of_head (m : μ) {o : Object σ η ω ο} {item : Item η ω ο}
    {rest : List (Item η ω ο)} (hq : o.queue = item :: rest) (hb : P.barrier item = false)
    (hl : ¬ P.Quiet (B.handle m o.data item).2) : CanBeLoud B P o := by
  have hreact := react_run_cons (B := B) m hq
  refine ⟨[.run m], fun o' _ => ⟨fun m' x rest _ hx => ?_, trivial⟩, fun ha => ?_⟩
  · obtain ⟨rfl, -⟩ := List.cons.inj (hq.symm.trans hx)
    exact hb
  · exact hl ((ha _ (step_eq_some.mpr ⟨_, hreact⟩)).1 _ _ hreact)

theorem Quieting.canBeLoud_of_queued (hB : Quieting B P) (m : μ) {o : Object σ η ω ο}
    (hs : P.Stopped o.data) {item : Item η ω ο} {before post : List (Item η ω ο)}
    (hq : o.queue = before ++ item :: post) (hall : ∀ x ∈ before, P.barrier x = false)
    (hb : P.barrier item = false) (hl : P.loud item = true) : CanBeLoud B P o := by
  obtain ⟨es, o', hrun, hclear, hs', -, hq', -⟩ := hB.reach m before o hs hall hq
  exact canBeLoud_of_run hrun hclear
    (canBeLoud_of_head m hq' hb (hB.loud_effects m o'.data item hs' hl))

/-- **A stopped object stays quiet, on every continuation up to the next barrier, exactly when nothing
loud is exposed.** -/
theorem Quieting.quiet_iff (hB : Quieting B P) (m : μ) {o : Object σ η ω ο} (hs : P.Stopped o.data)
    (hc : P.Clean o.data) :
    (∀ es, Along B.step P.NoBarrier o es → Along B.step (P.QuietStep B) o es) ↔ ¬ P.Exposed o := by
  constructor
  · intro h hexp
    suffices hloud : CanBeLoud B P o by
      obtain ⟨es, hclear, hnot⟩ := hloud
      exact hnot (h es hclear)
    cases hexp with
    | queued item hitem hl =>
      obtain ⟨before, post, hq, hall, hb⟩ := Period.ahead_split hitem
      exact hB.canBeLoud_of_queued m hs hq hall hb hl
    | inFlight p hall hp hl =>
      obtain ⟨outcome, hab, hd, hloud⟩ := hB.op_loud p.op hl
      obtain ⟨i, hstep⟩ := step_finish hp hab hd
      exact canBeLoud_of_finish hstep (hB.canBeLoud_of_queued m (hB.deliver_stays _ _ _ hs) rfl hall
        (hB.completion_passes _ _) hloud)
    | fed item p hitem hcons hp hf =>
      -- handle what is before the consumer, let the operation feed it, and handle it
      obtain ⟨before, post, hq, hall, hb⟩ := Period.ahead_split hitem
      obtain ⟨es, o', hrun, hclear, hs', hclean, hq', hops⟩ := hB.reach m before o hs hall hq
      obtain ⟨p', hp', hop⟩ := hops p hp
      obtain ⟨-, outcome, hab, hd, hloud⟩ := hB.op_feeds p'.op (by rw [hop]; exact hf)
      obtain ⟨i, hstep⟩ := step_finish hp' hab hd
      refine canBeLoud_of_run hrun hclear (canBeLoud_of_finish hstep ?_)
      have hfed : o'.queue ++ [.completion p'.op outcome] =
          item :: (post ++ [.completion p'.op outcome]) := by
        rw [hq', List.cons_append]
      exact canBeLoud_of_head m hfed hb (hloud m o'.data item hs' (hclean hc) hcons)
  · intro hexp es hclear
    refine along_keeps (I := P.Calm) ?_ ⟨hs, fun _ _ _ => hc, hexp⟩ hclear
    intro o e o' hI hnb hstep
    obtain ⟨effects, hreact⟩ := step_eq_some.mp hstep
    exact ⟨(hB.step hI hnb hreact).1, fun o'' effects' h => (hB.step hI hnb h).2⟩

end Behaviour
end Foundations
