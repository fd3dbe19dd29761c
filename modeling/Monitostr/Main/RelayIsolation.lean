import Monitostr.Foundations.Components
import Monitostr.Main.Control
import Monitostr.Model.StatsLog
import Monitostr.Net.SeedOrder

/-! # Relays do not affect each other

Between the submissions and the completions of bootstraps, the program is made of its relays: the sessions
of a relay, running and forgotten, and its record in the store. The completions and handlers of one relay touch
nothing of the others but the log. So what the table shows of a relay depends only on what that relay has done,
and not on the order in which the relays have been served.
-/

namespace Monitostr.Main
open Foundations Foundations.Behaviour Model Net Nostr
set_option autoImplicit false

/-- The completion of an operation of a session, or its next handler. -/
structure SessionTurn where
  m : Moment
  group : SessionGroup
  i : ℕ
  io : SessionIo

namespace Application

def turn (pf : Platform) (app : Application) (e : SessionTurn) : Option Application :=
  app.step pf (.session e.m e.group e.i e.io)

/-- The relay of the session at a position. -/
def relayAt (app : Application) (group : SessionGroup) (i : ℕ) : Option Str :=
  (app.sessionManager.sessionsIn group)[i]?.map fun session => session.data.relayUrl

def relayOf (app : Application) (e : SessionTurn) : Option Str := app.relayAt e.group e.i

/-! ## The part of a relay -/

/-- What belongs to one relay: its sessions at their positions, and its record. -/
structure RelayPart where
  sessions : SessionGroup → ℕ → Option SessionObject
  stat : Option RelayStat

theorem RelayPart.ext {part part' : RelayPart} (hsessions : part.sessions = part'.sessions)
    (hstat : part.stat = part'.stat) : part = part' := by
  cases part
  cases part'
  exact RelayPart.mk.injEq .. ▸ ⟨hsessions, hstat⟩

/-- The part of a key in the state; positions without a session have no relay. -/
def partOf (app : Application) (key : Option Str) : RelayPart where
  sessions group i := if app.relayAt group i = key then (app.sessionManager.sessionsIn group)[i]? else none
  stat := key.bind app.sharedStats.lookup

/-- The calls of the store on the record of one relay. -/
def recordOps (m : Moment) (ops : List StatsOp) (stat : Option RelayStat) : Option RelayStat :=
  ops.foldl (fun stat op => some ((relayOps ℤ).record (m, op) stat)) stat

def RelayPart.turn (pf : Platform) (part : RelayPart) (e : SessionTurn) : Option RelayPart :=
  (part.sessions e.group e.i).bind fun session =>
    ((sessionBehaviour pf).react session (e.io.event e.m)).map fun (session', effects) =>
      { sessions := Function.update part.sessions e.group
          (Function.update (part.sessions e.group) e.i (some session'))
        stat := recordOps e.m (statsOps effects) part.stat }

/-! ## One turn -/

variable {pf : Platform}

/-- A turn is that of the session at its position, with what it does to the store. -/
theorem turn_eq_some {app app' : Application} {e : SessionTurn} (h : app.turn pf e = some app') :
    ∃ session session' effects, (app.sessionManager.sessionsIn e.group)[e.i]? = some session ∧
      (sessionBehaviour pf).react session (e.io.event e.m) = some (session', effects) ∧
      app'.sharedStats = (statsOps effects).foldl (fun stats op => stats.apply e.m op) app.sharedStats ∧
      (∀ group, app'.sessionManager.sessionsIn group =
        if group = e.group then (app.sessionManager.sessionsIn group).set e.i session'
        else app.sessionManager.sessionsIn group) ∧
      ∃ logBuffer, app' =
        { app with
          sessionManager := app'.sessionManager
          sharedStats := app'.sharedStats
          logBuffer := logBuffer } := by
  cases step_moves h with
  | session m group i io manager effects logBuffer hreact =>
    unfold SessionManager.react at hreact
    obtain ⟨m, group, i, io⟩ := e
    cases group with
    | running =>
      obtain ⟨⟨sessions, effects'⟩, hreactAt, heq⟩ := Option.map_eq_some_iff.mp hreact
      obtain ⟨rfl, rfl⟩ := Prod.mk.inj heq
      obtain ⟨session, session', hi, hone, rfl⟩ := reactAt_eq_some.mp hreactAt
      refine ⟨session, session', _, hi, hone, rfl, fun group => ?_, logBuffer, rfl⟩
      cases group <;> rfl
    | retired =>
      obtain ⟨⟨retired, effects'⟩, hreactAt, heq⟩ := Option.map_eq_some_iff.mp hreact
      obtain ⟨rfl, rfl⟩ := Prod.mk.inj heq
      obtain ⟨session, session', hi, hone, rfl⟩ := reactAt_eq_some.mp hreactAt
      refine ⟨session, session', _, hi, hone, rfl, fun group => ?_, logBuffer, rfl⟩
      cases group <;> rfl

theorem turn_isSome {app : Application} {e : SessionTurn} {session : SessionObject}
    (hi : (app.sessionManager.sessionsIn e.group)[e.i]? = some session)
    (h : ((sessionBehaviour pf).react session (e.io.event e.m)).isSome = true) :
    (app.turn pf e).isSome = true := by
  obtain ⟨⟨session', effects⟩, hreact⟩ := Option.isSome_iff_exists.mp h
  obtain ⟨m, group, i, io⟩ := e
  cases group with
  | running =>
    have hat : (sessionBehaviour pf).reactAt app.sessionManager.sessions i (io.event m) =
        some (app.sessionManager.sessions.set i session', effects) :=
      reactAt_eq_some.mpr ⟨session, session', hi, hreact, rfl⟩
    rw [turn, step, SessionManager.react, hat]
    rfl
  | retired =>
    have hat : (sessionBehaviour pf).reactAt app.sessionManager.retired i (io.event m) =
        some (app.sessionManager.retired.set i session', effects) :=
      reactAt_eq_some.mpr ⟨session, session', hi, hreact, rfl⟩
    rw [turn, step, SessionManager.react, hat]
    rfl

/-- Turns leave every session its relay. -/
theorem relayAt_turn {app app' : Application} {e : SessionTurn} (h : app.turn pf e = some app')
    (group : SessionGroup) (i : ℕ) : app'.relayAt group i = app.relayAt group i := by
  obtain ⟨session, session', effects, hi, hreact, -, hsessions, -⟩ := turn_eq_some h
  rw [relayAt, relayAt, hsessions]
  split
  · next hgroup =>
    subst hgroup
    by_cases hpos : e.i = i
    · subst hpos
      have hlt := (List.getElem?_eq_some_iff.mp hi).1
      rw [List.getElem?_set_self hlt, hi, Option.map_some, Option.map_some, (react_target hreact).1]
    · rw [List.getElem?_set_ne hpos]
  · rfl

theorem lookup_ops {m : Moment} {relayUrl : Str} {ops : List StatsOp}
    (h : ∀ op ∈ ops, op.relayUrl? = some relayUrl) (stats : RelayStats) :
    (ops.foldl (fun stats op => stats.apply m op) stats).lookup =
      Function.update stats.lookup relayUrl (recordOps m ops (stats.lookup relayUrl)) := by
  have hcalls : ∀ call ∈ ops.map (fun op => (m, op)), (relayOps ℤ).key call = some relayUrl := by
    intro call hcall
    obtain ⟨op, hop, rfl⟩ := List.mem_map.mp hcall
    exact h op hop
  have hafter := KeyedOps.foldl_after_of_key hcalls stats.lookup
  rw [List.foldl_map, List.foldl_map] at hafter
  rw [recordOps, ← hafter]
  exact (List.foldl_hom RelayStats.lookup fun stats op => (RelayStats.lookup_apply stats (m, op)).symm).symm

theorem forall_statsOps_relayUrl {session session' : SessionObject} {m : Moment} {io : SessionIo}
    {effects : List Effect}
    (h : (sessionBehaviour pf).react session (io.event m) = some (session', effects)) :
    ∀ op ∈ statsOps effects, op.relayUrl? = some session.data.relayUrl := by
  intro op hop
  obtain ⟨effect, heffect, hsome⟩ := List.mem_filterMap.mp hop
  have hwrites := react_writesTo h effect heffect
  cases effect with
  | stats op' =>
    obtain rfl := Option.some.inj hsome
    exact hwrites
  | _ => cases hsome

/-- The states in which the sessions have the relays that they have in this one. -/
def SameRelays (before app : Application) : Prop :=
  ∀ group i, app.relayAt group i = before.relayAt group i

theorem partOf_turn {app app' : Application} {e : SessionTurn} (h : app.turn pf e = some app') :
    (app.partOf (app.relayOf e)).turn pf e = some (app'.partOf (app.relayOf e)) := by
  obtain ⟨session, session', effects, hi, hreact, hstats, hsessions, -⟩ := turn_eq_some h
  have hlt := (List.getElem?_eq_some_iff.mp hi).1
  have hkey : app.relayOf e = some session.data.relayUrl := by
    rw [relayOf, relayAt, hi]
    rfl
  have hfound : (app.partOf (app.relayOf e)).sessions e.group e.i = some session := (if_pos rfl).trans hi
  rw [RelayPart.turn, hfound, Option.bind_some, hreact, Option.map_some, Option.some.injEq]
  refine RelayPart.ext ?_ ?_
  · funext group i
    dsimp only
    have hrelay := relayAt_turn h group i
    by_cases hgroup : group = e.group
    · subst hgroup
      rw [Function.update_self]
      by_cases hpos : i = e.i
      · subst hpos
        have hself : app.relayAt e.group e.i = app.relayOf e := rfl
        rw [Function.update_self, partOf]
        dsimp only
        rw [hrelay, if_pos hself, hsessions, if_pos rfl, List.getElem?_set_self hlt]
      · rw [Function.update_of_ne hpos, partOf, partOf]
        dsimp only
        rw [hrelay, hsessions, if_pos rfl, List.getElem?_set_ne (Ne.symm hpos)]
    · rw [Function.update_of_ne hgroup, partOf, partOf]
      dsimp only
      rw [hrelay, hsessions, if_neg hgroup]
  · rw [partOf, partOf, hkey]
    dsimp only
    rw [Option.bind_some, Option.bind_some, hstats, lookup_ops (forall_statsOps_relayUrl hreact),
      Function.update_self]

theorem partOf_turn_of_ne {app app' : Application} {e : SessionTurn} (h : app.turn pf e = some app')
    {key : Option Str} (hne : app.relayOf e ≠ key) : app'.partOf key = app.partOf key := by
  obtain ⟨session, session', effects, hi, hreact, hstats, hsessions, -⟩ := turn_eq_some h
  have hkey : app.relayOf e = some session.data.relayUrl := by
    rw [relayOf, relayAt, hi]
    rfl
  refine RelayPart.ext ?_ ?_
  · funext group i
    rw [partOf, partOf]
    dsimp only
    rw [relayAt_turn h group i]
    split
    · next hrelay =>
      rw [hsessions]
      split
      · next hgroup =>
        subst hgroup
        refine List.getElem?_set_ne fun hpos => hne ?_
        rw [relayOf, hpos]
        exact hrelay
      · rfl
    · rfl
  · cases key with
    | none => rfl
    | some url =>
      rw [partOf, partOf]
      dsimp only
      rw [Option.bind_some, Option.bind_some, hstats, lookup_ops (forall_statsOps_relayUrl hreact),
        Function.update_of_ne]
      rintro rfl
      exact hne hkey

theorem partOf_turn_eq_none {app : Application} {e : SessionTurn} (h : app.turn pf e = none) :
    (app.partOf (app.relayOf e)).turn pf e = none := by
  rw [RelayPart.turn]
  have hfound : (app.partOf (app.relayOf e)).sessions e.group e.i =
      (app.sessionManager.sessionsIn e.group)[e.i]? := if_pos rfl
  rw [hfound]
  cases hi : (app.sessionManager.sessionsIn e.group)[e.i]? with
  | none => rfl
  | some session =>
    rw [Option.bind_some, Option.map_eq_none_iff]
    cases hreact : (sessionBehaviour pf).react session (e.io.event e.m) with
    | none => rfl
    | some result =>
      have hsome := turn_isSome hi (by rw [hreact]; rfl)
      rw [h] at hsome
      cases hsome

/-- The program is made of its relays. -/
theorem turn_componentwise (pf : Platform) (before : Application) :
    Componentwise (SameRelays before) (turn pf) (relayOf before) partOf fun _ part => part.turn pf where
  keeps := fun app e app' hs h group i => (relayAt_turn h group i).trans (hs group i)
  acts := by
    intro app e hs
    have hkey : relayOf before e = relayOf app e := (hs e.group e.i).symm
    rw [hkey]
    cases h : app.turn pf e with
    | none => exact partOf_turn_eq_none h
    | some app' => exact partOf_turn h
  frame := by
    intro app e app' key hs h hne
    refine partOf_turn_of_ne h fun heq => hne ?_
    rw [← heq]
    exact (hs e.group e.i).symm

/-! ## Every run -/

/-- The states show the same of every relay, and are the same but for the log. -/
structure SameRelayStates (app app' : Application) : Prop where
  header : app.header = app'.header
  authKey : app.authKey = app'.authKey
  pending : app.pending = app'.pending
  sessions : ∀ group, app.sessionManager.sessionsIn group = app'.sessionManager.sessionsIn group
  lookup : app.sharedStats.lookup = app'.sharedStats.lookup
  snapshot : app.sharedStats.snapshot = app'.sharedStats.snapshot

theorem run_turns_keep {app app' : Application} {es : List SessionTurn} (h : run (turn pf) app es = some app') :
    SameRelays app app' ∧ app'.header = app.header ∧ app'.authKey = app.authKey ∧
      app'.pending = app.pending := by
  refine run_invariant (I := fun a : Application => SameRelays app a ∧ a.header = app.header ∧
    a.authKey = app.authKey ∧ a.pending = app.pending) ?_ ⟨fun _ _ => rfl, rfl, rfl, rfl⟩ h
  rintro a e a' ⟨hrelays, hheader, hkey, hpending⟩ hturn
  obtain ⟨-, -, -, -, -, -, -, logBuffer, heq⟩ := turn_eq_some hturn
  refine ⟨fun group i => (relayAt_turn hturn group i).trans (hrelays group i), ?_, ?_, ?_⟩
  · rw [heq]
    exact hheader
  · rw [heq]
    exact hkey
  · rw [heq]
    exact hpending

theorem sameRelayStates_of_parts {before app app' : Application} {es fs : List SessionTurn}
    (hes : run (turn pf) before es = some app) (hfs : run (turn pf) before fs = some app')
    (hparts : ∀ key, app'.partOf key = app.partOf key) : SameRelayStates app' app := by
  obtain ⟨hrelays, hheader, hkey, hpending⟩ := run_turns_keep hes
  obtain ⟨hrelays', hheader', hkey', hpending'⟩ := run_turns_keep hfs
  have hlookup : app'.sharedStats.lookup = app.sharedStats.lookup := by
    funext url
    exact congrArg RelayPart.stat (hparts (some url))
  refine ⟨hheader'.trans hheader.symm, hkey'.trans hkey.symm, hpending'.trans hpending.symm, fun group => ?_,
    hlookup, RelayStats.snapshot_eq_of_lookup hlookup⟩
  refine List.ext_getElem? fun i => ?_
  have hposition : (app'.partOf (before.relayAt group i)).sessions group i =
      (app.partOf (before.relayAt group i)).sessions group i := by rw [hparts]
  rw [partOf, partOf] at hposition
  dsimp only at hposition
  rw [hrelays, hrelays', if_pos rfl, if_pos rfl] at hposition
  exact hposition

/-- **Relays do not affect each other.** Let the sessions take turns, in any order. Another order in which each
relay has its turns in the same order leads to the same sessions, the same records and the same table; and
with the turns of all other relays left out, a relay has the same sessions and the same record, and the
others keep theirs. -/
theorem relays_isolated (pf : Platform) {app app' : Application} {es : List SessionTurn}
    (hrun : run (turn pf) app es = some app') :
    (∀ fs, (∀ key, withKey app.relayOf key fs = withKey app.relayOf key es) →
      ∃ app'', run (turn pf) app fs = some app'' ∧ SameRelayStates app'' app') ∧
    ∀ url, ∃ app'', run (turn pf) app (withKey app.relayOf (some url) es) = some app'' ∧
      app''.partOf (some url) = app'.partOf (some url) ∧
      ∀ other, other ≠ url → app''.partOf (some other) = app.partOf (some other) := by
  have hparts := turn_componentwise pf app
  have hself : SameRelays app app := fun _ _ => rfl
  refine ⟨fun fs hsame => ?_, fun url => ?_⟩
  · obtain ⟨app'', hfs, hview⟩ := hparts.reorder hself hsame hrun
    exact ⟨app'', hfs, sameRelayStates_of_parts hrun hfs hview⟩
  · obtain ⟨app'', hown, hview, hothers⟩ := hparts.isolate hself hrun (some url)
    exact ⟨app'', hown, hview, fun other hne => hothers (some other) fun h => hne (Option.some.inj h)⟩

/-- Two relays are monitored. -/
def twoRelays : Application :=
  { sessionManager := (SessionManager.start {} [sampleRelay, lit "wss://other.example"] samplePubkeyHex none).1 }

def firstTurn : SessionTurn := { m := {}, group := .running, i := 0, io := .run }

def secondTurn : SessionTurn := { m := {}, group := .running, i := 1, io := .run }

theorem relays_isolated_two : ∃ app' app'',
    run (turn samplePlatform) twoRelays [firstTurn, firstTurn, secondTurn, secondTurn] = some app' ∧
    run (turn samplePlatform) twoRelays [secondTurn, firstTurn, secondTurn, firstTurn] = some app'' ∧
    SameRelayStates app'' app' := by
  have hsome : (run (turn samplePlatform) twoRelays
      [firstTurn, firstTurn, secondTurn, secondTurn]).isSome = true := by
    decide +kernel
  have hfirst : twoRelays.relayOf firstTurn = some sampleRelay := rfl
  have hsecond : twoRelays.relayOf secondTurn = some (lit "wss://other.example") := rfl
  have hne : sampleRelay ≠ lit "wss://other.example" := by decide
  obtain ⟨app', hrun⟩ := Option.isSome_iff_exists.mp hsome
  obtain ⟨app'', hother, hsame⟩ := (relays_isolated samplePlatform hrun).1
    [secondTurn, firstTurn, secondTurn, firstTurn] fun key => by
      simp only [withKey, List.filter_cons, List.filter_nil, hfirst, hsecond]
      by_cases hkey : some sampleRelay = key
      · subst hkey
        simp [hne.symm]
      · simp [hkey]
  exact ⟨app', app'', hrun, hother, hsame⟩

end Application
end Monitostr.Main
