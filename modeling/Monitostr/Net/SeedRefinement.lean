import Monitostr.Net.SeedDialogue
import Monitostr.Net.SessionTargets

/-! # The conversation computes what the model of the bootstrap says

`resolveRelaysForPubkey` takes the behaviour of each seed as given. A conversation that comes to its end has
its result and its log for some behaviour of the seeds, and every behaviour is that of a conversation.
-/

namespace Monitostr.Net
open Foundations Model Nostr
set_option autoImplicit false

variable {pf : Platform} {seedRelayUrl hexPubkey : Str} {parsed : ParsedRelayUrl}

/-! ## A step of the conversation -/

theorem SeedStage.step_cases {stage stage' : SeedStage} {r : SeedReturn}
    (h : stage.step pf seedRelayUrl hexPubkey parsed r = some stage') :
    (∃ what, stage' = .finished (.error what)) ∨
      stage' = stage.returned pf seedRelayUrl hexPubkey parsed r := by
  unfold SeedStage.step at h
  split at h
  · cases h
  · split at h
    · exact Or.inl ⟨_, (Option.some.inj h).symm⟩
    · exact Or.inr (Option.some.inj h).symm

/-! ## The loop of a query -/

theorem queryLoop_turn (subId : Str) (relayUrls : List Str) (payload : Str) (payloads : List Str) :
    queryLoop pf subId relayUrls (payload :: payloads) =
      if (messageTurn pf subId relayUrls payload).2 then (messageTurn pf subId relayUrls payload).1
      else queryLoop pf subId (messageTurn pf subId relayUrls payload).1 payloads := by
  rw [queryLoop, messageTurn]
  generalize pf.parseJson payload = message
  cases message with
  | none => rfl
  | some value =>
    cases value with
    | array items =>
      cases items with
      | nil => rfl
      | cons head rest =>
        cases head with
        | string eventType => exact if_congr decide_eq_true_iff.symm rfl rfl
        | _ => rfl
    | _ => rfl

theorem querySeedRelay_answers {kind10002 kind3 : List Str} {sniSet : Bool}
    (hne : hexPubkey.isEmpty = false) (hparse : parseRelayUrl seedRelayUrl = some parsed)
    (hsni : (parsed.secure && !sniSet) = false) :
    querySeedRelay pf seedRelayUrl hexPubkey (.answers sniSet kind10002 kind3) =
      .ok (supportedOrFallback seedRelayUrl (queryBothKinds pf kind10002 kind3)) := by
  rw [querySeedRelay, hne, hparse, supportedOrFallback]
  simp only [hsni, Bool.false_eq_true, if_false]
  split <;> rfl

/-! ## What a stage has heard -/

variable (pf) in
/-- What the seed has said when a query is asked: nothing of the first kind, when the second is asked. -/
def HeardBefore : SeedQuery → Prop
  | .kind10002 => True
  | .kind3 => ∃ payloads, queryKindWithWs pf SeedQuery.kind10002.subId payloads = []

variable (pf seedRelayUrl hexPubkey parsed) in
/-- What the seed has said is what the stage knows. -/
def Heard : SeedStage → Prop
  | .resolving | .connecting | .upgrading => True
  | .settingSni | .securing => parsed.secure = true
  | .requesting query _ => HeardBefore pf query
  | .reading query _ relayUrls => HeardBefore pf query ∧ ∃ payloads, ∀ more,
      queryLoop pf query.subId [] (payloads ++ more) = queryLoop pf query.subId relayUrls more
  | .unsubscribing query _ relayUrls => HeardBefore pf query ∧
      ∃ payloads, queryLoop pf query.subId [] payloads = relayUrls
  | .closing result => ∃ kind10002 kind3, result = queryBothKinds pf kind10002 kind3
  | .finished outcome => ∃ seed, querySeedRelay pf seedRelayUrl hexPubkey seed = outcome

/-- The relays of the first query are the result, when there are any. -/
theorem afterQuery_first {payloads other : List Str}
    (h : (queryKindWithWs pf SeedQuery.kind10002.subId payloads).isEmpty = false) (r : SeedReturn) :
    afterQuery pf hexPubkey .kind10002 (queryKindWithWs pf SeedQuery.kind10002.subId payloads) r =
      .closing (queryBothKinds pf payloads other) := by
  have hsome : (!(queryKindWithWs pf (lit "bootstrap-10002") payloads).isEmpty) = true := by
    rw [show queryKindWithWs pf (lit "bootstrap-10002") payloads =
      queryKindWithWs pf SeedQuery.kind10002.subId payloads from rfl, h]
    rfl
  rw [afterQuery, queryBothKinds, h]
  dsimp only
  rw [if_pos hsome]
  rfl

/-- The second query is asked when the first has none, and its relays are the result. -/
theorem afterQuery_second {first payloads : List Str} {r : SeedReturn}
    (h : queryKindWithWs pf SeedQuery.kind10002.subId first = []) :
    afterQuery pf hexPubkey .kind3 (queryKindWithWs pf SeedQuery.kind3.subId payloads) r =
      .closing (queryBothKinds pf first payloads) := by
  have hnone : ¬ (!(queryKindWithWs pf (lit "bootstrap-10002") first).isEmpty) = true := by
    rw [show queryKindWithWs pf (lit "bootstrap-10002") first = [] from h]
    exact Bool.false_ne_true
  rw [afterQuery, queryBothKinds]
  dsimp only
  rw [if_neg hnone]
  exact (apply_ite SeedStage.closing _ _ _).symm

section Seed
variable (hne : hexPubkey.isEmpty = false) (hparse : parseRelayUrl seedRelayUrl = some parsed)
include hne hparse

theorem heard_thrown (what : Str) :
    Heard pf seedRelayUrl hexPubkey parsed (.finished (.error what)) := by
  refine ⟨.throws what, ?_⟩
  rw [querySeedRelay, hne, hparse]
  rfl

theorem heard_ask {query : SeedQuery} (h : HeardBefore pf query) (r : SeedReturn) :
    Heard pf seedRelayUrl hexPubkey parsed (ask pf hexPubkey query r) := by
  rw [ask]
  cases pf.dumpJson (reqMessage hexPubkey query) with
  | none => exact heard_thrown hne hparse r.dumpError
  | some frame => exact h

theorem heard_leaveLoop {query : SeedQuery} {relayUrls : List Str} (h : HeardBefore pf query)
    (hheard : ∃ payloads, queryLoop pf query.subId [] payloads = relayUrls) (r : SeedReturn) :
    Heard pf seedRelayUrl hexPubkey parsed (leaveLoop pf query relayUrls r) := by
  rw [leaveLoop]
  cases pf.dumpJson (closeMessage query) with
  | none => exact heard_thrown hne hparse r.dumpError
  | some frame => exact ⟨h, hheard⟩

theorem heard_readOn {query : SeedQuery} {started : ℕ} {relayUrls : List Str}
    (h : HeardBefore pf query)
    (hheard : ∃ payloads, ∀ more,
      queryLoop pf query.subId [] (payloads ++ more) = queryLoop pf query.subId relayUrls more)
    (r : SeedReturn) :
    Heard pf seedRelayUrl hexPubkey parsed (readOn pf query started relayUrls r) := by
  rw [readOn]
  split
  · exact ⟨h, hheard⟩
  · obtain ⟨payloads, hpayloads⟩ := hheard
    refine heard_leaveLoop hne hparse h ⟨payloads, ?_⟩ r
    rw [← List.append_nil payloads, hpayloads []]
    rfl

theorem heard_afterQuery {query : SeedQuery} (h : HeardBefore pf query) (payloads : List Str)
    (r : SeedReturn) :
    Heard pf seedRelayUrl hexPubkey parsed
      (afterQuery pf hexPubkey query (queryKindWithWs pf query.subId payloads) r) := by
  cases query with
  | kind10002 =>
    cases hnone : (queryKindWithWs pf SeedQuery.kind10002.subId payloads).isEmpty with
    | false =>
      rw [@afterQuery_first pf hexPubkey payloads [] hnone]
      exact ⟨payloads, [], rfl⟩
    | true =>
      have hbefore : HeardBefore pf .kind3 := ⟨payloads, List.isEmpty_iff.mp hnone⟩
      rw [afterQuery, hnone]
      exact heard_ask hne hparse hbefore r
  | kind3 =>
    obtain ⟨first, hfirst⟩ := h
    rw [afterQuery_second hfirst]
    exact ⟨first, payloads, rfl⟩

theorem Heard.returned {stage : SeedStage} (h : Heard pf seedRelayUrl hexPubkey parsed stage)
    (r : SeedReturn) :
    Heard pf seedRelayUrl hexPubkey parsed (stage.returned pf seedRelayUrl hexPubkey parsed r) := by
  cases stage with
  | resolving | securing => exact trivial
  | connecting =>
    rw [SeedStage.returned]
    split
    · assumption
    · trivial
  | settingSni =>
    rw [SeedStage.returned]
    split
    · exact h
    · refine ⟨.answers false [] [], ?_⟩
      rw [querySeedRelay, hne, hparse]
      simp [show parsed.secure = true from h]
  | upgrading =>
    have hbefore : HeardBefore pf .kind10002 := trivial
    exact heard_ask hne hparse hbefore r
  | requesting query frame => exact heard_readOn hne hparse h ⟨[], fun _ => rfl⟩ r
  | reading query started relayUrls =>
    obtain ⟨hbefore, payloads, hpayloads⟩ := h
    have hturn : ∀ more, queryLoop pf query.subId [] ((payloads ++ [r.payload]) ++ more) =
        queryLoop pf query.subId relayUrls (r.payload :: more) := fun more => by
      rw [List.append_assoc]
      exact hpayloads (r.payload :: more)
    simp only [queryLoop_turn query.subId relayUrls r.payload] at hturn
    rw [SeedStage.returned]
    dsimp only
    split
    · next hdone =>
      refine heard_leaveLoop hne hparse hbefore ⟨payloads ++ [r.payload], ?_⟩ r
      have hlast := hturn []
      rwa [List.append_nil, if_pos hdone] at hlast
    · next hgoes =>
      refine heard_readOn hne hparse hbefore ⟨payloads ++ [r.payload], fun more => ?_⟩ r
      exact (hturn more).trans (if_neg hgoes)
  | unsubscribing query frame relayUrls =>
    obtain ⟨hbefore, payloads, rfl⟩ := h
    exact heard_afterQuery hne hparse hbefore payloads r
  | closing result =>
    obtain ⟨kind10002, kind3, rfl⟩ := h
    exact ⟨.answers true kind10002 kind3, querySeedRelay_answers hne hparse (by simp)⟩
  | finished outcome => exact h

theorem Heard.step {stage stage' : SeedStage} {r : SeedReturn}
    (h : Heard pf seedRelayUrl hexPubkey parsed stage)
    (hstep : stage.step pf seedRelayUrl hexPubkey parsed r = some stage') :
    Heard pf seedRelayUrl hexPubkey parsed stage' := by
  rcases SeedStage.step_cases hstep with ⟨what, rfl⟩ | rfl
  · exact heard_thrown hne hparse what
  · exact h.returned hne hparse r

end Seed

/-! ## What a search has tried -/

variable (pf hexPubkey) in
/-- The loop has tried these candidates, with this result of the last one and this log. -/
def Tried (tried : List (Str × SeedBehaviour)) (result : BootstrapResult) (logs : List LogLine) : Prop :=
  ∀ more, tryCandidates pf hexPubkey {} (tried ++ more) =
    ((tryCandidates pf hexPubkey result more).1, logs ++ (tryCandidates pf hexPubkey result more).2)

theorem tryCandidates_ok {candidate : Str} {seed : SeedBehaviour} {last result : BootstrapResult}
    {seedLogs : List LogLine} (rest : List (Str × SeedBehaviour))
    (h : querySeedRelay pf candidate hexPubkey seed = .ok (result, seedLogs)) (hok : result.ok = true) :
    tryCandidates pf hexPubkey last ((candidate, seed) :: rest) =
      (result, trying candidate :: seedLogs ++ [seedSucceeded candidate result]) := by
  rw [tryCandidates, h]
  simp only [hok, if_true]
  rfl

theorem tryCandidates_failed {candidate : Str} {seed : SeedBehaviour} {last result : BootstrapResult}
    {seedLogs : List LogLine} (rest : List (Str × SeedBehaviour))
    (h : querySeedRelay pf candidate hexPubkey seed = .ok (result, seedLogs)) (hok : result.ok = false) :
    tryCandidates pf hexPubkey last ((candidate, seed) :: rest) =
      ((tryCandidates pf hexPubkey result rest).1,
        (trying candidate :: seedLogs ++ [seedFailed candidate result.error]) ++
          (tryCandidates pf hexPubkey result rest).2) := by
  rw [tryCandidates, h]
  simp only [hok, Bool.false_eq_true, if_false]
  exact Prod.ext rfl (List.append_assoc (trying candidate :: seedLogs)
    [seedFailed candidate result.error] _).symm

theorem tryCandidates_threw {candidate : Str} {seed : SeedBehaviour} {last : BootstrapResult}
    {what : Str} (rest : List (Str × SeedBehaviour))
    (h : querySeedRelay pf candidate hexPubkey seed = .error what) :
    tryCandidates pf hexPubkey last ((candidate, seed) :: rest) =
      ((tryCandidates pf hexPubkey { last with ok := false, error := what } rest).1,
        [trying candidate, seedThrew candidate what] ++
          (tryCandidates pf hexPubkey { last with ok := false, error := what } rest).2) := by
  rw [tryCandidates, h]
  rfl

theorem Tried.failed {tried : List (Str × SeedBehaviour)} {last result : BootstrapResult}
    {logs seedLogs : List LogLine} (h : Tried pf hexPubkey tried last logs) {candidate : Str}
    {seed : SeedBehaviour}
    (hseed : querySeedRelay pf candidate hexPubkey seed = .ok (result, seedLogs))
    (hok : result.ok = false) :
    Tried pf hexPubkey (tried ++ [(candidate, seed)]) result
      (logs ++ [trying candidate] ++ seedLogs ++ [seedFailed candidate result.error]) := by
  intro more
  rw [List.append_assoc, List.singleton_append, h, tryCandidates_failed more hseed hok]
  simp

theorem Tried.threw {tried : List (Str × SeedBehaviour)} {last : BootstrapResult}
    {logs : List LogLine} (h : Tried pf hexPubkey tried last logs) {candidate what : Str}
    {seed : SeedBehaviour} (hseed : querySeedRelay pf candidate hexPubkey seed = .error what) :
    Tried pf hexPubkey (tried ++ [(candidate, seed)]) { last with ok := false, error := what }
      (logs ++ [trying candidate] ++ [seedThrew candidate what]) := by
  intro more
  rw [List.append_assoc, List.singleton_append, h, tryCandidates_threw more hseed]
  simp

/-- The list of the candidates with their behaviours, from a behaviour of each place. -/
theorem exists_behaviour {candidates : List Str} {pairs : List (Str × SeedBehaviour)}
    (h : pairs.map Prod.fst = candidates) :
    ∃ behaviour : ℕ → SeedBehaviour,
      (candidates.mapIdx fun i candidate => (candidate, behaviour i)) = pairs := by
  refine ⟨fun i => (pairs[i]?.map Prod.snd).getD (.throws []), ?_⟩
  subst h
  refine List.ext_getElem (by simp) fun i _ hi => ?_
  simp [hi]

theorem resolve_of_tried {pairs : List (Str × SeedBehaviour)} {result : BootstrapResult}
    {logs : List LogLine} (h : pairs.map Prod.fst = candidateSeeds seedRelayUrl)
    (hpairs : tryCandidates pf hexPubkey {} pairs = (result, logs)) :
    ∃ behaviour, resolveRelaysForPubkey pf hexPubkey seedRelayUrl behaviour =
      (result, logs ++ if !result.ok then
        [(.error, lit "Bootstrap failed on all seed relays — using emergency fallback set")] else []) := by
  obtain ⟨behaviour, hbehaviour⟩ := exists_behaviour h
  refine ⟨behaviour, ?_⟩
  rw [resolveRelaysForPubkey]
  dsimp only
  rw [hbehaviour, hpairs]
  dsimp only
  split
  · rfl
  · rw [List.append_nil]

variable (pf seedRelayUrl hexPubkey) in
/-- What the search has heard. -/
def SearchHeard : SeedSearch → Prop
  | .asking candidate parsed stage rest result logs =>
    hexPubkey.isEmpty = false ∧ parseRelayUrl candidate = some parsed ∧
      Heard pf candidate hexPubkey parsed stage ∧
      ∃ tried before, tried.map Prod.fst ++ candidate :: rest = candidateSeeds seedRelayUrl ∧
        logs = before ++ [trying candidate] ∧ Tried pf hexPubkey tried result before
  | .ended result logs =>
    ∃ behaviour, resolveRelaysForPubkey pf hexPubkey seedRelayUrl behaviour = (result, logs)

theorem searchHeard_tryNext {tried : List (Str × SeedBehaviour)} {result : BootstrapResult}
    {logs : List LogLine} (candidates : List Str)
    (hall : tried.map Prod.fst ++ candidates = candidateSeeds seedRelayUrl)
    (h : Tried pf hexPubkey tried result logs) :
    SearchHeard pf seedRelayUrl hexPubkey (tryNext hexPubkey result logs candidates) := by
  induction candidates generalizing tried result logs with
  | nil =>
    rw [List.append_nil] at hall
    have hend := h []
    rw [List.append_nil, tryCandidates, List.append_nil] at hend
    exact resolve_of_tried hall hend
  | cons candidate rest ih =>
    have hnext : ∀ seed, (tried ++ [(candidate, seed)]).map Prod.fst ++ rest =
        candidateSeeds seedRelayUrl := fun seed => by simpa using hall
    -- a refusal is the answer of the candidate, whatever its behaviour
    have hrefuse : ∀ error : Str,
        querySeedRelay pf candidate hexPubkey (.throws []) = .ok ({ error := error }, []) →
        SearchHeard pf seedRelayUrl hexPubkey (tryNext hexPubkey { error := error }
          (logs ++ [trying candidate, seedFailed candidate error]) rest) := fun error hseed => by
      refine ih (hnext (.throws [])) ?_
      simpa using h.failed hseed rfl
    rw [tryNext]
    dsimp only
    split
    · next hempty => exact hrefuse _ (by rw [querySeedRelay, if_pos hempty])
    · next hne =>
      split
      · next hparse => exact hrefuse _ (by rw [querySeedRelay, if_neg hne, hparse])
      · next parsed hparse =>
        exact ⟨Bool.not_eq_true _ ▸ hne, hparse, trivial, tried, logs, hall, rfl, h⟩

theorem SearchHeard.step {search search' : SeedSearch} {r : SeedReturn}
    (h : SearchHeard pf seedRelayUrl hexPubkey search)
    (hstep : search.step pf hexPubkey r = some search') :
    SearchHeard pf seedRelayUrl hexPubkey search' := by
  cases search with
  | ended result logs => cases hstep
  | asking candidate parsed stage rest result logs =>
    obtain ⟨hne, hparse, hheard, tried, before, hall, rfl, htried⟩ := h
    obtain ⟨stage', hstage, rfl⟩ := Option.map_eq_some_iff.mp hstep
    have hheard' := hheard.step hne hparse hstage
    split
    · next outcome =>
      obtain ⟨seed, hseed⟩ := hheard'
      have hnext : (tried ++ [(candidate, seed)]).map Prod.fst ++ rest =
          candidateSeeds seedRelayUrl := by simpa using hall
      rcases outcome with what | ⟨result', seedLogs⟩
      · exact searchHeard_tryNext rest hnext (htried.threw hseed)
      · rw [afterSeed]
        cases hok : result'.ok with
        | false =>
          rw [if_neg Bool.false_ne_true]
          exact searchHeard_tryNext rest hnext (htried.failed hseed hok)
        | true =>
          rw [if_pos rfl]
          -- the candidates that are not asked may do anything
          have hend := htried ((candidate, seed) :: rest.map fun other => (other, .throws []))
          rw [tryCandidates_ok _ hseed hok] at hend
          have hpairs : (tried ++ (candidate, seed) ::
              rest.map fun other => (other, SeedBehaviour.throws [])).map Prod.fst =
              candidateSeeds seedRelayUrl := by
            simpa [Function.comp_def] using hall
          obtain ⟨behaviour, hbehaviour⟩ := resolve_of_tried hpairs hend
          refine ⟨behaviour, hbehaviour.trans ?_⟩
          simp [hok]
    · exact ⟨hne, hparse, hheard', tried, before, hall, rfl, htried⟩

/-! ## Every behaviour is that of a conversation -/

variable (pf) in
/-- The frames of the two queries can be written. -/
def FramesWritten (hexPubkey : Str) : Prop :=
  ∀ query, (pf.dumpJson (reqMessage hexPubkey query)).isSome = true ∧
    (pf.dumpJson (closeMessage query)).isSome = true

theorem queryMessages_plain (h : IsUtf8 hexPubkey) (query : SeedQuery) :
    (reqMessage hexPubkey query).Plain ∧ (closeMessage query).Plain := by
  have hsub : (Json.string query.subId).Plain := .string (by cases query <;> exact isUtf8_of_all rfl)
  have hauthors : (Json.array [.string hexPubkey]).Plain := by
    refine .array fun j hj => ?_
    rw [List.mem_singleton.mp hj]
    exact .string h
  have hkinds : (Json.array [.integer query.kind]).Plain := by
    refine .array fun j hj => ?_
    rw [List.mem_singleton.mp hj]
    cases query <;> exact .integer (by decide) (by decide)
  have hlimit : (Json.integer 20).Plain := .integer (by decide) (by decide)
  have hfilter : (Json.object [(lit "authors", .array [.string hexPubkey]),
      (lit "kinds", .array [.integer query.kind]), (lit "limit", .integer 20)]).Plain := by
    have hkeys : [lit "authors", lit "kinds", lit "limit"].Pairwise (· < ·) := by decide
    refine .object hkeys ?_ ?_
    · simp only [List.forall_mem_cons]
      exact ⟨isUtf8_of_all rfl, isUtf8_of_all rfl, isUtf8_of_all rfl, List.forall_mem_nil _⟩
    · simp only [List.forall_mem_cons]
      exact ⟨hauthors, hkinds, hlimit, List.forall_mem_nil _⟩
  constructor
  · refine .array ?_
    simp only [List.forall_mem_cons]
    exact ⟨.string (isUtf8_of_all rfl), hsub, hfilter, List.forall_mem_nil _⟩
  · refine .array ?_
    simp only [List.forall_mem_cons]
    exact ⟨.string (isUtf8_of_all rfl), hsub, List.forall_mem_nil _⟩

theorem framesWritten (hjson : ParseInvertsDump pf) (h : IsUtf8 hexPubkey) :
    FramesWritten pf hexPubkey := fun query => by
  obtain ⟨req, hreq, -⟩ := hjson _ (queryMessages_plain h query).1
  obtain ⟨close, hclose, -⟩ := hjson _ (queryMessages_plain h query).2
  rw [hreq, hclose]
  exact ⟨rfl, rfl⟩

section Converse
variable (hframes : FramesWritten pf hexPubkey)

theorem stage_run_cons {stage stage' stage'' : SeedStage} {r : SeedReturn} {rs : List SeedReturn}
    (hstep : stage.step pf seedRelayUrl hexPubkey parsed r = some stage')
    (hrun : run (SeedStage.step pf seedRelayUrl hexPubkey parsed) stage' rs = some stage'') :
    run (SeedStage.step pf seedRelayUrl hexPubkey parsed) stage (r :: rs) = some stage'' :=
  run_cons_eq_some.mpr ⟨stage', hstep, hrun⟩

include hframes

theorem exists_requesting (query : SeedQuery) (r : SeedReturn) :
    ∃ frame, ask pf hexPubkey query r = .requesting query frame := by
  obtain ⟨frame, hframe⟩ := Option.isSome_iff_exists.mp (hframes query).1
  exact ⟨frame, by rw [ask, hframe]⟩

theorem exists_unsubscribing (query : SeedQuery) (relayUrls : List Str) (r : SeedReturn) :
    ∃ frame, leaveLoop pf query relayUrls r = .unsubscribing query frame relayUrls := by
  obtain ⟨frame, hframe⟩ := Option.isSome_iff_exists.mp (hframes query).2
  exact ⟨frame, by rw [leaveLoop, hframe]⟩

/-- The messages are read one after the other; the last of them comes at the end of the window, when none
of them is the EOSE. -/
theorem exists_reads (query : SeedQuery) (payload : Str) (payloads relayUrls : List Str) :
    ∃ returns frame, run (SeedStage.step pf seedRelayUrl hexPubkey parsed)
      (.reading query 0 relayUrls) returns =
        some (.unsubscribing query frame (queryLoop pf query.subId relayUrls (payload :: payloads))) := by
  induction payloads generalizing payload relayUrls with
  | nil =>
    obtain ⟨frame, hframe⟩ := exists_unsubscribing hframes query
      (messageTurn pf query.subId relayUrls payload).1 { payload := payload, now := kQueryWindow }
    refine ⟨[{ payload := payload, now := kQueryWindow }], frame, ?_⟩
    have hlast : queryLoop pf query.subId relayUrls [payload] =
        (messageTurn pf query.subId relayUrls payload).1 := by
      rw [queryLoop_turn, queryLoop, ite_self]
    rw [hlast, ← hframe]
    refine stage_run_cons (congrArg some ?_) (run_nil _)
    dsimp only [SeedStage.returned]
    have hlate : ¬ kQueryWindow < 0 + kQueryWindow := by simp
    rw [readOn, if_neg hlate, ite_self]
  | cons next payloads ih =>
    cases hdone : (messageTurn pf query.subId relayUrls payload).2 with
    | true =>
      obtain ⟨frame, hframe⟩ := exists_unsubscribing hframes query
        (messageTurn pf query.subId relayUrls payload).1 { payload := payload }
      refine ⟨[{ payload := payload }], frame, ?_⟩
      rw [queryLoop_turn, if_pos hdone, ← hframe]
      refine stage_run_cons (congrArg some ?_) (run_nil _)
      dsimp only [SeedStage.returned]
      rw [if_pos hdone]
    | false =>
      obtain ⟨returns, frame, hrun⟩ := ih next (messageTurn pf query.subId relayUrls payload).1
      refine ⟨{ payload := payload } :: returns, frame, stage_run_cons ?_ (hrun.trans ?_)⟩
      · refine congrArg some ?_
        dsimp only [SeedStage.returned]
        have hearly : 0 < 0 + kQueryWindow := by decide
        rw [if_neg (by simp [hdone]), readOn, if_pos hearly]
      · rw [queryLoop_turn query.subId relayUrls payload, if_neg (by simp [hdone])]

/-- A query hears the messages, and goes on with their relays. -/
theorem exists_query (query : SeedQuery) (payloads : List Str) (frame : Str) :
    ∃ returns, run (SeedStage.step pf seedRelayUrl hexPubkey parsed) (.requesting query frame) returns =
      some (afterQuery pf hexPubkey query (queryKindWithWs pf query.subId payloads) {}) := by
  have hclosed : ∀ closeFrame, run (SeedStage.step pf seedRelayUrl hexPubkey parsed)
      (.unsubscribing query closeFrame (queryLoop pf query.subId [] payloads)) [{}] =
        some (afterQuery pf hexPubkey query (queryKindWithWs pf query.subId payloads) {}) :=
    fun _ => rfl
  cases payloads with
  | nil =>
    obtain ⟨closeFrame, hframe⟩ := exists_unsubscribing hframes query [] { now := kQueryWindow }
    refine ⟨[{ now := kQueryWindow }, {}], stage_run_cons (congrArg some ?_) (hclosed closeFrame)⟩
    dsimp only [SeedStage.returned]
    have hlate : ¬ kQueryWindow < 0 + kQueryWindow := by simp
    rw [readOn, if_neg hlate, hframe]
    rfl
  | cons payload payloads =>
    obtain ⟨returns, closeFrame, hrun⟩ := exists_reads hframes query payload payloads []
    refine ⟨{} :: (returns ++ [{}]), stage_run_cons (congrArg some ?_)
      (run_append_eq_some.mpr ⟨_, hrun, hclosed closeFrame⟩)⟩
    dsimp only [SeedStage.returned]
    have hearly : 0 < 0 + kQueryWindow := by decide
    rw [readOn, if_pos hearly]

theorem exists_queries (kind10002 kind3 : List Str) :
    ∃ returns, run (SeedStage.step pf seedRelayUrl hexPubkey parsed) (ask pf hexPubkey .kind10002 {})
      returns = some (.closing (queryBothKinds pf kind10002 kind3)) := by
  obtain ⟨frame, hframe⟩ := exists_requesting hframes .kind10002 {}
  obtain ⟨first, hfirst⟩ := @exists_query pf seedRelayUrl hexPubkey parsed hframes .kind10002 kind10002 frame
  rw [hframe]
  cases hnone : (queryKindWithWs pf SeedQuery.kind10002.subId kind10002).isEmpty with
  | false =>
    rw [afterQuery_first hnone] at hfirst
    exact ⟨first, hfirst⟩
  | true =>
    obtain ⟨frame3, hframe3⟩ := exists_requesting hframes .kind3 {}
    obtain ⟨second, hsecond⟩ := @exists_query pf seedRelayUrl hexPubkey parsed hframes .kind3 kind3 frame3
    rw [afterQuery_second (List.isEmpty_iff.mp hnone)] at hsecond
    rw [afterQuery, hnone] at hfirst
    exact ⟨first ++ second, run_append_eq_some.mpr ⟨_, hfirst, hframe3 ▸ hsecond⟩⟩

omit hframes in
theorem exists_opening :
    ∃ returns, run (SeedStage.step pf seedRelayUrl hexPubkey parsed) .resolving returns =
      some (ask pf hexPubkey .kind10002 {}) := by
  cases hsecure : parsed.secure with
  | true =>
    have hnext : SeedStage.returned pf seedRelayUrl hexPubkey parsed .connecting {} = .settingSni :=
      if_pos hsecure
    refine ⟨[{}, {}, {}, {}, {}], stage_run_cons rfl (stage_run_cons (congrArg some hnext) rfl)⟩
  | false =>
    have hnext : SeedStage.returned pf seedRelayUrl hexPubkey parsed .connecting {} = .upgrading :=
      if_neg (by simp [hsecure])
    exact ⟨[{}, {}, {}], stage_run_cons rfl (stage_run_cons (congrArg some hnext) rfl)⟩

theorem exists_seed (hne : hexPubkey.isEmpty = false) (hparse : parseRelayUrl seedRelayUrl = some parsed)
    (seed : SeedBehaviour) :
    ∃ returns, run (SeedStage.step pf seedRelayUrl hexPubkey parsed) .resolving returns =
      some (.finished (querySeedRelay pf seedRelayUrl hexPubkey seed)) := by
  cases seed with
  | throws what =>
    refine ⟨[{ thrown := some what }], ?_⟩
    rw [querySeedRelay, hne, hparse]
    rfl
  | answers sniSet kind10002 kind3 =>
    cases hsni : parsed.secure && !sniSet with
    | true =>
      obtain ⟨hsecure, hset⟩ := Bool.and_eq_true_iff.mp hsni
      refine ⟨[{}, {}, { sniSet := false }], ?_⟩
      rw [querySeedRelay, hne, hparse]
      dsimp only
      rw [hsni]
      have hnext : SeedStage.returned pf seedRelayUrl hexPubkey parsed .connecting {} = .settingSni :=
        if_pos hsecure
      exact stage_run_cons rfl (stage_run_cons (congrArg some hnext) rfl)
    | false =>
      obtain ⟨opening, hopening⟩ := @exists_opening pf seedRelayUrl hexPubkey parsed
      obtain ⟨queries, hqueries⟩ :=
        @exists_queries pf seedRelayUrl hexPubkey parsed hframes kind10002 kind3
      have hclosed : run (SeedStage.step pf seedRelayUrl hexPubkey parsed)
          (.closing (queryBothKinds pf kind10002 kind3)) [{}] = some (.finished
            (querySeedRelay pf seedRelayUrl hexPubkey (.answers sniSet kind10002 kind3))) := by
        rw [querySeedRelay_answers hne hparse hsni]
        rfl
      exact ⟨_, run_append_eq_some.mpr ⟨_, hopening, run_append_eq_some.mpr ⟨_, hqueries, hclosed⟩⟩⟩

end Converse

/-- A conversation that comes to its end is a part of the search. -/
theorem search_run_seed {candidate : Str} {stage : SeedStage} {rest : List Str}
    {result : BootstrapResult} {logs : List LogLine}
    {outcome : Except Str (BootstrapResult × List LogLine)} {returns : List SeedReturn}
    (hstage : ∀ outcome, stage ≠ .finished outcome)
    (h : run (SeedStage.step pf candidate hexPubkey parsed) stage returns = some (.finished outcome)) :
    run (SeedSearch.step pf hexPubkey) (.asking candidate parsed stage rest result logs) returns =
      some (afterSeed hexPubkey candidate rest result logs outcome) := by
  induction returns generalizing stage with
  | nil => exact absurd (Option.some.inj h) (hstage outcome)
  | cons r returns ih =>
    obtain ⟨stage', hstep, hrun⟩ := run_cons_eq_some.mp h
    refine run_cons_eq_some.mpr ⟨_, Option.map_eq_some_iff.mpr ⟨stage', hstep, rfl⟩, ?_⟩
    split
    · next other =>
      cases returns with
      | nil =>
        obtain rfl := SeedStage.finished.inj (Option.some.inj hrun)
        rfl
      | cons r' returns =>
        obtain ⟨_, hnone, -⟩ := run_cons_eq_some.mp hrun
        cases hnone
    · next hother => exact ih hother hrun

/-- The candidates are asked one after the other, each with its behaviour. -/
theorem exists_search (hframes : FramesWritten pf hexPubkey) (pairs : List (Str × SeedBehaviour))
    (result : BootstrapResult) (logs : List LogLine) :
    ∃ returns, run (SeedSearch.step pf hexPubkey) (tryNext hexPubkey result logs (pairs.map Prod.fst))
      returns = some (.ended (tryCandidates pf hexPubkey result pairs).1
        (logs ++ (tryCandidates pf hexPubkey result pairs).2 ++
          if !(tryCandidates pf hexPubkey result pairs).1.ok then
            [(.error, lit "Bootstrap failed on all seed relays — using emergency fallback set")]
          else [])) := by
  induction pairs generalizing result logs with
  | nil => exact ⟨[], by rw [List.map_nil, tryNext, run_nil, tryCandidates, List.append_nil]⟩
  | cons pair rest ih =>
    obtain ⟨candidate, seed⟩ := pair
    have hrefuse : ∀ error : Str,
        querySeedRelay pf candidate hexPubkey seed = .ok ({ error := error }, []) →
        ∃ returns, run (SeedSearch.step pf hexPubkey) (tryNext hexPubkey { error := error }
          (logs ++ [trying candidate, seedFailed candidate error]) (rest.map Prod.fst)) returns =
          some (.ended (tryCandidates pf hexPubkey result ((candidate, seed) :: rest)).1
            (logs ++ (tryCandidates pf hexPubkey result ((candidate, seed) :: rest)).2 ++
              if !(tryCandidates pf hexPubkey result ((candidate, seed) :: rest)).1.ok then
                [(.error, lit "Bootstrap failed on all seed relays — using emergency fallback set")]
              else [])) := fun error hseed => by
      rw [tryCandidates_failed rest hseed rfl]
      simpa using ih { error := error } (logs ++ [trying candidate, seedFailed candidate error])
    rw [List.map_cons, tryNext]
    dsimp only
    split
    · next hempty => exact hrefuse _ (by rw [querySeedRelay, if_pos hempty])
    · next hne =>
      split
      · next hparse => exact hrefuse _ (by rw [querySeedRelay, if_neg hne, hparse])
      · next parsed hparse =>
        obtain ⟨first, hfirst⟩ := exists_seed hframes (Bool.not_eq_true _ ▸ hne) hparse seed
        have hsearch := @search_run_seed pf hexPubkey parsed candidate .resolving (rest.map Prod.fst)
          result (logs ++ [trying candidate]) _ first nofun hfirst
        rcases hseed : querySeedRelay pf candidate hexPubkey seed with what | ⟨answer, seedLogs⟩
        · rw [hseed, afterSeed] at hsearch
          rw [tryCandidates_threw rest hseed]
          obtain ⟨more, hmore⟩ := ih { result with ok := false, error := what }
            (logs ++ [trying candidate] ++ [seedThrew candidate what])
          refine ⟨first ++ more, run_append_eq_some.mpr ⟨_, hsearch, ?_⟩⟩
          simpa using hmore
        · rw [hseed, afterSeed] at hsearch
          cases hok : answer.ok with
          | true =>
            rw [hok, if_pos rfl] at hsearch
            rw [tryCandidates_ok rest hseed hok]
            refine ⟨first, hsearch.trans ?_⟩
            simp [hok]
          | false =>
            rw [hok, if_neg Bool.false_ne_true] at hsearch
            rw [tryCandidates_failed rest hseed hok]
            obtain ⟨more, hmore⟩ := ih answer
              (logs ++ [trying candidate] ++ seedLogs ++ [seedFailed candidate answer.error])
            refine ⟨first ++ more, run_append_eq_some.mpr ⟨_, hsearch, ?_⟩⟩
            simpa using hmore

/-- **The conversation computes the bootstrap.** A search that has come to its end has the result and the log
of the bootstrap for some behaviour of the seeds, whatever the network returned and when; and the bootstrap
for every behaviour of the seeds is that of a search. -/
theorem seed_search_refines (hjson : ParseInvertsDump pf) (hpubkey : IsUtf8 hexPubkey)
    (result : BootstrapResult) (logs : List LogLine) :
    (∃ returns, run (SeedSearch.step pf hexPubkey) (SeedSearch.start seedRelayUrl hexPubkey) returns =
        some (.ended result logs)) ↔
      ∃ behaviour, resolveRelaysForPubkey pf hexPubkey seedRelayUrl behaviour = (result, logs) := by
  constructor
  · rintro ⟨returns, hrun⟩
    have hnone : Tried pf hexPubkey [] {} [] := fun _ => rfl
    have hstart : SearchHeard pf seedRelayUrl hexPubkey (SeedSearch.start seedRelayUrl hexPubkey) :=
      searchHeard_tryNext (candidateSeeds seedRelayUrl) rfl hnone
    have hend : SearchHeard pf seedRelayUrl hexPubkey (.ended result logs) :=
      run_invariant (fun _ _ _ h hstep => SearchHeard.step h hstep) hstart hrun
    exact hend
  · rintro ⟨behaviour, hresolve⟩
    have hpairs : ((candidateSeeds seedRelayUrl).mapIdx fun i candidate =>
        (candidate, behaviour i)).map Prod.fst = candidateSeeds seedRelayUrl := rfl
    obtain ⟨returns, hrun⟩ := exists_search (framesWritten hjson hpubkey)
      ((candidateSeeds seedRelayUrl).mapIdx fun i candidate => (candidate, behaviour i)) {} []
    rw [hpairs, List.nil_append] at hrun
    refine ⟨returns, hrun.trans ?_⟩
    rw [resolveRelaysForPubkey] at hresolve
    dsimp only at hresolve
    split at hresolve
    · next hfailed =>
      rw [if_pos hfailed, ← (Prod.mk.inj hresolve).1, ← (Prod.mk.inj hresolve).2]
    · next hok =>
      rw [if_neg hok, List.append_nil, ← (Prod.mk.inj hresolve).1, ← (Prod.mk.inj hresolve).2]

/-- No seed has a relay list: the first of them has the fallback set. -/
theorem seed_search_refines_fallback :
    ∃ returns, run (SeedSearch.step textPlatform (lit "00"))
      (SeedSearch.start kDefaultSeed (lit "00")) returns =
        some (.ended
          (resolveRelaysForPubkey textPlatform (lit "00") kDefaultSeed fun _ => .answers true [] []).1
          (resolveRelaysForPubkey textPlatform (lit "00") kDefaultSeed fun _ => .answers true [] []).2) :=
  (seed_search_refines RelaySession.textPlatform_laws.1 (isUtf8_of_all rfl) _ _).mpr
    ⟨fun _ => .answers true [] [], rfl⟩

end Monitostr.Net
