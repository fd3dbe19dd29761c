import Monitostr.Foundations.Attempts
import Monitostr.Net.BootstrapClient
import Monitostr.Utils.SamplePlatform

/-! # Which seed decides the relay list

A seed that answers ends the search, whatever its answer is good for: a seed without a usable list
hands out the fallback set in the place of a later seed's list. When no seed answers there is no
relay at all. The result is the usable list of the first seed that has one, with the fallback set
for the case that none has, exactly when some seed answers and either the list that the first of
them is judged by is usable or no seed has a usable list.
-/

namespace Monitostr.Net
open Model
set_option autoImplicit false

variable (pf : Platform)

/-! ## What is asked of the candidates -/

/-- What the two queries of a candidate find; `none` when it does not get to answer them. -/
def answer (candidate : Str × SeedBehaviour) : Option (List Str × List Str) :=
  match parseRelayUrl candidate.1, candidate.2 with
  | some parsed, .answers sniSet kind10002 kind3 =>
    if parsed.secure && !sniSet then none
    else some (queryKindWithWs pf (lit "bootstrap-10002") kind10002,
      queryKindWithWs pf (lit "bootstrap-3") kind3)
  | _, _ => none

/-- The secure URLs of the kind-10002 list, or of the kind-3 list when those are none. -/
def usableList (lists : List Str × List Str) : Option (List Str) :=
  if supportedRelayUrls lists.1 ≠ [] then some (supportedRelayUrls lists.1)
  else if supportedRelayUrls lists.2 ≠ [] then some (supportedRelayUrls lists.2)
  else none

/-- The usable list of the first candidate that has one. -/
def firstUsable (candidates : List (Str × SeedBehaviour)) : Option (List Str) :=
  candidates.findSome? fun candidate => (answer pf candidate).bind usableList

/-- The result is the fallback set of one of the candidates. -/
def UsesFallback (candidates : List (Str × SeedBehaviour)) (result : BootstrapResult) : Prop :=
  result.ok = true ∧ result.sourceEventKind = lit "fallback" ∧
    ∃ candidate ∈ candidates,
      result.relayUrls = supportedRelayUrls (fallbackRelayUrls candidate.1)

/-- The result carries the first usable list, and the fallback set exactly when there is none. -/
def CarriesFirstUsable (candidates : List (Str × SeedBehaviour)) (result : BootstrapResult) : Prop :=
  (∀ relayUrls, firstUsable pf candidates = some relayUrls →
    result.ok = true ∧ result.relayUrls = relayUrls) ∧
  (UsesFallback candidates result ↔ firstUsable pf candidates = none)

/-- The list that an answer is judged by: the kind-3 list only when the kind-10002 list is empty
before insecure URLs are taken out. -/
def judgedList (lists : List Str × List Str) : List Str :=
  if lists.1 = [] then lists.2 else lists.1

variable {pf}

/-! ## Lists of relays -/

theorem mem_deduplicate {values : List Str} {url : Str} :
    url ∈ deduplicate values ↔ url ∈ values ∧ (parseRelayUrl url).isSome = true := by
  rw [deduplicate_eq, List.mem_eraseDups, List.mem_filter]

theorem mem_supportedRelayUrls {relayUrls : List Str} {url : Str} :
    url ∈ supportedRelayUrls relayUrls ↔ url ∈ relayUrls ∧ isSecureRelay url = true := by
  rw [supportedRelayUrls, mem_deduplicate, List.mem_filter, isSecureRelay]
  constructor
  · exact fun h => h.1
  · intro h
    refine ⟨h, ?_⟩
    cases hparse : parseRelayUrl url with
    | none =>
      rw [hparse] at h
      cases h.2
    | some parsed => rfl

theorem supported_fallback_ne_nil (seedRelayUrl : Str) :
    supportedRelayUrls (fallbackRelayUrls seedRelayUrl) ≠ [] := by
  refine List.ne_nil_of_mem (a := lit "wss://nos.lol") (mem_supportedRelayUrls.mpr ⟨?_, ?_⟩)
  · rw [fallbackRelayUrls]
    simp
  · decide

/-! ## One candidate -/

theorem supportedRelayUrls_nil : supportedRelayUrls [] = [] := rfl

/-- An answer whose judged list has a secure URL is usable, with the secure URLs of that list. -/
theorem usableList_of_judged {lists : List Str × List Str}
    (h : supportedRelayUrls (judgedList lists) ≠ []) :
    usableList lists = some (supportedRelayUrls (judgedList lists)) := by
  rw [judgedList] at h ⊢
  split at h
  · next hnil =>
    rw [if_pos hnil, usableList, hnil, supportedRelayUrls_nil, if_neg (not_not_intro rfl), if_pos h]
  · next hnil => rw [if_neg hnil, usableList, if_pos h]

theorem queryBothKinds_relayUrls (kind10002 kind3 : List Str) :
    (queryBothKinds pf kind10002 kind3).relayUrls =
      judgedList (queryKindWithWs pf (lit "bootstrap-10002") kind10002,
        queryKindWithWs pf (lit "bootstrap-3") kind3) := by
  rw [queryBothKinds, judgedList]
  cases queryKindWithWs pf (lit "bootstrap-10002") kind10002 with
  | cons url rest => rfl
  | nil => cases queryKindWithWs pf (lit "bootstrap-3") kind3 <;> rfl

theorem queryBothKinds_ok {kind10002 kind3 : List Str}
    (h : (queryBothKinds pf kind10002 kind3).relayUrls ≠ []) :
    (queryBothKinds pf kind10002 kind3).ok = true ∧
      (queryBothKinds pf kind10002 kind3).sourceEventKind ≠ lit "fallback" := by
  have h10002 : lit "10002" ≠ lit "fallback" := by decide
  have h3 : lit "3" ≠ lit "fallback" := by decide
  rw [queryBothKinds] at h ⊢
  dsimp only at h ⊢
  split
  · exact ⟨rfl, h10002⟩
  · next hfirst =>
    rw [if_neg hfirst] at h
    split
    · exact ⟨rfl, h3⟩
    · next hsecond =>
      rw [if_neg hsecond] at h
      exact absurd rfl h

/-- What `QuerySeedRelay` makes of an answer: its judged list, or the fallback set. -/
structure Judged (seedRelayUrl : Str) (lists : List Str × List Str) (result : BootstrapResult) :
    Prop where
  ok : result.ok = true
  usable : supportedRelayUrls (judgedList lists) ≠ [] →
    result.relayUrls = supportedRelayUrls (judgedList lists) ∧
      result.sourceEventKind ≠ lit "fallback"
  unusable : supportedRelayUrls (judgedList lists) = [] →
    result.relayUrls = supportedRelayUrls (fallbackRelayUrls seedRelayUrl) ∧
      result.sourceEventKind = lit "fallback"

theorem querySeedRelay_of_answer {candidate : Str × SeedBehaviour} {hexPubkey : Str}
    {lists : List Str × List Str} (hne : hexPubkey ≠ []) (h : answer pf candidate = some lists) :
    ∃ result logs, querySeedRelay pf candidate.1 hexPubkey candidate.2 = .ok (result, logs) ∧
      Judged candidate.1 lists result := by
  obtain ⟨seedRelayUrl, seed⟩ := candidate
  have hempty : ¬ hexPubkey.isEmpty = true := by simpa using hne
  rw [answer] at h
  rw [querySeedRelay, if_neg hempty]
  dsimp only at h ⊢
  cases hparse : parseRelayUrl seedRelayUrl with
  | none =>
    rw [hparse] at h
    cases h
  | some parsed =>
    rw [hparse] at h
    cases seed with
    | throws what => cases h
    | answers sniSet kind10002 kind3 =>
      dsimp only at h ⊢
      split at h
      · cases h
      · next hsni =>
        obtain rfl := Option.some.inj h
        rw [if_neg hsni, filterSupportedRelayUrls, queryBothKinds_relayUrls]
        dsimp only
        split
        · next hnil =>
          rw [List.isEmpty_iff] at hnil
          exact ⟨_, _, rfl, rfl, fun hne => absurd hnil hne, fun _ => ⟨rfl, rfl⟩⟩
        · next hcons =>
          rw [List.isEmpty_iff] at hcons
          have hlist : (queryBothKinds pf kind10002 kind3).relayUrls ≠ [] := by
            rw [queryBothKinds_relayUrls]
            intro hnil
            rw [hnil] at hcons
            exact hcons supportedRelayUrls_nil
          obtain ⟨hok, hsource⟩ := queryBothKinds_ok hlist
          exact ⟨_, _, rfl, hok, fun _ => ⟨rfl, hsource⟩, fun hnil => absurd hnil hcons⟩

/-- A candidate that does not get to answer throws, or returns a text and no relays. -/
theorem querySeedRelay_of_no_answer {candidate : Str × SeedBehaviour} (hexPubkey : Str)
    (h : answer pf candidate = none) :
    (∃ what, querySeedRelay pf candidate.1 hexPubkey candidate.2 = .error what) ∨
      ∃ text, querySeedRelay pf candidate.1 hexPubkey candidate.2 = .ok ({ error := text }, []) := by
  obtain ⟨seedRelayUrl, seed⟩ := candidate
  rw [answer] at h
  rw [querySeedRelay]
  dsimp only at h ⊢
  split
  · exact Or.inr ⟨_, rfl⟩
  · cases hparse : parseRelayUrl seedRelayUrl with
    | none => exact Or.inr ⟨_, rfl⟩
    | some parsed =>
      rw [hparse] at h
      cases seed with
      | throws what => exact Or.inl ⟨what, rfl⟩
      | answers sniSet kind10002 kind3 =>
        dsimp only at h ⊢
        split at h
        · next hsni =>
          rw [if_pos hsni]
          exact Or.inr ⟨_, rfl⟩
        · cases h

/-! ## The loop over the candidates -/

variable (pf) in
/-- What is left of a candidate: its result when that is good, and the text of its failure otherwise. -/
def outcome (hexPubkey : Str) (candidate : Str × SeedBehaviour) : Except Str BootstrapResult :=
  match querySeedRelay pf candidate.1 hexPubkey candidate.2 with
  | .ok (result, _) => if result.ok then .ok result else .error result.error
  | .error what => .error what

/-- The result that stands for an outcome: a failure has its text only. -/
def resultOf : Except Str BootstrapResult → BootstrapResult
  | .ok result => result
  | .error what => { error := what }

theorem outcome_of_answer {candidate : Str × SeedBehaviour} {hexPubkey : Str}
    {lists : List Str × List Str} (hne : hexPubkey ≠ []) (h : answer pf candidate = some lists) :
    ∃ result, outcome pf hexPubkey candidate = .ok result ∧ Judged candidate.1 lists result := by
  obtain ⟨result, logs, hquery, hjudged⟩ := querySeedRelay_of_answer hne h
  refine ⟨result, ?_, hjudged⟩
  simp only [outcome, hquery, hjudged.ok, if_true]

theorem outcome_of_no_answer {candidate : Str × SeedBehaviour} (hexPubkey : Str)
    (h : answer pf candidate = none) :
    ∃ what, outcome pf hexPubkey candidate = .error what := by
  unfold outcome
  rcases querySeedRelay_of_no_answer hexPubkey h with ⟨what, hquery⟩ | ⟨text, hquery⟩
  · exact ⟨what, by rw [hquery]⟩
  · exact ⟨text, by simp [hquery]⟩

/-- The candidates that succeed are those that get to answer. -/
theorem outcome_foretold {hexPubkey : Str} (hne : hexPubkey ≠ []) :
    Foundations.Foretold (answer pf) (outcome pf hexPubkey) where
  fails _ h := outcome_of_no_answer hexPubkey h
  succeeds _ _ h := (outcome_of_answer hne h).imp fun _ h => h.1

theorem querySeedRelay_nil_pubkey (candidate : Str × SeedBehaviour) :
    querySeedRelay pf candidate.1 [] candidate.2 = .ok ({ error := lit "empty hex pubkey" }, []) := rfl

variable (pf) in
/-- A query that returns has succeeded, or leaves nothing but the text of its failure. -/
theorem querySeedRelay_cases (hexPubkey : Str) (candidate : Str × SeedBehaviour) :
    (∃ what, querySeedRelay pf candidate.1 hexPubkey candidate.2 = .error what) ∨
      (∃ text, querySeedRelay pf candidate.1 hexPubkey candidate.2 = .ok ({ error := text }, [])) ∨
      ∃ result logs, querySeedRelay pf candidate.1 hexPubkey candidate.2 = .ok (result, logs) ∧
        result.ok = true := by
  by_cases hne : hexPubkey = []
  · subst hne
    exact Or.inr (Or.inl ⟨_, querySeedRelay_nil_pubkey candidate⟩)
  · cases hanswer : answer pf candidate with
    | none => exact (querySeedRelay_of_no_answer hexPubkey hanswer).imp id Or.inl
    | some lists =>
      obtain ⟨result, logs, hquery, hjudged⟩ := querySeedRelay_of_answer hne hanswer
      exact Or.inr (Or.inr ⟨result, logs, hquery, hjudged.ok⟩)

/-- The loop tries the candidates in order: what one of them leaves in the result is the text that the
next one overwrites. -/
theorem tryCandidates_fst (hexPubkey start : Str) (candidates : List (Str × SeedBehaviour)) :
    (tryCandidates pf hexPubkey { error := start } candidates).1 =
      resultOf (Foundations.attempts (outcome pf hexPubkey) start candidates) := by
  induction candidates generalizing start with
  | nil => rfl
  | cons candidate rest ih =>
    rw [tryCandidates, Foundations.attempts, outcome]
    rcases querySeedRelay_cases pf hexPubkey candidate with
      ⟨what, hquery⟩ | ⟨text, hquery⟩ | ⟨result, logs, hquery, hok⟩
    · rw [hquery]
      exact ih what
    · rw [hquery]
      exact ih text
    · simp only [hquery, hok, if_true]
      rfl

theorem tryCandidates_of_no_answer {hexPubkey : Str} (hne : hexPubkey ≠ [])
    {candidates : List (Str × SeedBehaviour)} (h : candidates.findSome? (answer pf) = none) :
    (tryCandidates pf hexPubkey {} candidates).1.ok = false := by
  obtain ⟨what, hwhat⟩ := (outcome_foretold hne).attempts_of_none h []
  rw [tryCandidates_fst, hwhat]
  rfl

theorem tryCandidates_of_answer {hexPubkey : Str} (hne : hexPubkey ≠ [])
    {lists : List Str × List Str} {candidates : List (Str × SeedBehaviour)}
    (h : candidates.findSome? (answer pf) = some lists) :
    ∃ candidate ∈ candidates, answer pf candidate = some lists ∧
      outcome pf hexPubkey candidate = .ok (tryCandidates pf hexPubkey {} candidates).1 ∧
      Judged candidate.1 lists (tryCandidates pf hexPubkey {} candidates).1 := by
  obtain ⟨candidate, hc, hanswer, hattempts⟩ := (outcome_foretold hne).attempts_of_found h []
  obtain ⟨result, houtcome, hjudged⟩ := outcome_of_answer hne hanswer
  have hresult : (tryCandidates pf hexPubkey {} candidates).1 = result := by
    rw [tryCandidates_fst, hattempts, houtcome]
    rfl
  rw [hresult]
  exact ⟨candidate, hc, hanswer, houtcome, hjudged⟩

theorem Judged.relayUrls_ne_nil {seedRelayUrl : Str} {lists : List Str × List Str}
    {result : BootstrapResult} (h : Judged seedRelayUrl lists result) : result.relayUrls ≠ [] := by
  by_cases husable : supportedRelayUrls (judgedList lists) = []
  · rw [(h.unusable husable).1]
    exact supported_fallback_ne_nil seedRelayUrl
  · rw [(h.usable husable).1]
    exact husable

/-- Nothing comes before the first answer, so when that one is usable it is the first usable list. -/
theorem firstUsable_of_answer {candidates : List (Str × SeedBehaviour)} {lists : List Str × List Str}
    {relayUrls : List Str} (h : candidates.findSome? (answer pf) = some lists)
    (husable : usableList lists = some relayUrls) : firstUsable pf candidates = some relayUrls := by
  induction candidates with
  | nil => cases h
  | cons candidate rest ih =>
    rw [List.findSome?_cons] at h
    rw [firstUsable, List.findSome?_cons]
    cases hanswer : answer pf candidate with
    | some found =>
      rw [hanswer] at h
      obtain rfl := Option.some.inj h
      rw [Option.bind_some, husable]
    | none =>
      rw [hanswer] at h
      exact ih h

theorem firstUsable_of_no_answer {candidates : List (Str × SeedBehaviour)}
    (h : candidates.findSome? (answer pf) = none) : firstUsable pf candidates = none := by
  rw [firstUsable, List.findSome?_eq_none_iff]
  intro candidate hc
  rw [List.findSome?_eq_none_iff.mp h candidate hc, Option.bind_none]

/-! ## The result -/

def candidatesOf (seedRelayUrl : Str) (behaviour : ℕ → SeedBehaviour) : List (Str × SeedBehaviour) :=
  (candidateSeeds seedRelayUrl).mapIdx fun i candidate => (candidate, behaviour i)

theorem resolveRelaysForPubkey_fst (hexPubkey seedRelayUrl : Str) (behaviour : ℕ → SeedBehaviour) :
    (resolveRelaysForPubkey pf hexPubkey seedRelayUrl behaviour).1 =
      (tryCandidates pf hexPubkey {} (candidatesOf seedRelayUrl behaviour)).1 := by
  rw [resolveRelaysForPubkey, candidatesOf]
  dsimp only
  split <;> rfl

theorem findSome?_of_first_answers {seedRelayUrl : Str} {behaviour : ℕ → SeedBehaviour}
    {lists : List Str × List Str} (h : answer pf (seedRelayUrl, behaviour 0) = some lists) :
    (candidatesOf seedRelayUrl behaviour).findSome? (answer pf) = some lists := by
  rw [candidatesOf, candidateSeeds, List.mapIdx_cons, List.findSome?_cons, h]

variable (pf) in
theorem answer_defaultSeed (kind10002 kind3 : List Str) :
    answer pf (kDefaultSeed, .answers true kind10002 kind3) =
      some (queryKindWithWs pf (lit "bootstrap-10002") kind10002,
        queryKindWithWs pf (lit "bootstrap-3") kind3) := by
  have hparse : (parseRelayUrl kDefaultSeed).isSome = true := by decide
  obtain ⟨parsed, hparsed⟩ := Option.isSome_iff_exists.mp hparse
  simp only [answer, hparsed, Bool.not_true, Bool.and_false, Bool.false_eq_true, if_false]

theorem attempts_nil_pubkey (start : Str) {candidates : List (Str × SeedBehaviour)}
    (h : candidates ≠ []) :
    Foundations.attempts (outcome pf []) start candidates = .error (lit "empty hex pubkey") := by
  induction candidates generalizing start with
  | nil => exact absurd rfl h
  | cons candidate rest ih =>
    rw [Foundations.attempts, outcome, querySeedRelay_nil_pubkey]
    cases rest with
    | nil => rfl
    | cons next rest => exact ih _ (List.cons_ne_nil next rest)

theorem resolve_nil_pubkey {seedRelayUrl : Str} {behaviour : ℕ → SeedBehaviour} :
    (resolveRelaysForPubkey pf [] seedRelayUrl behaviour).1 =
      resultOf (.error (lit "empty hex pubkey")) := by
  rw [resolveRelaysForPubkey_fst, tryCandidates_fst]
  exact congrArg resultOf (attempts_nil_pubkey _ (List.cons_ne_nil _ _))

theorem resolve_relayUrls_ne_nil {hexPubkey seedRelayUrl : Str} {behaviour : ℕ → SeedBehaviour}
    (hok : (resolveRelaysForPubkey pf hexPubkey seedRelayUrl behaviour).1.ok = true) :
    (resolveRelaysForPubkey pf hexPubkey seedRelayUrl behaviour).1.relayUrls ≠ [] := by
  by_cases hne : hexPubkey = []
  · subst hne
    rw [resolve_nil_pubkey] at hok
    cases hok
  · rw [resolveRelaysForPubkey_fst] at hok ⊢
    cases hfind : (candidatesOf seedRelayUrl behaviour).findSome? (answer pf) with
    | none =>
      rw [tryCandidates_of_no_answer hne hfind] at hok
      cases hok
    | some lists =>
      obtain ⟨candidate, -, -, -, hjudged⟩ := tryCandidates_of_answer hne hfind
      exact hjudged.relayUrls_ne_nil

/-- **The result carries the first usable list, and the fallback set exactly when there is none, if
and only if some candidate answers, and the first answer is usable by the list it is judged by or no
candidate has a usable list.** -/
theorem carriesFirstUsable_iff (pf : Platform) (hexPubkey seedRelayUrl : Str)
    (behaviour : ℕ → SeedBehaviour) (hne : hexPubkey ≠ []) :
    CarriesFirstUsable pf (candidatesOf seedRelayUrl behaviour)
        (resolveRelaysForPubkey pf hexPubkey seedRelayUrl behaviour).1 ↔
      ∃ lists, (candidatesOf seedRelayUrl behaviour).findSome? (answer pf) = some lists ∧
        (supportedRelayUrls (judgedList lists) ≠ [] ∨
          firstUsable pf (candidatesOf seedRelayUrl behaviour) = none) := by
  rw [resolveRelaysForPubkey_fst]
  cases hfind : (candidatesOf seedRelayUrl behaviour).findSome? (answer pf) with
  | none =>
    refine iff_of_false (fun hcarries => ?_) (fun ⟨_, h, _⟩ => Option.some_ne_none _ h.symm)
    have hok := (hcarries.2.mpr (firstUsable_of_no_answer hfind)).1
    rw [tryCandidates_of_no_answer hne hfind] at hok
    cases hok
  | some lists =>
    obtain ⟨candidate, hc, -, -, hjudged⟩ := tryCandidates_of_answer hne hfind
    by_cases husable : supportedRelayUrls (judgedList lists) = []
    · obtain ⟨hrelays, hsource⟩ := hjudged.unusable husable
      have hfallback : UsesFallback (candidatesOf seedRelayUrl behaviour) _ :=
        ⟨hjudged.ok, hsource, candidate, hc, hrelays⟩
      constructor
      · intro hcarries
        exact ⟨lists, rfl, Or.inr (hcarries.2.mp hfallback)⟩
      · rintro ⟨lists', hlists, hor⟩
        obtain rfl := Option.some.inj hlists
        have hnone := hor.resolve_left (not_not_intro husable)
        refine ⟨fun relayUrls h => ?_, fun _ => hnone, fun _ => hfallback⟩
        rw [hnone] at h
        cases h
    · obtain ⟨hrelays, hsource⟩ := hjudged.usable husable
      have hfirst := firstUsable_of_answer hfind (usableList_of_judged husable)
      refine iff_of_true ⟨fun relayUrls h => ?_, fun h => absurd h.2.1 hsource, fun h => ?_⟩
        ⟨lists, rfl, Or.inl husable⟩
      · rw [hfirst, Option.some.injEq] at h
        exact ⟨hjudged.ok, hrelays.trans h⟩
      · rw [hfirst] at h
        cases h

def seedsKnow (relayUrl : Str) : ℕ → SeedBehaviour := fun _ =>
  .answers true (relayListPayloads relayUrl) []

def seedsThrow : ℕ → SeedBehaviour := fun _ => .throws (lit "timeout")

/-- The first seed throws and the next one knows a relay: the result carries it. -/
def secondSeedKnows : ℕ → SeedBehaviour
  | 0 => seedsThrow 0
  | i => seedsKnow sampleRelay i

theorem carriesFirstUsable_iff_second :
    CarriesFirstUsable samplePlatform (candidatesOf kDefaultSeed secondSeedKnows)
      (resolveRelaysForPubkey samplePlatform samplePubkeyHex kDefaultSeed secondSeedKnows).1 := by
  refine (carriesFirstUsable_iff samplePlatform samplePubkeyHex kDefaultSeed secondSeedKnows
    (by decide)).mpr ?_
  exact ⟨([sampleRelay], []), by decide +kernel, Or.inl (by decide +kernel)⟩

/-- Every seed throws: no relay is handed out, although the log announces a fallback set. -/
theorem not_carriesFirstUsable_all_throw :
    ¬ CarriesFirstUsable samplePlatform (candidatesOf kDefaultSeed seedsThrow)
      (resolveRelaysForPubkey samplePlatform samplePubkeyHex kDefaultSeed seedsThrow).1 := by
  intro hcarries
  have hnone : firstUsable samplePlatform (candidatesOf kDefaultSeed seedsThrow) = none := by
    decide
  have hok := (hcarries.2.mpr hnone).1
  have hfailed : (resolveRelaysForPubkey samplePlatform samplePubkeyHex kDefaultSeed
      seedsThrow).1.ok = false := by decide
  rw [hfailed] at hok
  cases hok

end Monitostr.Net
