import Monitostr.Net.SeedOrder
import Monitostr.Net.SessionSteps

/-! # From messages to a relay list

Which list a seed relay's messages give: the relays of the events for the subscription before its first
EOSE, without those that do not parse or are insecure, each at its first occurrence.

The source reads JSON with accesses that raise exceptions on values of another type. The first part has
its functions with these accesses; none of them raises one, whatever the messages are.
-/

namespace Monitostr.Net
open Foundations Model
set_option autoImplicit false

/-! ## The accesses of the source -/

/-- What an access of nlohmann-json raises on a value that it is not meant for. -/
inductive JsonError
  | typeError
  | outOfRange

namespace Accesses

def isArray : Json → Bool
  | .array _ => true
  | _ => false

def isString : Json → Bool
  | .string _ => true
  | _ => false

/-- `size()`. -/
def size : Json → ℕ
  | .null => 0
  | .array elements => elements.length
  | .object members => members.length
  | _ => 1

/-- The elements that a range-based `for` goes over. -/
def items : Json → List Json
  | .null => []
  | .array elements => elements
  | .object members => members.map Prod.snd
  | other => [other]

/-- `get<std::string>()`. -/
def getString : Json → Except JsonError Str
  | .string s => .ok s
  | _ => .error .typeError

/-- `operator[]` with an index, which must be less than the size. -/
def element (i : ℕ) : Json → Except JsonError Json
  | .array elements =>
    match elements[i]? with
    | some e => .ok e
    | none => .error .outOfRange
  | _ => .error .typeError

/-- `operator[]` with a key, which must be a key of the object. -/
def member (key : Str) : Json → Except JsonError Json
  | .object members =>
    match members.lookup key with
    | some value => .ok value
    | none => .error .outOfRange
  | _ => .error .typeError

def relayTag (tag : Json) : Except JsonError (Option Str) :=
  if !isArray tag || size tag < 2 then .ok none
  else do
    let first ← element 0 tag
    if !isString first then .ok none
    else do
      let second ← element 1 tag
      if !isString second then .ok none
      else do
        let key ← getString first
        let value ← getString second
        .ok (if key = lit "r" ∧ isRelayUrlLike value then some value else none)

def relayString (item : Json) : Except JsonError (Option Str) :=
  if !isString item then .ok none
  else do
    let value ← getString item
    .ok (if isRelayUrlLike value then some value else none)

def relaysOfTags (event : Json) : Except JsonError (List Str) :=
  if (event.member? (lit "tags")).isNone then .ok []
  else do
    let tags ← member (lit "tags") event
    if !isArray tags then .ok []
    else do
      let relays ← (items tags).mapM relayTag
      .ok (relays.filterMap id)

def relaysOfContent (pf : Platform) (event : Json) : Except JsonError (List Str) :=
  if (event.member? (lit "content")).isNone then .ok []
  else do
    let value ← member (lit "content") event
    if !isString value then .ok []
    else do
      let content ← getString value
      match pf.parseJson content with
      | none => .ok []
      | some (.object members) => .ok ((members.map Prod.fst).filter isRelayUrlLike)
      | some parsed =>
        if !isArray parsed then .ok []
        else do
          let relays ← (items parsed).mapM relayString
          .ok (relays.filterMap id)

def extractRelayUrlsFromEvent (pf : Platform) (event : Json) : Except JsonError (List Str) := do
  let fromTags ← relaysOfTags event
  let fromContent ← relaysOfContent pf event
  .ok (fromTags ++ fromContent)

/-- Whether the second element of a message is the subscription id. -/
def forSubscription (subId : Str) (message : Json) : Except JsonError Bool :=
  if size message < 2 then .ok false
  else do
    let second ← element 1 message
    if !isString second then .ok false
    else do
      let id ← getString second
      .ok (id = subId)

/-- The relays of a message, and whether it ends the loop. -/
def relaysOfMessage (pf : Platform) (subId : Str) (message : Json) :
    Except JsonError (List Str × Bool) :=
  if !isArray message || size message = 0 then .ok ([], false)
  else do
    let head ← element 0 message
    if !isString head then .ok ([], false)
    else do
      let type ← getString head
      let forUs ← forSubscription subId message
      let relays ←
        if type = lit "EVENT" ∧ 3 ≤ size message ∧ forUs then do
          let event ← element 2 message
          if event.isObject then extractRelayUrlsFromEvent pf event else .ok []
        else .ok []
      .ok (relays, type = lit "EOSE" ∧ forUs)

def queryLoop (pf : Platform) (subId : Str) : List Str → List Str → Except JsonError (List Str)
  | relayUrls, [] => .ok relayUrls
  | relayUrls, payload :: payloads =>
    match pf.parseJson payload with
    | none => queryLoop pf subId relayUrls payloads
    | some message => do
      let (relays, done) ← relaysOfMessage pf subId message
      if done then .ok (relayUrls ++ relays)
      else queryLoop pf subId (relayUrls ++ relays) payloads

def queryKindWithWs (pf : Platform) (subId : Str) (payloads : List Str) :
    Except JsonError (List Str) := do
  let relayUrls ← queryLoop pf subId [] payloads
  .ok (deduplicate relayUrls)

/-! ### No access raises an exception -/

theorem mapM_eq_ok {α β : Type} {f : α → Except JsonError β} {g : α → β} {l : List α}
    (h : ∀ a ∈ l, f a = .ok (g a)) : l.mapM f = .ok (l.map g) := by
  induction l with
  | nil => rfl
  | cons a l ih =>
    rw [List.mapM_cons, h a List.mem_cons_self, ih fun b hb => h b (List.mem_cons_of_mem a hb)]
    rfl

theorem relayTag_eq (tag : Json) : relayTag tag = .ok (Net.relayTag tag) := by
  cases tag with
  | array elements =>
    match elements with
    | [] => rfl
    | [first] => cases first <;> rfl
    | first :: second :: rest =>
      cases first with
      | string key =>
        cases second with
        | string value => rfl
        | _ => rfl
      | _ => rfl
  | _ => rfl

theorem relayString_eq (item : Json) : relayString item = .ok (Net.relayString item) := by
  cases item <;> rfl

theorem member_eq {event value : Json} {key : Str} (h : event.member? key = some value) :
    member key event = .ok value := by
  cases event with
  | object members =>
    change members.lookup key = some value at h
    rw [member, h]
  | _ => cases h

theorem relaysOfTags_eq (event : Json) : relaysOfTags event = .ok (
    match event.member? (lit "tags") with
    | some (.array tags) => tags.filterMap Net.relayTag
    | _ => []) := by
  rw [relaysOfTags]
  cases htags : event.member? (lit "tags") with
  | none => rfl
  | some tags =>
    rw [Option.isNone_some, if_neg Bool.false_ne_true, member_eq htags]
    cases tags with
    | array tags =>
      change (tags.mapM relayTag >>= fun relays => .ok (relays.filterMap id)) = _
      rw [mapM_eq_ok fun tag _ => relayTag_eq tag]
      exact congrArg Except.ok (List.filterMap_map ..)
    | _ => rfl

theorem relaysOfContent_eq (pf : Platform) (event : Json) : relaysOfContent pf event = .ok (
    match (event.member? (lit "content")).bind Json.getString? with
    | none => []
    | some content =>
      match pf.parseJson content with
      | some (.object members) => (members.map Prod.fst).filter isRelayUrlLike
      | some (.array items) => items.filterMap Net.relayString
      | _ => []) := by
  rw [relaysOfContent]
  cases hcontent : event.member? (lit "content") with
  | none => rfl
  | some value =>
    rw [Option.isNone_some, if_neg Bool.false_ne_true, member_eq hcontent]
    cases value with
    | string content =>
      change (match pf.parseJson content with
        | none => _
        | some (.object members) => _
        | some parsed => _) = Except.ok (match pf.parseJson content with
        | some (.object members) => (members.map Prod.fst).filter isRelayUrlLike
        | some (.array items) => items.filterMap Net.relayString
        | _ => [])
      cases hparse : pf.parseJson content with
      | none => rfl
      | some parsed =>
        cases parsed with
        | array items =>
          change (items.mapM relayString >>= fun relays => .ok (relays.filterMap id)) = _
          rw [mapM_eq_ok fun item _ => relayString_eq item]
          exact congrArg Except.ok (List.filterMap_map ..)
        | _ => rfl
    | _ => rfl

theorem extractRelayUrlsFromEvent_eq (pf : Platform) (event : Json) :
    extractRelayUrlsFromEvent pf event = .ok (Net.extractRelayUrlsFromEvent pf event) := by
  rw [extractRelayUrlsFromEvent, relaysOfTags_eq, relaysOfContent_eq]
  rfl

end Accesses

/-! ## The messages that count -/

section Messages
variable (pf : Platform) (subId : Str)

/-- The event of an EVENT message for the subscription. -/
def eventFor (payload : Str) : Option Json :=
  match pf.parseJson payload with
  | some (.array (.string type :: .string id :: event :: _)) =>
    if type = lit "EVENT" ∧ id = subId ∧ event.isObject then some event else none
  | _ => none

/-- An EOSE message for the subscription. -/
def endsFor (payload : Str) : Bool :=
  match pf.parseJson payload with
  | some (.array (.string type :: .string id :: _)) => type = lit "EOSE" ∧ id = subId
  | _ => false

/-- The events for the subscription before its first EOSE. -/
def eventsBeforeEnd (payloads : List Str) : List Json :=
  (payloads.takeWhile fun payload => !endsFor pf subId payload).filterMap (eventFor pf subId)

/-- The relays that these events name and that can be monitored, each at its first occurrence. -/
def relayList (payloads : List Str) : List Str :=
  (((eventsBeforeEnd pf subId payloads).flatMap (extractRelayUrlsFromEvent pf)).filter
    isSecureRelay).eraseDups

def relaysFor (payload : Str) : List Str :=
  ((eventFor pf subId payload).map (extractRelayUrlsFromEvent pf)).getD []

variable {pf subId}

theorem eventFor_of_endsFor {payload : Str} (h : endsFor pf subId payload = true) :
    eventFor pf subId payload = none := by
  rw [endsFor] at h
  rw [eventFor]
  generalize pf.parseJson payload = parsed at h ⊢
  split at h
  · rename_i type id rest
    obtain ⟨rfl, -⟩ := of_decide_eq_true h
    cases rest with
    | nil => rfl
    | cons event rest => exact if_neg fun hevent => absurd hevent.1 (by decide)
  · cases h

namespace Accesses

theorem relaysOfMessage_of_not_for {type : Str} {rest : List Json}
    (h : forSubscription subId (.array (.string type :: rest)) = .ok false) :
    relaysOfMessage pf subId (.array (.string type :: rest)) = .ok ([], false) := by
  change (do
    let forUs ← forSubscription subId (.array (.string type :: rest))
    let relays ←
      if type = lit "EVENT" ∧ 3 ≤ rest.length + 1 ∧ forUs then do
        let event ← element 2 (.array (.string type :: rest))
        if event.isObject then extractRelayUrlsFromEvent pf event else .ok []
      else .ok []
    .ok (relays, decide (type = lit "EOSE" ∧ forUs))) = _
  rw [h]
  simp [bind, Except.bind]

theorem relaysOfMessage_of_string {type id : Str} {rest : List Json} :
    relaysOfMessage pf subId (.array (.string type :: .string id :: rest)) = (do
      let relays ←
        if type = lit "EVENT" ∧ 3 ≤ rest.length + 2 ∧ decide (id = subId) = true then do
          let event ← element 2 (.array (.string type :: .string id :: rest))
          if event.isObject then extractRelayUrlsFromEvent pf event else .ok []
        else .ok []
      .ok (relays, decide (type = lit "EOSE" ∧ decide (id = subId) = true))) :=
  rfl

/-- Every message is read without an exception. -/
theorem relaysOfMessage_eq {payload : Str} {message : Json}
    (h : pf.parseJson payload = some message) :
    relaysOfMessage pf subId message =
      .ok (relaysFor pf subId payload, endsFor pf subId payload) := by
  rw [relaysFor, eventFor, endsFor, h]
  cases message with
  | array elements =>
    match elements with
    | [] => rfl
    | [head] =>
      cases head with
      | string type => exact relaysOfMessage_of_not_for rfl
      | _ => rfl
    | head :: second :: rest =>
      cases head with
      | string type =>
        cases second with
        | string id =>
          rw [relaysOfMessage_of_string]
          cases rest with
          | nil => simp [bind, Except.bind]
          | cons event rest =>
            change (do
              let relays ←
                if type = lit "EVENT" ∧ 3 ≤ rest.length + 3 ∧ decide (id = subId) = true then
                  if event.isObject then extractRelayUrlsFromEvent pf event else .ok []
                else .ok []
              .ok (relays, decide (type = lit "EOSE" ∧ decide (id = subId) = true))) = _
            rw [extractRelayUrlsFromEvent_eq]
            by_cases htype : type = lit "EVENT" <;> by_cases hid : id = subId <;>
              cases hobject : event.isObject <;> simp [bind, Except.bind, htype, hid, hobject]
        | _ => exact relaysOfMessage_of_not_for rfl
      | _ => rfl
  | _ => rfl

end Accesses

theorem eventsBeforeEnd_cons (payload : Str) (payloads : List Str) :
    (eventsBeforeEnd pf subId (payload :: payloads)).flatMap (extractRelayUrlsFromEvent pf) =
      if endsFor pf subId payload then []
      else relaysFor pf subId payload ++
        (eventsBeforeEnd pf subId payloads).flatMap (extractRelayUrlsFromEvent pf) := by
  rw [eventsBeforeEnd, List.takeWhile_cons]
  cases hends : endsFor pf subId payload with
  | true => rfl
  | false =>
    rw [Bool.not_false, if_pos rfl, if_neg Bool.false_ne_true, relaysFor, eventsBeforeEnd]
    cases hevent : eventFor pf subId payload with
    | none => rw [List.filterMap_cons_none hevent]; rfl
    | some event => rw [List.filterMap_cons_some hevent, List.flatMap_cons]; rfl

/-! ## The loop -/

theorem queryLoop_cons (relayUrls : List Str) (payload : Str) (payloads : List Str) :
    queryLoop pf subId relayUrls (payload :: payloads) =
      if endsFor pf subId payload then relayUrls
      else queryLoop pf subId (relayUrls ++ relaysFor pf subId payload) payloads := by
  have hne : lit "EVENT" ≠ lit "EOSE" := by decide
  rw [queryLoop, relaysFor, endsFor, eventFor]
  cases hparse : pf.parseJson payload with
  | none => simp
  | some message =>
    cases message with
    | array elements =>
      match elements with
      | [] => simp
      | [head] => cases head <;> simp
      | head :: second :: rest =>
        cases head with
        | string type =>
          cases second with
          | string id =>
            cases rest with
            | nil => simp [Json.getString?]
            | cons event rest =>
              by_cases htype : type = lit "EVENT" <;> by_cases hid : id = subId <;>
                cases hobject : event.isObject <;>
                simp [Json.getString?, htype, hid, hobject, hne]
          | _ => cases rest <;> simp [Json.getString?]
        | _ => simp
    | _ => simp

theorem queryLoop_eq (relayUrls payloads : List Str) :
    queryLoop pf subId relayUrls payloads =
      relayUrls ++ (eventsBeforeEnd pf subId payloads).flatMap (extractRelayUrlsFromEvent pf) := by
  induction payloads generalizing relayUrls with
  | nil => exact (List.append_nil relayUrls).symm
  | cons payload payloads ih =>
    rw [queryLoop_cons, eventsBeforeEnd_cons]
    cases endsFor pf subId payload with
    | true => exact (List.append_nil relayUrls).symm
    | false =>
      rw [if_neg Bool.false_ne_true, if_neg Bool.false_ne_true, ih, List.append_assoc]

theorem Accesses.queryLoop_eq (relayUrls payloads : List Str) :
    Accesses.queryLoop pf subId relayUrls payloads =
      .ok (Net.queryLoop pf subId relayUrls payloads) := by
  induction payloads generalizing relayUrls with
  | nil => rfl
  | cons payload payloads ih =>
    rw [Accesses.queryLoop, queryLoop_cons]
    cases hparse : pf.parseJson payload with
    | none =>
      have hrelays : relaysFor pf subId payload = [] := by rw [relaysFor, eventFor, hparse]; rfl
      have hends : endsFor pf subId payload = false := by rw [endsFor, hparse]
      rw [hrelays, hends, if_neg Bool.false_ne_true, List.append_nil]
      exact ih relayUrls
    | some message =>
      change (Accesses.relaysOfMessage pf subId message >>= fun result =>
        if result.2 then .ok (relayUrls ++ result.1)
        else Accesses.queryLoop pf subId (relayUrls ++ result.1) payloads) = _
      rw [Accesses.relaysOfMessage_eq hparse]
      cases hends : endsFor pf subId payload with
      | true =>
        have hrelays : relaysFor pf subId payload = [] := by
          rw [relaysFor, eventFor_of_endsFor hends]
          rfl
        rw [hrelays]
        exact congrArg Except.ok (List.append_nil relayUrls)
      | false => exact ih _

/-! ## The list -/

theorem supportedRelayUrls_deduplicate (relayUrls : List Str) :
    supportedRelayUrls (deduplicate relayUrls) = (relayUrls.filter isSecureRelay).eraseDups := by
  have hparses : ∀ url, isSecureRelay url = true → (parseRelayUrl url).isSome = true := by
    intro url h
    rw [isSecureRelay] at h
    cases hparse : parseRelayUrl url with
    | none =>
      rw [hparse] at h
      exact absurd h Bool.false_ne_true
    | some parsed => rfl
  have hfilter : ∀ urls : List Str,
      ((urls.filter fun url => (parseRelayUrl url).isSome).filter isSecureRelay) =
        urls.filter isSecureRelay := by
    intro urls
    rw [List.filter_filter]
    refine List.filter_congr fun url _ => ?_
    cases hsecure : isSecureRelay url with
    | true => exact hparses url hsecure
    | false => rfl
  have hkept : (((relayUrls.filter isSecureRelay).eraseDups).filter fun url =>
      (parseRelayUrl url).isSome) = (relayUrls.filter isSecureRelay).eraseDups := by
    refine List.filter_eq_self.mpr fun url hurl => hparses url ?_
    exact (List.mem_filter.mp (List.mem_eraseDups.mp hurl)).2
  rw [supportedRelayUrls, deduplicate_eq, deduplicate_eq, filter_eraseDups, hfilter, hkept,
    eraseDups_of_nodup (nodup_eraseDups _)]

theorem supportedRelayUrls_queryKindWithWs (payloads : List Str) :
    supportedRelayUrls (queryKindWithWs pf subId payloads) = relayList pf subId payloads := by
  rw [queryKindWithWs, supportedRelayUrls_deduplicate, queryLoop_eq, List.nil_append, relayList]

theorem eventsBeforeEnd_append (before after : List Str) :
    eventsBeforeEnd pf subId (before ++ after) = eventsBeforeEnd pf subId before ++
      if before.any (endsFor pf subId) then [] else eventsBeforeEnd pf subId after := by
  induction before with
  | nil => rfl
  | cons payload before ih =>
    rw [eventsBeforeEnd, eventsBeforeEnd, List.cons_append, List.takeWhile_cons, List.takeWhile_cons,
      List.any_cons]
    cases endsFor pf subId payload with
    | true => rfl
    | false =>
      rw [Bool.not_false, if_pos rfl, if_pos rfl, Bool.false_or, List.filterMap_cons,
        List.filterMap_cons]
      cases eventFor pf subId payload with
      | none => exact ih
      | some event => exact congrArg (List.cons event) ih

theorem eventsBeforeEnd_drop {payload : Str} (hevent : eventFor pf subId payload = none)
    (hends : endsFor pf subId payload = false) (before after : List Str) :
    eventsBeforeEnd pf subId (before ++ payload :: after) =
      eventsBeforeEnd pf subId (before ++ after) := by
  have hdrop : eventsBeforeEnd pf subId (payload :: after) = eventsBeforeEnd pf subId after := by
    rw [eventsBeforeEnd, List.takeWhile_cons_of_pos (by rw [hends]; rfl),
      List.filterMap_cons_none hevent]
    rfl
  rw [eventsBeforeEnd_append, eventsBeforeEnd_append, hdrop]

theorem eventsBeforeEnd_after {payload : Str} (hends : endsFor pf subId payload = true)
    (before after : List Str) :
    eventsBeforeEnd pf subId (before ++ payload :: after) = eventsBeforeEnd pf subId before := by
  have hnil : eventsBeforeEnd pf subId (payload :: after) = [] := by
    rw [eventsBeforeEnd, List.takeWhile_cons_of_neg (by rw [hends]; exact Bool.false_ne_true)]
    rfl
  rw [eventsBeforeEnd_append, hnil, ite_self, List.append_nil]

end Messages

/-- `Start` does not refuse the relay: it goes on to resolve its host. -/
def StartsResolving (s : RelaySession) : Prop :=
  ∃ parsed, Net.parseRelayUrl s.relayUrl = some parsed ∧
    s.onStart.2 = [.cancelTimer, s.info (lit "resolving host " ++ parsed.host),
      .stats (.ensureRelay s.relayUrl), s.setStatus .resolving, .start (.resolve parsed.host parsed.port)]

theorem startsResolving_of_secure {s : RelaySession} (h : isSecureRelay s.relayUrl = true) :
    StartsResolving s := by
  obtain ⟨parsed, hparse, hsecure⟩ := (Option.any_eq_true _ _).mp h
  have hhost : parsed.host.isEmpty = false :=
    List.isEmpty_eq_false_iff.mpr (parseRelayUrl_host hparse)
  have hrestarted : s.restarted.parsedRelay = parsed := by
    rw [RelaySession.restarted, hparse]
    rfl
  refine ⟨parsed, hparse, ?_⟩
  change (if s.restarted.parsedRelay.host.isEmpty then _ else
    if !s.restarted.parsedRelay.secure then _ else
      (s.restarted, [.cancelTimer, s.info (lit "resolving host " ++ s.restarted.parsedRelay.host),
        .stats (.ensureRelay s.relayUrl), s.setStatus .resolving] ++ s.restarted.startResolve) :
          RelaySession × List Effect).2 = _
  rw [RelaySession.startResolve, hrestarted, hhost, hsecure]
  rfl

/-- The list of the supported relays among those that a query finds. -/
def queriedRelays (pf : Platform) (subId : Str) (payloads : List Str) : List Str :=
  (filterSupportedRelayUrls (queryKindWithWs pf subId payloads)).1

/-- **Relay lists from messages.** No payload raises an exception in a query, and the supported relays it
finds are those that the events for its subscription name before its EOSE. Payloads that are no such event
and do not end it change nothing, nor does anything after the EOSE; `Start` accepts every relay. -/
theorem queriedRelays_spec (pf : Platform) (subId : Str) (payloads : List Str) :
    Accesses.queryKindWithWs pf subId payloads = .ok (queryKindWithWs pf subId payloads) ∧
    queriedRelays pf subId payloads = relayList pf subId payloads ∧
    (∀ before payload after, payloads = before ++ payload :: after →
      eventFor pf subId payload = none → endsFor pf subId payload = false →
        queriedRelays pf subId (before ++ after) = queriedRelays pf subId payloads) ∧
    (∀ before payload after, payloads = before ++ payload :: after →
      endsFor pf subId payload = true →
        queriedRelays pf subId before = queriedRelays pf subId payloads) ∧
    ∀ url ∈ queriedRelays pf subId payloads, ∀ s : RelaySession, s.relayUrl = url →
      StartsResolving s := by
  have hlist : ∀ payloads, queriedRelays pf subId payloads = relayList pf subId payloads :=
    supportedRelayUrls_queryKindWithWs
  refine ⟨?_, hlist payloads, ?_, ?_, ?_⟩
  · rw [Accesses.queryKindWithWs, Accesses.queryLoop_eq]
    rfl
  · rintro before payload after rfl hevent hends
    rw [hlist, hlist, relayList, relayList, eventsBeforeEnd_drop hevent hends]
  · rintro before payload after rfl hends
    rw [hlist, hlist, relayList, relayList, eventsBeforeEnd_after hends]
  · rintro url hurl s rfl
    rw [hlist, relayList, List.mem_eraseDups] at hurl
    exact startsResolving_of_secure (List.mem_filter.mp hurl).2

end Monitostr.Net
