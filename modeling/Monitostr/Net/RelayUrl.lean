import Mathlib.Data.List.Infix
import Mathlib.Data.List.TakeWhile
import Monitostr.Net.SessionSteps

/-! # Relay URLs and their parses

A relay URL is a scheme, an authority up to the first `/` or `?`, and the rest. `ParseRelayUrl` accepts
those whose authority starts with a host; the parse determines the URL, up to an explicit default port and
an empty path.
-/

namespace Monitostr.Net
set_option autoImplicit false

def schemeText (secure : Bool) : Str := if secure then lit "wss://" else lit "ws://"

def schemePort (secure : Bool) : Str := if secure then lit "443" else lit "80"

/-- The bytes that end an authority: `/` and `?`. -/
def startsTarget (c : UInt8) : Bool := c == 47 || c == 63

/-- The authority of what follows the scheme. -/
def authorityOf (value : Str) : Str := value.takeWhile fun c => !startsTarget c

def afterAuthority (value : Str) : Str := value.dropWhile fun c => !startsTarget c

/-- The target of a request for what follows the authority. -/
def targetOf : Str → Str
  | [] => lit "/"
  | c :: rest => if c = 63 then lit "/" ++ c :: rest else c :: rest

/-- The port of what follows the host in the authority, which starts with `:`. -/
def portOf (defaultPort : Str) : Str → Str
  | [] => defaultPort
  | _ :: port => port

/-! ## What the parser computes -/

theorem splitRelayHostAndTarget_eq (relay : Str) :
    splitRelayHostAndTarget relay =
      { host := authorityOf relay, target := targetOf (afterAuthority relay) } := by
  have hnot : (fun c : UInt8 => !!startsTarget c) = fun c => c == 47 || c == 63 := by
    funext c
    rw [Bool.not_not, startsTarget]
  rw [splitRelayHostAndTarget, authorityOf, afterAuthority, List.takeWhile_eq_take_findIdx_not,
    List.dropWhile_eq_drop_findIdx_not, hnot]
  cases hfind : relay.findIdx? fun c => c == 47 || c == 63 with
  | none =>
    rw [List.findIdx?_eq_none_iff_findIdx_eq.mp hfind, List.take_length, List.drop_length]
    rfl
  | some targetPos =>
    obtain ⟨hlt, hidx⟩ := List.findIdx?_eq_some_iff_findIdx_eq.mp hfind
    have hdrop := List.drop_eq_getElem_cons hlt
    rw [hidx]
    dsimp only
    rw [hdrop, targetOf, List.getElem?_eq_getElem hlt]
    by_cases hquery : relay[targetPos] = 63
    · rw [if_pos (congrArg some hquery), if_pos hquery]
    · rw [if_neg fun h => hquery (Option.some.inj h), if_neg hquery]

theorem parseAuthority_eq (secure : Bool) (defaultPort value : Str) :
    parseAuthority secure defaultPort value =
      if (authorityOf value).takeWhile (· != 58) = [] then none
      else some {
        secure := secure
        host := (authorityOf value).takeWhile (· != 58)
        port := portOf defaultPort ((authorityOf value).dropWhile (· != 58))
        target := targetOf (afterAuthority value) } := by
  have hnot : (fun c : UInt8 => !(c != 58)) = fun c => c == 58 := by
    funext c
    exact Bool.not_not _
  rw [parseAuthority, splitRelayHostAndTarget_eq, List.takeWhile_eq_take_findIdx_not,
    List.dropWhile_eq_drop_findIdx_not, hnot]
  dsimp only
  cases hfind : (authorityOf value).findIdx? (· == 58) with
  | none =>
    rw [List.findIdx?_eq_none_iff_findIdx_eq.mp hfind, List.take_length, List.drop_length]
    simp [portOf]
  | some colon =>
    obtain ⟨hlt, hidx⟩ := List.findIdx?_eq_some_iff_findIdx_eq.mp hfind
    rw [hidx, List.drop_eq_getElem_cons hlt, portOf]
    simp

theorem parseRelayUrl_append (secure : Bool) (value : Str) :
    parseRelayUrl (schemeText secure ++ value) =
      parseAuthority secure (schemePort secure) value := by
  cases secure <;> rfl

/-- A URL that parses has a scheme. -/
theorem scheme_of_parse {u : Str} {r : ParsedRelayUrl} (h : parseRelayUrl u = some r) :
    ∃ secure value, u = schemeText secure ++ value := by
  rw [parseRelayUrl] at h
  split at h
  · rename_i hwss
    obtain ⟨value, rfl⟩ := List.isPrefixOf_iff_prefix.mp hwss
    exact ⟨true, value, rfl⟩
  · split at h
    · rename_i hws
      obtain ⟨value, rfl⟩ := List.isPrefixOf_iff_prefix.mp hws
      exact ⟨false, value, rfl⟩
    · cases h

theorem schemeText_append_inj {secure secure' : Bool} {value value' : Str}
    (h : schemeText secure ++ value = schemeText secure' ++ value') :
    secure = secure' ∧ value = value' := by
  have hbyte : (schemeText secure ++ value)[2]? = (schemeText secure' ++ value')[2]? := by rw [h]
  cases secure <;> cases secure'
  · exact ⟨rfl, List.append_cancel_left h⟩
  · exact absurd (Option.some.inj hbyte) (by decide)
  · exact absurd (Option.some.inj hbyte) (by decide)
  · exact ⟨rfl, List.append_cancel_left h⟩

theorem authorityOf_append {authority t : Str} (h : ∀ c ∈ authority, startsTarget c = false)
    (ht : ∀ c, t.head? = some c → startsTarget c = true) :
    authorityOf (authority ++ t) = authority ∧ afterAuthority (authority ++ t) = t := by
  have hall : ∀ c ∈ authority, (!startsTarget c) = true := fun c hc => by rw [h c hc]; rfl
  have hrest : t.takeWhile (fun c => !startsTarget c) = [] ∧
      t.dropWhile (fun c => !startsTarget c) = t := by
    cases t with
    | nil => exact ⟨rfl, rfl⟩
    | cons c t =>
      have hc : ¬(!startsTarget c) = true := by rw [ht c rfl]; exact Bool.false_ne_true
      exact ⟨List.takeWhile_cons_of_neg hc, List.dropWhile_cons_of_neg hc⟩
  rw [authorityOf, afterAuthority, List.takeWhile_append_of_pos hall,
    List.dropWhile_append_of_pos hall, hrest.1, hrest.2, List.append_nil]
  exact ⟨rfl, rfl⟩

theorem authorityOf_append_afterAuthority (value : Str) :
    authorityOf value ++ afterAuthority value = value :=
  List.takeWhile_append_dropWhile

theorem startsTarget_eq_false {c : UInt8} : startsTarget c = false ↔ c ≠ 47 ∧ c ≠ 63 := by
  simp [startsTarget]

theorem ne_of_mem_authorityOf {value : Str} {c : UInt8} (h : c ∈ authorityOf value) :
    c ≠ 47 ∧ c ≠ 63 := by
  have hnot := List.mem_takeWhile_imp h
  rw [Bool.not_eq_true'] at hnot
  exact startsTarget_eq_false.mp hnot

theorem startsTarget_head_afterAuthority {value : Str} {c : UInt8}
    (h : (afterAuthority value).head? = some c) : startsTarget c = true := by
  have hnot := List.head?_dropWhile_not (fun c => !startsTarget c) value
  rw [afterAuthority] at h
  rw [h] at hnot
  simpa using hnot

/-- The host in an authority, and the port text after it. -/
theorem authority_split (defaultPort authority : Str) :
    authority = authority.takeWhile (· != 58) ∧
        portOf defaultPort (authority.dropWhile (· != 58)) = defaultPort ∨
      authority = authority.takeWhile (· != 58) ++
        58 :: portOf defaultPort (authority.dropWhile (· != 58)) := by
  have hsplit : authority.takeWhile (· != 58) ++ authority.dropWhile (· != 58) = authority :=
    List.takeWhile_append_dropWhile
  have hcolon := List.head?_dropWhile_not (· != (58 : UInt8)) authority
  cases hdrop : authority.dropWhile (· != 58) with
  | nil =>
    rw [hdrop, List.append_nil] at hsplit
    exact Or.inl ⟨hsplit.symm, rfl⟩
  | cons c port =>
    rw [hdrop] at hsplit hcolon
    obtain rfl : c = 58 := by simpa using hcolon
    exact Or.inr hsplit.symm

/-! ## The parts of a URL -/

/-- `u` is put together from the parts of its parse `r`, an authority and what follows it. -/
structure Recomposes (u : Str) (r : ParsedRelayUrl) (authority t : Str) : Prop where
  url : u = schemeText r.secure ++ (authority ++ t)
  authority : authority = r.host ∧ r.port = schemePort r.secure ∨
    authority = r.host ++ 58 :: r.port
  host_ne_nil : r.host ≠ []
  host : ∀ c ∈ r.host, c ≠ 47 ∧ c ≠ 63 ∧ c ≠ 58
  port : ∀ c ∈ r.port, c ≠ 47 ∧ c ≠ 63
  target : t = [] ∧ r.target = lit "/" ∨ t.head? = some 47 ∧ r.target = t ∨
    t.head? = some 63 ∧ r.target = lit "/" ++ t

theorem targetOf_cases {t : Str} (h : ∀ c, t.head? = some c → startsTarget c = true) :
    t = [] ∧ targetOf t = lit "/" ∨ t.head? = some 47 ∧ targetOf t = t ∨
      t.head? = some 63 ∧ targetOf t = lit "/" ++ t := by
  cases t with
  | nil => exact Or.inl ⟨rfl, rfl⟩
  | cons c t =>
    refine Or.inr ?_
    have hc : c = 47 ∨ c = 63 := by
      have hstarts := h c rfl
      simpa [startsTarget] using hstarts
    obtain rfl | rfl := hc
    · exact Or.inl ⟨rfl, rfl⟩
    · exact Or.inr ⟨rfl, rfl⟩

theorem recomposes_of_parse {u : Str} {r : ParsedRelayUrl} (h : parseRelayUrl u = some r) :
    ∃ authority t, Recomposes u r authority t := by
  obtain ⟨secure, value, rfl⟩ := scheme_of_parse h
  rw [parseRelayUrl_append, parseAuthority_eq] at h
  obtain ⟨hhost, hr⟩ := Option.ite_none_left_eq_some.mp h
  obtain rfl := Option.some.inj hr
  have hsplit := authority_split (schemePort secure) (authorityOf value)
  refine ⟨authorityOf value, afterAuthority value, ?_, hsplit, hhost, ?_, ?_,
    targetOf_cases fun c => startsTarget_head_afterAuthority⟩
  · rw [authorityOf_append_afterAuthority]
  · intro c hc
    have hmem := ne_of_mem_authorityOf ((List.takeWhile_sublist _).subset hc)
    exact ⟨hmem.1, hmem.2, by simpa using List.mem_takeWhile_imp hc⟩
  · have hdefault : (schemePort secure).all (fun c => !startsTarget c) = true := by
      cases secure <;> rfl
    intro c hc
    rcases hsplit with ⟨-, hport⟩ | hauthority
    · exact startsTarget_eq_false.mp (by simpa using List.all_eq_true.mp hdefault c (hport ▸ hc))
    · have hmem : c ∈ authorityOf value := by
        rw [hauthority]
        exact List.mem_append_right _ (List.mem_cons_of_mem 58 hc)
      exact ne_of_mem_authorityOf hmem

theorem takeWhile_host {host : Str} (h : ∀ c ∈ host, c ≠ 58) (port : Str) :
    host.takeWhile (· != 58) = host ∧ host.dropWhile (· != 58) = [] ∧
      (host ++ 58 :: port).takeWhile (· != 58) = host ∧
      (host ++ 58 :: port).dropWhile (· != 58) = 58 :: port := by
  have hall : ∀ c ∈ host, (c != 58) = true := fun c hc => bne_iff_ne.mpr (h c hc)
  refine ⟨List.takeWhile_eq_self_iff.mpr hall, List.dropWhile_eq_nil_iff.mpr hall, ?_, ?_⟩
  · rw [List.takeWhile_append_of_pos hall]
    exact List.append_nil host
  · rw [List.dropWhile_append_of_pos hall]
    rfl

theorem Recomposes.startsTarget {u authority t : Str} {r : ParsedRelayUrl}
    (h : Recomposes u r authority t) :
    (∀ c ∈ authority, startsTarget c = false) ∧ ∀ c, t.head? = some c → startsTarget c = true := by
  constructor
  · have hhost : ∀ c ∈ r.host, Net.startsTarget c = false := fun c hc =>
      startsTarget_eq_false.mpr ⟨(h.host c hc).1, (h.host c hc).2.1⟩
    have hport : ∀ c ∈ 58 :: r.port, Net.startsTarget c = false :=
      List.forall_mem_cons.mpr ⟨rfl, fun c hc => startsTarget_eq_false.mpr (h.port c hc)⟩
    rcases h.authority with ⟨hauthority, -⟩ | hauthority
    · rwa [hauthority]
    · rw [hauthority]
      exact List.forall_mem_append.mpr ⟨hhost, hport⟩
  · intro c hc
    rcases h.target with ⟨rfl, -⟩ | ⟨ht, -⟩ | ⟨ht, -⟩
    · cases hc
    · obtain rfl := Option.some.inj (ht.symm.trans hc)
      rfl
    · obtain rfl := Option.some.inj (ht.symm.trans hc)
      rfl

theorem Recomposes.targetOf {u authority t : Str} {r : ParsedRelayUrl}
    (h : Recomposes u r authority t) : targetOf t = r.target := by
  rcases h.target with ⟨rfl, htarget⟩ | ⟨ht, htarget⟩ | ⟨ht, htarget⟩
  · exact htarget.symm
  · obtain ⟨rest, rfl⟩ := List.head?_eq_some_iff.mp ht
    exact htarget.symm
  · obtain ⟨rest, rfl⟩ := List.head?_eq_some_iff.mp ht
    exact htarget.symm

theorem parse_of_recomposes {u authority t : Str} {r : ParsedRelayUrl}
    (h : Recomposes u r authority t) : parseRelayUrl u = some r := by
  obtain ⟨hname, hnil, htake, hdrop⟩ := takeWhile_host (fun c hc => (h.host c hc).2.2) r.port
  have hparts : authority.takeWhile (· != 58) = r.host ∧
      portOf (schemePort r.secure) (authority.dropWhile (· != 58)) = r.port := by
    rcases h.authority with ⟨rfl, hdefault⟩ | rfl
    · exact ⟨hname, (congrArg (portOf _) hnil).trans hdefault.symm⟩
    · exact ⟨htake, congrArg (portOf _) hdrop⟩
  obtain ⟨hof, hafter⟩ := authorityOf_append h.startsTarget.1 h.startsTarget.2
  rw [h.url, parseRelayUrl_append, parseAuthority_eq, hof, hafter, hparts.1, hparts.2, h.targetOf,
    if_neg h.host_ne_nil]

/-! ## Nothing is lost -/

/-- `u` is spelled with the parts of `r`: a port or nothing, a `/` or nothing, and the rest of the path and
the query, with which the target ends. -/
structure Spelled (r : ParsedRelayUrl) (rest : Str) (port path : Str) (u : Str) : Prop where
  url : u = schemeText r.secure ++ r.host ++ port ++ path ++ rest
  port : port = 58 :: r.port ∨ port = [] ∧ r.port = schemePort r.secure
  path : path = lit "/" ∨ path = [] ∧ (rest = [] ∨ rest.head? = some 63)

theorem spelled_of_recomposes {u authority t : Str} {r : ParsedRelayUrl}
    (h : Recomposes u r authority t) :
    ∃ rest port path, r.target = lit "/" ++ rest ∧ Spelled r rest port path u := by
  obtain ⟨port, rfl, hport⟩ : ∃ port, authority = r.host ++ port ∧
      (port = 58 :: r.port ∨ port = [] ∧ r.port = schemePort r.secure) := by
    rcases h.authority with ⟨hhost, hdefault⟩ | hhost
    · exact ⟨[], hhost.trans (List.append_nil _).symm, Or.inr ⟨rfl, hdefault⟩⟩
    · exact ⟨_, hhost, Or.inl rfl⟩
  obtain ⟨path, rest, rfl, htarget, hpath⟩ : ∃ path rest, t = path ++ rest ∧
      r.target = lit "/" ++ rest ∧
      (path = lit "/" ∨ path = [] ∧ (rest = [] ∨ rest.head? = some 63)) := by
    rcases h.target with ⟨rfl, htarget⟩ | ⟨ht, htarget⟩ | ⟨ht, htarget⟩
    · exact ⟨[], [], rfl, htarget, Or.inr ⟨rfl, Or.inl rfl⟩⟩
    · obtain ⟨rest, rfl⟩ := List.head?_eq_some_iff.mp ht
      exact ⟨lit "/", rest, rfl, htarget, Or.inl rfl⟩
    · exact ⟨[], t, rfl, htarget, Or.inr ⟨rfl, Or.inr ht⟩⟩
  refine ⟨rest, port, path, htarget, ?_, hport, hpath⟩
  rw [h.url]
  simp only [List.append_assoc]

/-- URLs with one parse are spellings of it with the same rest. -/
theorem spelled_of_same_parse {u v : Str} {r : ParsedRelayUrl} (hu : parseRelayUrl u = some r)
    (hv : parseRelayUrl v = some r) :
    ∃ rest port port' path path', r.target = lit "/" ++ rest ∧ Spelled r rest port path u ∧
      Spelled r rest port' path' v := by
  obtain ⟨_, _, hu⟩ := recomposes_of_parse hu
  obtain ⟨_, _, hv⟩ := recomposes_of_parse hv
  obtain ⟨rest, port, path, htarget, hu⟩ := spelled_of_recomposes hu
  obtain ⟨rest', port', path', htarget', hv⟩ := spelled_of_recomposes hv
  obtain rfl := List.append_cancel_left (htarget.symm.trans htarget')
  exact ⟨rest, port, port', path, path', htarget, hu, hv⟩

/-- **Nothing is lost.** A URL has a parse exactly when it is put together from the parts of it. URLs with
one parse differ at most in an explicit default port and in an empty path for `/`. What follows the
authority is the end of the target, with which a session starts its handshake. -/
theorem parseRelayUrl_lossless :
    (∀ u r, parseRelayUrl u = some r ↔ ∃ authority t, Recomposes u r authority t) ∧
    (∀ u v r, parseRelayUrl u = some r → parseRelayUrl v = some r →
      ∃ rest port port' path path', r.target = lit "/" ++ rest ∧ Spelled r rest port path u ∧
        Spelled r rest port' path' v) ∧
    (∀ u r authority t, parseRelayUrl u = some r → u = schemeText r.secure ++ (authority ++ t) →
      (∀ c ∈ authority, startsTarget c = false) → (∀ c, t.head? = some c → startsTarget c = true) →
        t <:+ r.target ∧ ∀ (pf : Platform) (m : Moment) (s : RelaySession) (o : Outcome),
          s.parsedRelay = r → o.ec = none →
            .start (.wsHandshake r.host r.target) ∈ (s.onTlsHandshake pf m o).2) := by
  refine ⟨fun u r => ⟨recomposes_of_parse, fun ⟨_, _, h⟩ => parse_of_recomposes h⟩, ?_, ?_⟩
  · exact fun u v r => spelled_of_same_parse
  · intro u r authority t hparse hu hauthority hhead
    obtain ⟨authority', t', h⟩ := recomposes_of_parse hparse
    obtain ⟨-, hafter⟩ := authorityOf_append hauthority hhead
    obtain ⟨-, hafter'⟩ := authorityOf_append h.startsTarget.1 h.startsTarget.2
    have ht : t = t' := by
      rw [← hafter, ← hafter', List.append_cancel_left (hu.symm.trans h.url)]
    refine ⟨?_, ?_⟩
    · rw [ht]
      rcases h.target with ⟨rfl, htarget⟩ | ⟨-, htarget⟩ | ⟨-, htarget⟩
      · exact List.nil_suffix
      · exact htarget ▸ List.suffix_refl t'
      · exact htarget ▸ List.suffix_append _ t'
    · rintro pf m s o rfl hec
      rw [RelaySession.onTlsHandshake, hec]
      simp

end Monitostr.Net
