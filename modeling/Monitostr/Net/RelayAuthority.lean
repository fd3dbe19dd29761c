import Monitostr.Net.RelayUrl

/-! # Which authorities are read correctly

The authority of a websocket URL is a host, a registered name, an IPv4 address or an IPv6 literal in square
brackets, and perhaps a port. `ParseRelayUrl` splits what it takes for an authority at its first `:` and
checks that something stands before it. This reads names and IPv4 addresses with a good port; it cuts IPv6
literals, and accepts much that is no authority.
-/

namespace Monitostr.Net
set_option autoImplicit false

/-! ## Hosts and ports -/

/-- The bytes of `-._~` and `!$&'()*+,;=`. -/
def nameSymbols : Str := [45, 46, 95, 126, 33, 36, 38, 39, 40, 41, 42, 43, 44, 59, 61]

/-- A byte that stands for itself in a registered name. -/
def isNameByte (c : UInt8) : Bool := isDigit c || isUpper c || isLower c || nameSymbols.contains c

/-- A registered name: such bytes, and percent-encoded ones. -/
inductive IsRegisteredName : Str → Prop
  | nil : IsRegisteredName []
  | byte (c : UInt8) (s : Str) : isNameByte c = true → IsRegisteredName s → IsRegisteredName (c :: s)
  | encoded (d e : UInt8) (s : Str) : isHexDigit d = true → isHexDigit e = true → IsRegisteredName s →
    IsRegisteredName (37 :: d :: e :: s)

def decimalValue (s : Str) : ℕ := s.foldl (fun n c => 10 * n + (c - 48).toNat) 0

/-- A decimal byte without leading zeros. -/
def IsOctet (s : Str) : Prop :=
  s ≠ [] ∧ (∀ c ∈ s, isDigit c = true) ∧ (s.head? = some 48 → s.length = 1) ∧ decimalValue s ≤ 255

def IsIpv4 (s : Str) : Prop :=
  ∃ a b c d, IsOctet a ∧ IsOctet b ∧ IsOctet c ∧ IsOctet d ∧
    s = List.intercalate (lit ".") [a, b, c, d]

/-- A group of an IPv6 address. -/
def IsGroup (g : Str) : Prop := 1 ≤ g.length ∧ g.length ≤ 4 ∧ ∀ c ∈ g, isHexDigit c = true

/-- Groups with the number of 16-bit words they stand for; the last may be an IPv4 address. -/
inductive IsGroups : List Str → ℕ → Prop
  | words (groups : List Str) : (∀ g ∈ groups, IsGroup g) → IsGroups groups groups.length
  | ipv4 (groups : List Str) (s : Str) : (∀ g ∈ groups, IsGroup g) → IsIpv4 s →
    IsGroups (groups ++ [s]) (groups.length + 2)

inductive IsIpv6 : Str → Prop
  | full (groups : List Str) : IsGroups groups 8 → IsIpv6 (List.intercalate [58] groups)
  | compressed (left right : List Str) (n : ℕ) : (∀ g ∈ left, IsGroup g) → IsGroups right n →
    left.length + n ≤ 7 →
    IsIpv6 (List.intercalate [58] left ++ lit "::" ++ List.intercalate [58] right)

inductive IsHost : Str → Prop
  | name (s : Str) : s ≠ [] → IsRegisteredName s → IsHost s
  | ipv4 (s : Str) : IsIpv4 s → IsHost s
  | ipv6 (s : Str) : IsIpv6 s → IsHost (91 :: s ++ [93])

/-- A decimal port in 1..65535. -/
def IsPort (s : Str) : Prop :=
  s ≠ [] ∧ (∀ c ∈ s, isDigit c = true) ∧ 1 ≤ decimalValue s ∧ decimalValue s ≤ 65535

def portText : Option Str → Str
  | none => []
  | some port => 58 :: port

/-- A websocket URL with its scheme, host and port, and what follows the authority. -/
structure WebsocketUrl (u : Str) (secure : Bool) (host : Str) (port : Option Str) (t : Str) : Prop where
  url : u = schemeText secure ++ (host ++ portText port ++ t)
  host : IsHost host
  port : ∀ p, port = some p → IsPort p
  rest : ∀ c, t.head? = some c → startsTarget c = true

/-- The parser accepts `u` only if it is a websocket URL, and then reads its host and port. -/
def ReadsAuthority (u : Str) : Prop :=
  (∀ r, parseRelayUrl u = some r → ∃ secure host port t, WebsocketUrl u secure host port t) ∧
  ∀ secure host port t, WebsocketUrl u secure host port t →
    ∃ r, parseRelayUrl u = some r ∧ r.host = host ∧ r.port = port.getD (schemePort secure)

/-- When there is a scheme, the authority has nothing before its first `:`, or it is a registered name with
a good port or none. -/
def PlainAuthority (u : Str) : Prop :=
  ∀ secure value, u = schemeText secure ++ value →
    authorityOf value = [] ∨ (authorityOf value).head? = some 58 ∨
      ∃ name port, authorityOf value = name ++ portText port ∧ name ≠ [] ∧
        IsRegisteredName name ∧ ∀ p, port = some p → IsPort p

/-! ## The bytes of hosts -/

/-- No separator of a URL: none of `/`, `?`, `:` and `[`. -/
def isPlain (c : UInt8) : Bool := c != 47 && c != 63 && c != 58 && c != 91

section Class
variable {f : UInt8 → Bool} {c d : UInt8}

/-- A byte of a class is none of the bytes outside it. -/
theorem ne_of_class (hc : f c = true) (hd : f d = false) : c ≠ d := by
  rintro rfl
  rw [hc] at hd
  cases hd

theorem startsTarget_of_class (hc : f c = true) (h : f 47 = false ∧ f 63 = false) :
    startsTarget c = false :=
  startsTarget_eq_false.mpr ⟨ne_of_class hc h.1, ne_of_class hc h.2⟩

theorem isPlain_of_class (hc : f c = true)
    (h : f 47 = false ∧ f 63 = false ∧ f 58 = false ∧ f 91 = false) : isPlain c = true := by
  obtain ⟨hslash, hquery, hcolon, hbracket⟩ := h
  simp [isPlain, ne_of_class hc hslash, ne_of_class hc hquery, ne_of_class hc hcolon,
    ne_of_class hc hbracket]

end Class

theorem isPlain_of_isNameByte {c : UInt8} (h : isNameByte c = true) : isPlain c = true :=
  isPlain_of_class h (by decide)

theorem isPlain_of_isHexDigit {c : UInt8} (h : isHexDigit c = true) : isPlain c = true :=
  isPlain_of_class h (by decide)

theorem IsRegisteredName.isPlain {s : Str} (h : IsRegisteredName s) :
    ∀ c ∈ s, isPlain c = true := by
  induction h with
  | nil => simp
  | byte c s hc _ ih => exact List.forall_mem_cons.mpr ⟨isPlain_of_isNameByte hc, ih⟩
  | encoded d e s hd he _ ih =>
    exact List.forall_mem_cons.mpr ⟨rfl, List.forall_mem_cons.mpr ⟨isPlain_of_isHexDigit hd,
      List.forall_mem_cons.mpr ⟨isPlain_of_isHexDigit he, ih⟩⟩⟩

theorem isRegisteredName_of_bytes {s : Str} (h : ∀ c ∈ s, isNameByte c = true) :
    IsRegisteredName s := by
  induction s with
  | nil => exact .nil
  | cons c s ih =>
    obtain ⟨hc, hs⟩ := List.forall_mem_cons.mp h
    exact .byte c s hc (ih hs)

theorem forall_mem_intercalate {P : UInt8 → Prop} {sep : Str} (hsep : ∀ c ∈ sep, P c)
    {parts : List Str} (h : ∀ part ∈ parts, ∀ c ∈ part, P c) :
    ∀ c ∈ List.intercalate sep parts, P c := by
  induction parts with
  | nil => simp
  | cons part parts ih =>
    obtain ⟨hpart, hparts⟩ := List.forall_mem_cons.mp h
    cases parts with
    | nil => simpa using hpart
    | cons next parts =>
      rw [List.intercalate_cons_cons, List.forall_mem_append, List.forall_mem_append]
      exact ⟨⟨hpart, hsep⟩, ih hparts⟩

/-- The bytes of an IPv4 address. -/
theorem IsIpv4.bytes {s : Str} (h : IsIpv4 s) : ∀ c ∈ s, c = 46 ∨ isDigit c = true := by
  obtain ⟨a, b, c, d, ha, hb, hc, hd, rfl⟩ := h
  have hoctet : ∀ {s : Str}, IsOctet s → ∀ c ∈ s, c = 46 ∨ isDigit c = true :=
    fun hs c hc => Or.inr (hs.2.1 c hc)
  have hdot : ∀ c ∈ lit ".", c = 46 ∨ isDigit c = true :=
    List.forall_mem_singleton.mpr (Or.inl rfl)
  refine forall_mem_intercalate hdot ?_
  simp only [List.forall_mem_cons]
  exact ⟨hoctet ha, hoctet hb, hoctet hc, hoctet hd, by simp⟩

theorem IsIpv4.isRegisteredName {s : Str} (h : IsIpv4 s) : IsRegisteredName s := by
  refine isRegisteredName_of_bytes fun c hc => ?_
  rcases h.bytes c hc with rfl | hdigit
  · rfl
  · rw [isNameByte, hdigit]
    rfl

/-- The bytes of an IPv6 address: `:`, `.` and hexadecimal digits. -/
def isAddressByte (c : UInt8) : Bool := c == 58 || c == 46 || isHexDigit c

theorem isAddressByte_of_group {g : Str} (h : IsGroup g) : ∀ c ∈ g, isAddressByte c = true := by
  intro c hc
  rw [isAddressByte, h.2.2 c hc, Bool.or_true]

theorem isAddressByte_of_ipv4 {s : Str} (h : IsIpv4 s) : ∀ c ∈ s, isAddressByte c = true := by
  intro c hc
  rcases h.bytes c hc with rfl | hdigit
  · rfl
  · rw [isAddressByte, isHexDigit, hdigit]
    simp

theorem isAddressByte_of_groups {groups : List Str} {n : ℕ} (h : IsGroups groups n) :
    ∀ g ∈ groups, ∀ c ∈ g, isAddressByte c = true := by
  cases h with
  | words _ hgroups => exact fun g hg => isAddressByte_of_group (hgroups g hg)
  | ipv4 groups s hgroups hs =>
    refine List.forall_mem_append.mpr ⟨fun g hg => isAddressByte_of_group (hgroups g hg), ?_⟩
    exact List.forall_mem_singleton.mpr (isAddressByte_of_ipv4 hs)

theorem IsIpv6.isAddressByte {s : Str} (h : IsIpv6 s) : ∀ c ∈ s, isAddressByte c = true := by
  have hcolon : ∀ c ∈ [(58 : UInt8)], Net.isAddressByte c = true :=
    List.forall_mem_singleton.mpr rfl
  cases h with
  | full groups hgroups =>
    exact forall_mem_intercalate hcolon (isAddressByte_of_groups hgroups)
  | compressed left right n hleft hright _ =>
    have hcolons : ∀ c ∈ lit "::", Net.isAddressByte c = true :=
      List.forall_mem_cons.mpr ⟨rfl, hcolon⟩
    simp only [List.forall_mem_append]
    exact ⟨⟨forall_mem_intercalate hcolon fun g hg => isAddressByte_of_group (hleft g hg),
      hcolons⟩, forall_mem_intercalate hcolon (isAddressByte_of_groups hright)⟩

theorem two_le_groups {groups : List Str} (h : IsGroups groups 8) : 2 ≤ groups.length := by
  generalize hn : 8 = n at h
  cases h with
  | words => omega
  | ipv4 groups s =>
    rw [List.length_append, List.length_singleton]
    omega

theorem IsIpv6.colon_mem {s : Str} (h : IsIpv6 s) : 58 ∈ s := by
  cases h with
  | full groups hgroups =>
    match groups, two_le_groups hgroups with
    | first :: second :: rest, _ =>
      rw [List.intercalate_cons_cons]
      simp
  | compressed left right n =>
    have hcolons : (58 : UInt8) ∈ lit "::" := by decide
    exact List.mem_append_left _ (List.mem_append_right _ hcolons)

/-! ## The authority of a websocket URL -/

theorem startsTarget_of_mem_literal {s : Str} (h : IsIpv6 s) :
    ∀ c ∈ 91 :: s ++ [93], startsTarget c = false := by
  intro c hc
  rcases List.mem_cons.mp hc with rfl | hc
  · rfl
  · rcases List.mem_append.mp hc with hc | hc
    · exact startsTarget_of_class (h.isAddressByte c hc) (by decide)
    · obtain rfl := List.mem_singleton.mp hc
      rfl

/-- A host is not empty and is not cut short by a `/` or `?`. It is a registered name, or a literal in
brackets, in which there is a `:`. -/
theorem IsHost.cases_name {host : Str} (h : IsHost host) :
    host ≠ [] ∧ (∀ c ∈ host, startsTarget c = false) ∧
      (IsRegisteredName host ∨ (∃ rest, host = 91 :: rest) ∧ 58 ∈ host) := by
  have hname : ∀ {s : Str}, IsRegisteredName s → ∀ c ∈ s, startsTarget c = false :=
    fun hs c hc => startsTarget_of_class (hs.isPlain c hc) (by decide)
  cases h with
  | name _ hne hs => exact ⟨hne, hname hs, Or.inl hs⟩
  | ipv4 _ hs =>
    refine ⟨?_, hname hs.isRegisteredName, Or.inl hs.isRegisteredName⟩
    obtain ⟨a, b, c, d, -, -, -, -, rfl⟩ := hs
    rw [List.intercalate_cons_cons]
    have hdot : lit "." ≠ [] := by decide
    simp [hdot]
  | ipv6 s hs =>
    refine ⟨List.cons_ne_nil _ _, startsTarget_of_mem_literal hs, Or.inr ⟨⟨_, rfl⟩, ?_⟩⟩
    exact List.mem_cons_of_mem 91 (List.mem_append_left _ hs.colon_mem)

theorem startsTarget_portText {port : Option Str} (h : ∀ p, port = some p → IsPort p) :
    ∀ c ∈ portText port, startsTarget c = false := by
  cases port with
  | none => simp [portText]
  | some p =>
    refine List.forall_mem_cons.mpr ⟨rfl, fun c hc => ?_⟩
    exact startsTarget_of_class ((h p rfl).2.1 c hc) (by decide)

theorem WebsocketUrl.authority {u : Str} {secure : Bool} {host : Str} {port : Option Str} {t : Str}
    (h : WebsocketUrl u secure host port t) :
    authorityOf (host ++ portText port ++ t) = host ++ portText port := by
  refine (authorityOf_append (List.forall_mem_append.mpr ⟨?_, ?_⟩) h.rest).1
  · exact h.host.cases_name.2.1
  · exact startsTarget_portText h.port

/-- The parser reads a name with its port. -/
theorem parse_of_name {u : Str} {secure : Bool} {value name : Str} {port : Option Str}
    (hu : u = schemeText secure ++ value) (hauthority : authorityOf value = name ++ portText port)
    (hne : name ≠ []) (hname : IsRegisteredName name) :
    ∃ r, parseRelayUrl u = some r ∧ r.host = name ∧ r.port = port.getD (schemePort secure) := by
  have hcolon : ∀ c ∈ name, c ≠ 58 := fun c hc => ne_of_class (hname.isPlain c hc) (by decide)
  have hparts : (authorityOf value).takeWhile (· != 58) = name ∧
      portOf (schemePort secure) ((authorityOf value).dropWhile (· != 58)) =
        port.getD (schemePort secure) := by
    rw [hauthority]
    cases port with
    | none =>
      rw [portText, List.append_nil, (takeWhile_host hcolon []).1, (takeWhile_host hcolon []).2.1]
      exact ⟨rfl, rfl⟩
    | some p =>
      rw [portText, (takeWhile_host hcolon p).2.2.1, (takeWhile_host hcolon p).2.2.2]
      exact ⟨rfl, rfl⟩
  refine ⟨{ secure := secure, host := name, port := port.getD (schemePort secure)
            target := targetOf (afterAuthority value) }, ?_, rfl, rfl⟩
  rw [hu, parseRelayUrl_append, parseAuthority_eq, hparts.1, hparts.2, if_neg hne]

/-- The host that the parser reads ends before the first `:`. -/
theorem parse_host {u : Str} {secure : Bool} {value : Str} {r : ParsedRelayUrl}
    (hu : u = schemeText secure ++ value) (h : parseRelayUrl u = some r) : 58 ∉ r.host := by
  rw [hu, parseRelayUrl_append, parseAuthority_eq] at h
  obtain ⟨-, hr⟩ := Option.ite_none_left_eq_some.mp h
  rw [← Option.some.inj hr]
  intro hmem
  simpa using List.mem_takeWhile_imp hmem

theorem parse_eq_none_iff {u : Str} {secure : Bool} {value : Str}
    (hu : u = schemeText secure ++ value) :
    parseRelayUrl u = none ↔ authorityOf value = [] ∨ (authorityOf value).head? = some 58 := by
  rw [hu, parseRelayUrl_append, parseAuthority_eq]
  cases authorityOf value with
  | nil => simp
  | cons c rest => by_cases hc : c = 58 <;> simp [hc]

/-! ## When an authority is read correctly -/

theorem plainAuthority_of_readsAuthority {u : Str} (h : ReadsAuthority u) : PlainAuthority u := by
  intro secure value hu
  cases hparse : parseRelayUrl u with
  | none => exact ((parse_eq_none_iff hu).mp hparse).elim Or.inl fun h => Or.inr (Or.inl h)
  | some r =>
    obtain ⟨secure', host, port, t, hvalid⟩ := h.1 r hparse
    obtain ⟨r', hparse', hhost, -⟩ := h.2 secure' host port t hvalid
    obtain rfl := Option.some.inj (hparse.symm.trans hparse')
    obtain ⟨-, rfl⟩ := schemeText_append_inj (hu.symm.trans hvalid.url)
    obtain ⟨hne, -, hname | ⟨-, hcolon⟩⟩ := hvalid.host.cases_name
    · exact Or.inr (Or.inr ⟨host, port, hvalid.authority, hne, hname, hvalid.port⟩)
    · exact absurd (hhost ▸ hcolon) (parse_host hu hparse)

theorem readsAuthority_of_plainAuthority {u : Str} (h : PlainAuthority u) : ReadsAuthority u := by
  constructor
  · intro r hparse
    obtain ⟨secure, value, hu⟩ := scheme_of_parse hparse
    have hnone : ¬(authorityOf value = [] ∨ (authorityOf value).head? = some 58) := fun hnone => by
      rw [(parse_eq_none_iff hu).mpr hnone] at hparse
      cases hparse
    obtain hnil | hcolon | ⟨name, port, hauthority, hne, hname, hport⟩ := h secure value hu
    · exact absurd (Or.inl hnil) hnone
    · exact absurd (Or.inr hcolon) hnone
    · refine ⟨secure, name, port, afterAuthority value, ?_, .name name hne hname, hport,
        fun c => startsTarget_head_afterAuthority⟩
      rw [← hauthority, authorityOf_append_afterAuthority, hu]
  · intro secure host port t hvalid
    obtain ⟨hne, -, hname | ⟨⟨rest, rfl⟩, -⟩⟩ := hvalid.host.cases_name
    · exact parse_of_name hvalid.url hvalid.authority hne hname
    · -- An IPv6 literal is no registered name.
      have hbracket := h secure _ hvalid.url
      rw [hvalid.authority] at hbracket
      obtain hnil | hcolon | ⟨name, port', hauthority, hne', hname, -⟩ := hbracket
      · cases hnil
      · exact absurd (Option.some.inj hcolon) (by decide)
      · cases hname with
        | nil => exact absurd rfl hne'
        | byte c s hc _ =>
          obtain rfl := (List.cons.inj hauthority).1
          exact absurd hc (by decide)
        | encoded d e s => exact absurd (List.cons.inj hauthority).1 (by decide)

/-- **Reading an authority.** The parser accepts a string only if it is a websocket URL and then reads its
host and port, exactly when the string has no websocket scheme, or nothing stands before the first `:` of
its authority, or its authority is a registered name or an IPv4 address with a good port or none. -/
theorem readsAuthority_iff (u : Str) : ReadsAuthority u ↔ PlainAuthority u :=
  ⟨plainAuthority_of_readsAuthority, readsAuthority_of_plainAuthority⟩

/-- The host of an IPv6 literal is cut at its first `:`. -/
theorem ipv6_is_cut :
    WebsocketUrl (lit "wss://[::1]") true (lit "[::1]") none [] ∧
      parseRelayUrl (lit "wss://[::1]") =
        some { secure := true, host := lit "[", port := lit ":1]", target := lit "/" } ∧
      ¬ReadsAuthority (lit "wss://[::1]") := by
  have hurl : WebsocketUrl (lit "wss://[::1]") true (lit "[::1]") none [] := by
    refine ⟨rfl, ?_, fun _ h => absurd h.symm (Option.some_ne_none _),
      fun _ h => absurd h.symm (Option.some_ne_none _)⟩
    refine .ipv6 (lit "::1") (.compressed [] [lit "1"] 1 (by simp) (.words [lit "1"] ?_) (by decide))
    exact List.forall_mem_singleton.mpr ⟨by decide, by decide, List.forall_mem_singleton.mpr rfl⟩
  have hparse : parseRelayUrl (lit "wss://[::1]") =
      some { secure := true, host := lit "[", port := lit ":1]", target := lit "/" } := by
    decide
  refine ⟨hurl, hparse, fun h => ?_⟩
  obtain ⟨r, hr, hhost, -⟩ := h.2 true (lit "[::1]") none [] hurl
  obtain rfl := Option.some.inj (hparse.symm.trans hr)
  exact absurd hhost (by decide)

end Monitostr.Net
