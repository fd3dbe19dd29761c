import Monitostr.Foundations.UniqueReading
import Monitostr.Foundations.Utf8
import Monitostr.Utils.SamplePlatform

/-! # The text of a JSON value

The values that the program dumps and parses again have no floating-point numbers, integers of 64 bits, strings in
UTF-8 and members in key order. The compact text of such a value can be read in one way only, whatever
the strings contain, so a parser that inverts it exists.
-/

namespace Monitostr
open Foundations
set_option autoImplicit false

/-- The values that `dump` writes without an exception and `parse` reads back unchanged. -/
inductive Json.Plain : Json → Prop
  | null : Plain .null
  | boolean (b : Bool) : Plain (.boolean b)
  | integer {n : ℤ} (low : -2 ^ 63 ≤ n) (high : n < 2 ^ 64) : Plain (.integer n)
  | string {s : Str} (utf8 : IsUtf8 s) : Plain (.string s)
  | array {elements : List Json} (plain : ∀ j ∈ elements, Plain j) : Plain (.array elements)
  | object {members : List (Str × Json)} (sorted : (members.map Prod.fst).Pairwise (· < ·))
    (utf8 : ∀ p ∈ members, IsUtf8 p.1) (plain : ∀ p ∈ members, Plain p.2) : Plain (.object members)

/-- Every string in the value is UTF-8, the names of members included. -/
inductive Json.Encoded : Json → Prop
  | null : Encoded .null
  | boolean (b : Bool) : Encoded (.boolean b)
  | integer (n : ℤ) : Encoded (.integer n)
  | float (text : Str) : Encoded (.float text)
  | string {s : Str} (utf8 : IsUtf8 s) : Encoded (.string s)
  | array {elements : List Json} (encoded : ∀ j ∈ elements, Encoded j) : Encoded (.array elements)
  | object {members : List (Str × Json)} (utf8 : ∀ p ∈ members, IsUtf8 p.1)
    (encoded : ∀ p ∈ members, Encoded p.2) : Encoded (.object members)

/-- nlohmann-json: `parse` discards a text with a string that is not UTF-8. -/
def ParsesUtf8 (pf : Platform) : Prop :=
  ∀ (text : Str) (value : Json), pf.parseJson text = some value → value.Encoded

theorem Json.Plain.encoded {value : Json} (h : value.Plain) : value.Encoded := by
  induction h with
  | null => exact .null
  | boolean b => exact .boolean b
  | integer low high => exact .integer _
  | string utf8 => exact .string utf8
  | array plain ih => exact .array ih
  | object sorted utf8 plain ih => exact .object utf8 ih

namespace Json.Encoded

theorem utf8_string {s : Str} (h : (Json.string s).Encoded) : IsUtf8 s := by
  cases h with
  | string utf8 => exact utf8

theorem element {elements : List Json} (h : (Json.array elements).Encoded) {j : Json}
    (hj : j ∈ elements) : j.Encoded := by
  cases h with
  | array encoded => exact encoded j hj

theorem member {value found : Json} {key : Str} (h : value.Encoded)
    (hmember : value.member? key = some found) : found.Encoded := by
  cases h with
  | object utf8 encoded =>
    obtain ⟨before, after, hmembers, -⟩ := List.lookup_eq_some_iff.mp hmember
    exact encoded (key, found) (by rw [hmembers]; simp)
  | _ => cases hmember

end Json.Encoded

theorem isUtf8_of_all {s : Str} (h : (s.all fun c => c < 128) = true) : IsUtf8 s := by
  refine isUtf8_of_ascii fun c hc => ?_
  have hlt : c < 128 := by simpa using List.all_eq_true.mp h c hc
  exact UInt8.lt_iff_toNat_lt.mp hlt

/-! ## Strings -/

/-- A byte in a string. -/
def escapeByte (c : UInt8) : Str :=
  if c = 34 then [92, 34]
  else if c = 92 then [92, 92]
  else if c = 8 then [92, 98]
  else if c = 9 then [92, 116]
  else if c = 10 then [92, 110]
  else if c = 12 then [92, 102]
  else if c = 13 then [92, 114]
  else if c < 32 then [92, 117, 48, 48] ++ Nip19.bytesToHex [c]
  else [c]

def escapedBytes : List UInt8 := 34 :: 92 :: (List.range 32).map UInt8.ofNat

theorem mem_escapedBytes_of_lt {c : UInt8} (h : c < 32) : c ∈ escapedBytes := by
  refine List.mem_cons_of_mem _ (List.mem_cons_of_mem _ (List.mem_map.mpr ⟨c.toNat, ?_, ?_⟩))
  · exact List.mem_range.mpr (UInt8.lt_iff_toNat_lt.mp h)
  · exact UInt8.ofNat_toNat

theorem escapeByte_of_mem (c : UInt8) (h : c ∈ escapedBytes) : (escapeByte c).head? = some 92 := by
  have hall : escapedBytes.all (fun c => (escapeByte c).head? == some 92) = true := rfl
  simpa using List.all_eq_true.mp hall c h

theorem escapeByte_of_not_mem {c : UInt8} (h : c ∉ escapedBytes) : escapeByte c = [c] := by
  have hne : ∀ d ∈ escapedBytes, c ≠ d := fun d hd hc => h (hc ▸ hd)
  rw [escapeByte, if_neg (hne 34 (by decide)), if_neg (hne 92 (by decide)),
    if_neg (hne 8 (by decide)), if_neg (hne 9 (by decide)), if_neg (hne 10 (by decide)),
    if_neg (hne 12 (by decide)), if_neg (hne 13 (by decide)),
    if_neg fun hlt => h (mem_escapedBytes_of_lt hlt)]

theorem eq_of_escapeByte_start {a b : UInt8} (ha : a ∈ escapedBytes) (hb : b ∈ escapedBytes)
    (h : escapeByte a <+: escapeByte b) : a = b := by
  have hall : escapedBytes.all (fun a => escapedBytes.all fun b =>
      !(escapeByte a).isPrefixOf (escapeByte b) || a == b) = true := rfl
  have hpair := List.all_eq_true.mp (List.all_eq_true.mp hall a ha) b hb
  rw [List.isPrefixOf_iff_prefix.mpr h] at hpair
  simpa using hpair

/-- An escape is not continued to another one. -/
theorem escapeByte_inj {a b : UInt8} {s t : Str} (h : escapeByte a ++ s = escapeByte b ++ t) :
    a = b := by
  have hmixed : ∀ {c d : UInt8} {s t : Str}, c ∈ escapedBytes → d ∉ escapedBytes →
      escapeByte c ++ s ≠ escapeByte d ++ t := by
    intro c d s t hc hd heq
    obtain ⟨rest, hrest⟩ := List.head?_eq_some_iff.mp (escapeByte_of_mem c hc)
    rw [hrest, escapeByte_of_not_mem hd] at heq
    exact hd ((List.cons.inj heq).1 ▸ by decide)
  by_cases ha : a ∈ escapedBytes
  · by_cases hb : b ∈ escapedBytes
    · have hpa : escapeByte a <+: escapeByte b ++ t := h ▸ List.prefix_append _ _
      rcases List.prefix_or_prefix_of_prefix hpa (List.prefix_append _ _) with hpre | hpre
      · exact eq_of_escapeByte_start ha hb hpre
      · exact (eq_of_escapeByte_start hb ha hpre).symm
    · exact absurd h (hmixed ha hb)
  · by_cases hb : b ∈ escapedBytes
    · exact absurd h.symm (hmixed hb ha)
    · rw [escapeByte_of_not_mem ha, escapeByte_of_not_mem hb] at h
      exact (List.cons.inj h).1

theorem escapeByte_ne_quote (c : UInt8) (s t : Str) : escapeByte c ++ s ≠ 34 :: t := by
  intro h
  by_cases hc : c ∈ escapedBytes
  · obtain ⟨rest, hrest⟩ := List.head?_eq_some_iff.mp (escapeByte_of_mem c hc)
    rw [hrest] at h
    exact absurd (List.cons.inj h).1 (by decide)
  · rw [escapeByte_of_not_mem hc] at h
    exact hc ((List.cons.inj h).1 ▸ by decide)

def stringText (s : Str) : Str := 34 :: (s.flatMap escapeByte ++ [34])

theorem stringText_inj {s s' rest rest' : Str}
    (h : stringText s ++ rest = stringText s' ++ rest') : s = s' ∧ rest = rest' := by
  rw [stringText, stringText, List.cons_append, List.cons_append, List.append_assoc,
    List.append_assoc] at h
  exact quoted_inj (fun _ _ _ _ => escapeByte_inj) escapeByte_ne_quote (List.cons.inj h).2

/-! ## Integers -/

theorem lit_append (a b : String) : lit (a ++ b) = lit a ++ lit b := by
  rw [lit, String.toByteArray_append, ByteArray.toList_data_append]
  rfl

theorem lit_injective : Function.Injective lit := by
  intro a b h
  exact String.toByteArray_inj.mp (ByteArray.ext (Array.toList_inj.mp h))

theorem lit_ofList (chars : List Char) :
    lit (String.ofList chars) = chars.flatMap String.utf8EncodeChar := by
  rw [lit, String.toByteArray_ofList, List.utf8Encode]
  exact List.toList_data_toByteArray

/-- The bytes of an integer. -/
def isNumeral (c : UInt8) : Bool := c == 45 || (48 ≤ c && c ≤ 57)

theorem repr_injective : Function.Injective Nat.repr := by
  intro m n h
  rw [Nat.repr_eq_ofList_toDigits, Nat.repr_eq_ofList_toDigits] at h
  have hvalue : Nat.ofDigitChars 10 (Nat.toDigits 10 m) 0 = Nat.ofDigitChars 10 (Nat.toDigits 10 n) 0 :=
    congrArg (fun chars => Nat.ofDigitChars 10 chars 0) (String.ofList_injective h)
  rwa [Nat.ofDigitChars_toDigits (by decide) (by decide),
    Nat.ofDigitChars_toDigits (by decide) (by decide)] at hvalue

theorem digit_of_mem_stdToString {n : ℕ} {c : UInt8} (h : c ∈ stdToString n) :
    48 ≤ c.toNat ∧ c.toNat ≤ 57 := by
  rw [stdToString, Nat.repr_eq_ofList_toDigits, lit_ofList, List.mem_flatMap] at h
  obtain ⟨d, hd, hc⟩ := h
  obtain ⟨hlow, hhigh⟩ :=
    Char.isDigit_iff_toNat.mp (Nat.isDigit_of_mem_toDigits (by decide) (by decide) hd)
  have hbyte : d.val.toNat ≤ 127 := Nat.le_trans hhigh (by decide)
  rw [String.utf8EncodeChar, if_pos hbyte, List.mem_singleton] at hc
  rw [hc, toNat_ofNat_of_lt (Nat.lt_of_le_of_lt hbyte (by decide))]
  exact ⟨hlow, hhigh⟩

/-- An integer has a sign or none before the digits of its absolute value. -/
theorem stdToStringInt_eq (n : ℤ) : stdToStringInt n =
    if n < 0 then 45 :: stdToString n.natAbs else stdToString n.natAbs := by
  cases n with
  | ofNat m => rfl
  | negSucc m =>
    rw [if_pos (Int.negSucc_lt_zero m)]
    exact lit_append "-" _

theorem stdToStringInt_ne_nil (n : ℤ) : stdToStringInt n ≠ [] := by
  have hnat : ∀ k : ℕ, stdToString k ≠ [] :=
    fun k h => Nat.repr_ne_empty (lit_injective (h.trans (rfl : [] = lit "")))
  rw [stdToStringInt_eq]
  split
  · exact List.cons_ne_nil _ _
  · exact hnat _

theorem isNumeral_of_mem {n : ℤ} {c : UInt8} (h : c ∈ stdToStringInt n) : isNumeral c = true := by
  have hdigit : c ∈ stdToString n.natAbs → isNumeral c = true := by
    intro hmem
    obtain ⟨hlow, hhigh⟩ := digit_of_mem_stdToString hmem
    have hl : (48 : UInt8) ≤ c := UInt8.le_iff_toNat_le.mpr hlow
    have hh : c ≤ (57 : UInt8) := UInt8.le_iff_toNat_le.mpr hhigh
    simp [isNumeral, hl, hh]
  rw [stdToStringInt_eq] at h
  split at h
  · rcases List.mem_cons.mp h with rfl | hmem
    · rfl
    · exact hdigit hmem
  · exact hdigit h

theorem stdToString_injective : Function.Injective stdToString := fun _ _ h =>
  repr_injective (lit_injective h)

theorem stdToStringInt_injective : Function.Injective stdToStringInt := by
  have hsign : ∀ k l : ℕ, 45 :: stdToString k ≠ stdToString l := by
    intro k l h
    have hdigit := digit_of_mem_stdToString (h ▸ List.mem_cons_self : (45 : UInt8) ∈ stdToString l)
    exact absurd hdigit.1 (by decide)
  intro m n h
  rw [stdToStringInt_eq, stdToStringInt_eq] at h
  split at h
  · split at h
    · have habs := stdToString_injective (List.cons.inj h).2
      omega
    · exact absurd h (hsign _ _)
  · split at h
    · exact absurd h.symm (hsign _ _)
    · have habs := stdToString_injective h
      omega

/-! ## Values -/

namespace Json

mutual
/-- `dump()` of a value whose strings are UTF-8, without its floating-point numbers. -/
def text : Json → Str
  | .null => lit "null"
  | .boolean b => if b then lit "true" else lit "false"
  | .integer n => stdToStringInt n
  | .float text => text
  | .string s => stringText s
  | .array elements => 91 :: sequence 44 93 (elementTexts elements)
  | .object members => 123 :: sequence 44 125 (memberTexts members)

def elementTexts : List Json → List Str
  | [] => []
  | j :: js => text j :: elementTexts js

def memberTexts : List (Str × Json) → List Str
  | [] => []
  | (key, j) :: rest => (stringText key ++ 58 :: text j) :: memberTexts rest
end

def memberText (p : Str × Json) : Str := stringText p.1 ++ 58 :: text p.2

theorem elementTexts_eq (elements : List Json) : elementTexts elements = elements.map text := by
  induction elements with
  | nil => rw [elementTexts, List.map_nil]
  | cons j js ih => rw [elementTexts, List.map_cons, ih]

theorem memberTexts_eq (members : List (Str × Json)) :
    memberTexts members = members.map memberText := by
  induction members with
  | nil => rw [memberTexts, List.map_nil]
  | cons p rest ih => rw [memberTexts, List.map_cons, ih, memberText]

/-- What may follow a value in a text. -/
def Ends (s : Str) : Prop := ∀ c ∈ s.head?, c = 44 ∨ c = 93 ∨ c = 125

theorem ends_cons {c : UInt8} (h : c = 44 ∨ c = 93 ∨ c = 125) (s : Str) : Ends (c :: s) := by
  intro d hd
  obtain rfl := Option.some.inj hd
  exact h

/-- The kind of a value, and that of the values whose text starts with a byte. -/
def kind : Json → ℕ
  | .null => 0
  | .boolean _ => 1
  | .integer _ => 2
  | .float _ => 3
  | .string _ => 4
  | .array _ => 5
  | .object _ => 6

def kindOf (c : UInt8) : ℕ :=
  if isNumeral c then 2
  else if c = 110 then 0
  else if c = 116 ∨ c = 102 then 1
  else if c = 34 then 4
  else if c = 91 then 5
  else if c = 123 then 6
  else 3

theorem Plain.start {value : Json} (h : value.Plain) :
    ∃ c rest, value.text = c :: rest ∧ kindOf c = value.kind := by
  cases h with
  | null => exact ⟨110, _, rfl, rfl⟩
  | boolean b =>
    cases b with
    | true => exact ⟨116, _, rfl, rfl⟩
    | false => exact ⟨102, _, rfl, rfl⟩
  | @integer n _ _ =>
    obtain ⟨c, rest, htext⟩ := List.exists_cons_of_ne_nil (stdToStringInt_ne_nil n)
    refine ⟨c, rest, by rw [text, htext], ?_⟩
    rw [kindOf, if_pos (isNumeral_of_mem (htext ▸ List.mem_cons_self)), kind]
  | string _ => exact ⟨34, _, by rw [text, stringText], rfl⟩
  | array _ => exact ⟨91, _, by rw [text], rfl⟩
  | object _ _ _ => exact ⟨123, _, by rw [text], rfl⟩

theorem Plain.text_ne {value : Json} (h : value.Plain) {close : UInt8} (hclose : kindOf close = 3)
    (s t : Str) : value.text ++ s ≠ close :: t := by
  obtain ⟨c, rest, htext, hkind⟩ := h.start
  intro heq
  rw [htext] at heq
  rw [(List.cons.inj heq).1, hclose] at hkind
  cases h <;> exact nomatch hkind

theorem Plain.kind_eq {value other : Json} (h : value.Plain) (h' : other.Plain) {s t : Str}
    (heq : value.text ++ s = other.text ++ t) : value.kind = other.kind := by
  obtain ⟨c, rest, htext, hkind⟩ := h.start
  obtain ⟨c', rest', htext', hkind'⟩ := h'.start
  rw [htext, htext'] at heq
  rw [← hkind, ← hkind', (List.cons.inj heq).1]

theorem memberText_readsOff {p q : Str × Json} (h : ReadsOff Ends text p.2 q.2) :
    ReadsOff Ends memberText p q := by
  intro s t hs ht heq
  rw [memberText, memberText, List.append_assoc, List.append_assoc] at heq
  obtain ⟨hkey, hrest⟩ := stringText_inj heq
  obtain ⟨hvalue, hst⟩ := h s t hs ht (List.cons.inj hrest).2
  exact ⟨Prod.ext hkey hvalue, hst⟩

theorem integerText_readsOff (n n' : ℤ) : ReadsOff Ends stdToStringInt n n' := by
  have hends : ∀ s, Ends s → ∀ c ∈ s.head?, isNumeral c = false := by
    intro s hs c hc
    rcases hs c hc with rfl | rfl | rfl <;> rfl
  exact word_readsOff stdToStringInt_injective (fun _ _ hc => isNumeral_of_mem hc) hends n n'

/-- **The text of a value** can be read in one way only. -/
theorem Plain.readsOff {value : Json} (h : value.Plain) :
    ∀ {other : Json}, other.Plain → ReadsOff Ends text value other := by
  induction h with
  | null =>
    intro other h' s t _ _ heq
    have hkind := Plain.null.kind_eq h' heq
    cases h' with
    | null => exact ⟨rfl, List.append_cancel_left heq⟩
    | _ => exact nomatch hkind
  | boolean b =>
    intro other h' s t _ _ heq
    have hkind := (Plain.boolean b).kind_eq h' heq
    cases h' with
    | boolean b' =>
      cases b <;> cases b'
      · exact ⟨rfl, List.append_cancel_left heq⟩
      · exact absurd (List.cons.inj heq).1 (by decide)
      · exact absurd (List.cons.inj heq).1 (by decide)
      · exact ⟨rfl, List.append_cancel_left heq⟩
    | _ => exact nomatch hkind
  | @integer n low high =>
    intro other h' s t hs ht heq
    have hkind := (Plain.integer low high).kind_eq h' heq
    cases h' with
    | @integer n' _ _ =>
      rw [text, text] at heq
      obtain ⟨rfl, hst⟩ := integerText_readsOff n n' s t hs ht heq
      exact ⟨rfl, hst⟩
    | _ => exact nomatch hkind
  | string utf8 =>
    intro other h' s t _ _ heq
    have hkind := (Plain.string utf8).kind_eq h' heq
    cases h' with
    | string _ =>
      rw [text, text] at heq
      obtain ⟨rfl, hst⟩ := stringText_inj heq
      exact ⟨rfl, hst⟩
    | _ => exact nomatch hkind
  | @array elements plain ih =>
    intro other h' s t _ _ heq
    have hkind := (Plain.array plain).kind_eq h' heq
    cases h' with
    | @array elements' plain' =>
      rw [text, text, elementTexts_eq, elementTexts_eq] at heq
      obtain ⟨rfl, hst⟩ := sequence_inj Ends (by decide) (ends_cons (by decide))
        (ends_cons (by decide)) (fun j hj => (plain j hj).text_ne rfl)
        (fun j hj => (plain' j hj).text_ne rfl) (fun j hj j' hj' => ih j hj (plain' j' hj'))
        (List.cons.inj heq).2
      exact ⟨rfl, hst⟩
    | _ => exact nomatch hkind
  | @object members sorted utf8 plain ih =>
    intro other h' s t _ _ heq
    have hkind := (Plain.object sorted utf8 plain).kind_eq h' heq
    cases h' with
    | @object members' _ _ plain' =>
      have hquote : ∀ (p : Str × Json) (s t : Str), memberText p ++ s ≠ 125 :: t :=
        fun p s t h => absurd (List.cons.inj h).1 (by decide)
      rw [text, text, memberTexts_eq, memberTexts_eq] at heq
      obtain ⟨rfl, hst⟩ := sequence_inj Ends (by decide) (ends_cons (by decide))
        (ends_cons (by decide)) (fun p _ => hquote p) (fun p _ => hquote p)
        (fun p hp q hq => memberText_readsOff (ih p hp (plain' q hq))) (List.cons.inj heq).2
      exact ⟨rfl, hst⟩
    | _ => exact nomatch hkind

theorem Plain.text_injective {value other : Json} (h : value.Plain) (h' : other.Plain)
    (heq : value.text = other.text) : value = other :=
  (h.readsOff h' [] [] nofun nofun (by rw [heq])).1

end Json

/-! ## Reading -/

open Classical in
/-- The value that a text is written for. -/
noncomputable def readText (s : Str) : Option Json :=
  if h : ∃ value : Json, value.Plain ∧ value.text = s then some h.choose else none

theorem readText_text {value : Json} (h : value.Plain) : readText value.text = some value := by
  have hexists : ∃ other : Json, other.Plain ∧ other.text = value.text := ⟨value, h, rfl⟩
  obtain ⟨hplain, htext⟩ := hexists.choose_spec
  rw [readText, dif_pos hexists]
  exact congrArg some (hplain.text_injective h htext)

theorem plain_of_readText {s : Str} {value : Json} (h : readText s = some value) : value.Plain := by
  rw [readText] at h
  split at h
  · next hexists => exact Option.some.inj h ▸ hexists.choose_spec.1
  · cases h

theorem readText_nil : readText [] = none := by
  refine dif_neg ?_
  rintro ⟨value, hplain, htext⟩
  obtain ⟨c, rest, hstart, -⟩ := hplain.start
  rw [hstart] at htext
  cases htext

/-- A platform that reads every text which it writes. -/
noncomputable def textPlatform : Platform :=
  { samplePlatform with
    parseJson := readText
    parseJson_nil := readText_nil
    parseJson_event := by
      have hplain : (Json.array [.string (lit "EVENT")]).Plain := by
        refine .array fun j hj => ?_
        obtain rfl := List.mem_singleton.mp hj
        exact .string (isUtf8_of_all rfl)
      exact readText_text hplain
    dumpJson := fun value => some value.text }

theorem textPlatform_parsesUtf8 : ParsesUtf8 textPlatform := by
  intro text value h
  exact (plain_of_readText h).encoded

end Monitostr
