import Mathlib.Data.List.Basic
import Mathlib.Data.List.TakeWhile

/-! # Texts that can be read in one way only

A text says where it ends when nothing that may follow it continues it: a word ends with its alphabet, a quoted
string with a quote that its escapes never start with, and a list with a closing symbol in place of a
separator. What is written before and after each other in such texts can be taken apart again.
-/

namespace Foundations
set_option autoImplicit false

variable {α β : Type*}

/-- The texts of two values, with something admissible after each, are only equal when all is equal. -/
def ReadsOff (Ends : List β → Prop) (code : α → List β) (a b : α) : Prop :=
  ∀ s t, Ends s → Ends t → code a ++ s = code b ++ t → a = b ∧ s = t

/-! ## Words -/

theorem takeWhile_word {p : β → Bool} {word rest : List β} (hword : ∀ b ∈ word, p b = true)
    (hrest : ∀ b ∈ rest.head?, p b = false) : (word ++ rest).takeWhile p = word := by
  rw [List.takeWhile_append_of_pos hword]
  cases rest with
  | nil => simp
  | cons b rest => simp [hrest b rfl]

/-- A word over an alphabet ends where the alphabet does. -/
theorem word_readsOff {p : β → Bool} {code : α → List β} (hcode : Function.Injective code)
    (hword : ∀ a, ∀ b ∈ code a, p b = true) {Ends : List β → Prop}
    (hends : ∀ s, Ends s → ∀ b ∈ s.head?, p b = false) (a b : α) : ReadsOff Ends code a b := by
  intro s t hs ht heq
  have hcut := congrArg (List.takeWhile p) heq
  rw [takeWhile_word (hword a) (hends s hs), takeWhile_word (hword b) (hends t ht)] at hcut
  obtain rfl := hcode hcut
  exact ⟨rfl, List.append_cancel_left heq⟩

/-! ## Quoted strings -/

theorem quoted_inj {escape : α → List β} {quote : β}
    (hescape : ∀ a b s t, escape a ++ s = escape b ++ t → a = b)
    (hquote : ∀ a s t, escape a ++ s ≠ quote :: t) :
    ∀ {xs ys : List α} {s t : List β},
      xs.flatMap escape ++ quote :: s = ys.flatMap escape ++ quote :: t → xs = ys ∧ s = t
  | [], [], _, _, h => ⟨rfl, (List.cons.inj h).2⟩
  | [], y :: ys, s, t, h => by
      rw [List.flatMap_cons, List.append_assoc] at h
      exact absurd h.symm (hquote _ _ _)
  | x :: xs, [], s, t, h => by
      rw [List.flatMap_cons, List.append_assoc] at h
      exact absurd h (hquote _ _ _)
  | x :: xs, y :: ys, s, t, h => by
      rw [List.flatMap_cons, List.flatMap_cons, List.append_assoc, List.append_assoc] at h
      obtain rfl := hescape x y _ _ h
      obtain ⟨rfl, hst⟩ := quoted_inj hescape hquote (List.append_cancel_left h)
      exact ⟨rfl, hst⟩

/-! ## Lists -/

/-- Texts with a separator between them, and the closing symbol. -/
def sequence (separator close : β) : List (List β) → List β
  | [] => [close]
  | [text] => text ++ [close]
  | text :: next :: texts => text ++ separator :: sequence separator close (next :: texts)

section Sequence
variable {separator close : β} {code : α → List β} (Ends : List β → Prop)

/-- What comes after the first text. -/
def sequenceRest (separator close : β) : List (List β) → List β
  | [] => [close]
  | next :: texts => separator :: sequence separator close (next :: texts)

theorem sequence_cons (text : List β) (texts : List (List β)) :
    sequence separator close (text :: texts) = text ++ sequenceRest separator close texts := by
  cases texts with
  | nil => rfl
  | cons next texts => rfl

theorem sequence_inj (hne : separator ≠ close) (hseparator : ∀ s, Ends (separator :: s))
    (hclose : ∀ s, Ends (close :: s)) :
    ∀ {xs ys : List α}, (∀ a ∈ xs, ∀ s t, code a ++ s ≠ close :: t) →
      (∀ b ∈ ys, ∀ s t, code b ++ s ≠ close :: t) →
      (∀ a ∈ xs, ∀ b ∈ ys, ReadsOff Ends code a b) →
      ∀ {s t : List β}, sequence separator close (xs.map code) ++ s =
        sequence separator close (ys.map code) ++ t → xs = ys ∧ s = t
  | [], [], _, _, _, _, _, h => ⟨rfl, (List.cons.inj h).2⟩
  | [], y :: ys, _, hys, _, s, t, h => by
      rw [List.map_cons, sequence_cons, List.append_assoc] at h
      exact absurd h.symm (hys y List.mem_cons_self _ _)
  | x :: xs, [], hxs, _, _, s, t, h => by
      rw [List.map_cons, sequence_cons, List.append_assoc] at h
      exact absurd h (hxs x List.mem_cons_self _ _)
  | x :: xs, y :: ys, hxs, hys, hread, s, t, h => by
      have hrest : ∀ (zs : List α) (u : List β),
          Ends (sequenceRest separator close (zs.map code) ++ u) := by
        intro zs u
        cases zs with
        | nil => exact hclose u
        | cons z zs => exact hseparator _
      rw [List.map_cons, List.map_cons, sequence_cons, sequence_cons, List.append_assoc,
        List.append_assoc] at h
      obtain ⟨rfl, htail⟩ :=
        hread x List.mem_cons_self y List.mem_cons_self _ _ (hrest xs s) (hrest ys t) h
      cases xs with
      | nil =>
        cases ys with
        | nil => exact ⟨rfl, (List.cons.inj htail).2⟩
        | cons y ys => exact absurd (List.cons.inj htail).1.symm hne
      | cons x' xs =>
        cases ys with
        | nil => exact absurd (List.cons.inj htail).1 hne
        | cons y ys =>
          obtain ⟨hlist, hst⟩ := sequence_inj hne hseparator hclose
            (fun a ha => hxs a (List.mem_cons_of_mem _ ha))
            (fun b hb => hys b (List.mem_cons_of_mem _ hb))
            (fun a ha b hb => hread a (List.mem_cons_of_mem _ ha) b (List.mem_cons_of_mem _ hb))
            (List.cons.inj htail).2
          exact ⟨by rw [hlist], hst⟩

end Sequence
end Foundations
