import Mathlib.Data.Int.Notation
import Mathlib.Data.Nat.Notation

/-! # Windows on a list

A list that is longer than the room for it is shown through a window, some of its items in a row. The
window is scrolled to an item, or put around a selected one. A thumb on a track shows which part of the
list is in the window, and a cursor is a position that is moved about in the list.
-/

namespace Foundations
set_option autoImplicit false

/-! ## Windows -/

/-- Some items in a row, of a list with `total` items. -/
structure ListWindow (total : ℕ) where
  start : ℕ
  size : ℕ
  fits : start + size ≤ total

namespace ListWindow
variable {total : ℕ}

def Shows (window : ListWindow total) (i : ℕ) : Prop :=
  window.start ≤ i ∧ i < window.start + window.size

/-- As many items as there is room for, from `first` on, or the last ones when `first` is behind these. -/
def scrolled (total room first : ℕ) : ListWindow total where
  start := min first (total - room)
  size := min room total
  fits := by omega

/-- The window that has up to `offset` items above the selected one. -/
def around (total room offset selected : ℕ) : ListWindow total :=
  scrolled total room (min selected (total - 1) - offset)

theorem around_shows {room offset selected : ℕ} (htotal : 0 < total) (hroom : 0 < room)
    (hoffset : offset < room) : (around total room offset selected).Shows (min selected (total - 1)) := by
  unfold Shows around scrolled
  dsimp only
  omega

end ListWindow

/-! ## Thumbs -/

/-- The cells of a track with `height` cells that its thumb covers. -/
structure Thumb (height : ℕ) where
  pos : ℕ
  size : ℕ
  nonempty : 0 < size
  fits : pos + size ≤ height

/-- The thumb that covers the whole track. -/
def Thumb.whole {height : ℕ} (h : 0 < height) : Thumb height where
  pos := 0
  size := height
  nonempty := h
  fits := by omega

/-- The length of the thumb is to that of the track as the window is to the list. -/
def thumbSize (height total visible : ℕ) : ℕ := max 1 (height * visible / total)

/-- The room above the thumb is to all that it leaves as the items above the window are to all outside. -/
def thumbPos (height total visible first : ℕ) : ℕ :=
  (height - thumbSize height total visible) * first / (total - visible)

section Proportions
variable {height total visible first : ℕ}

/-- A share of the track is no longer than the track. -/
theorem mul_div_le_left (height : ℕ) {a b : ℕ} (hb : 0 < b) (h : a ≤ b) : height * a / b ≤ height := by
  have hmul : height * a / b ≤ height * b / b := Nat.div_le_div_right (Nat.mul_le_mul_left height h)
  rwa [Nat.mul_div_cancel height hb] at hmul

theorem thumbSize_le (hheight : 0 < height) (hvisible : visible < total) :
    thumbSize height total visible ≤ height := by
  have hdiv := mul_div_le_left height (Nat.zero_lt_of_lt hvisible) (Nat.le_of_lt hvisible)
  unfold thumbSize
  omega

theorem thumbPos_le (hvisible : visible < total) (hfirst : first + visible ≤ total) :
    thumbPos height total visible first ≤ height - thumbSize height total visible := by
  unfold thumbPos
  apply mul_div_le_left
  · omega
  · omega

theorem thumbPos_mono {first' : ℕ} (h : first ≤ first') :
    thumbPos height total visible first ≤ thumbPos height total visible first' := by
  unfold thumbPos
  exact Nat.div_le_div_right (Nat.mul_le_mul_left _ h)

theorem thumbPos_last (hvisible : visible < total) (hfirst : first + visible = total) :
    thumbPos height total visible first = height - thumbSize height total visible := by
  have hspace : 0 < total - visible := by omega
  have hlast : first = total - visible := by omega
  unfold thumbPos
  rw [hlast, Nat.mul_div_cancel _ hspace]

end Proportions

/-- The thumb for a window: the whole track, unless the list overflows the window. -/
def ListWindow.thumb {total height : ℕ} (window : ListWindow total) (hheight : 0 < height) :
    Thumb height :=
  if h : 0 < window.size ∧ window.size < total then
    { pos := thumbPos height total window.size window.start
      size := thumbSize height total window.size
      nonempty := by
        unfold thumbSize
        omega
      fits := by
        have hsize := thumbSize_le hheight h.2
        have hpos : thumbPos height total window.size window.start ≤
            height - thumbSize height total window.size := thumbPos_le h.2 window.fits
        omega }
  else Thumb.whole hheight

section Thumbs
variable {total height : ℕ} {window window' : ListWindow total} {hheight : 0 < height}

theorem ListWindow.thumb_mono (hsize : window.size = window'.size) (h : window.start ≤ window'.start) :
    (window.thumb hheight).pos ≤ (window'.thumb hheight).pos := by
  unfold thumb
  by_cases hover : 0 < window.size ∧ window.size < total
  · rw [dif_pos hover, dif_pos (hsize ▸ hover)]
    show thumbPos height total window.size window.start ≤ thumbPos height total window'.size window'.start
    rw [← hsize]
    exact thumbPos_mono h
  · apply Nat.le_of_eq
    rw [dif_neg hover, dif_neg (hsize ▸ hover)]

/-- **The thumb touches the bottom** when the window shows the last item. -/
theorem ListWindow.thumb_bottom (hlast : window.start + window.size = total) :
    (window.thumb hheight).pos + (window.thumb hheight).size = height := by
  unfold thumb
  by_cases hover : 0 < window.size ∧ window.size < total
  · rw [dif_pos hover]
    show thumbPos height total window.size window.start + thumbSize height total window.size = height
    have hsize := thumbSize_le hheight hover.2
    rw [thumbPos_last hover.2 hlast]
    omega
  · rw [dif_neg hover]
    exact Nat.zero_add height

end Thumbs

/-! ## Cursors -/

/-- A position in a list of `count` items; zero when the list is empty. -/
def InList (count p : ℕ) : Prop := p < max 1 count

/-- The position after a move by `d`, stopped at the ends of the list. -/
def moved (count p : ℕ) (d : ℤ) : ℕ := (max 0 (min (p + d) (count - 1))).toNat

theorem inList_moved (count p : ℕ) (d : ℤ) : InList count (moved count p d) := by
  unfold InList moved
  omega

theorem moved_down (count p d : ℕ) : moved count p d = min (p + d) (count - 1) := by
  unfold moved
  omega

/-- A move by the length of the list goes to its last item. -/
theorem moved_to_last (count p : ℕ) : moved count p count = count - 1 := by
  rw [moved_down]
  omega

theorem InList.mono {count count' p : ℕ} (h : InList count p) (hcount : count ≤ count') :
    InList count' p := by
  unfold InList at h ⊢
  omega

section Moves
variable {count p : ℕ} (h : InList count p)
include h

theorem InList.moved_zero : moved count p 0 = p := by
  unfold InList at h
  unfold moved
  omega

theorem InList.moved_to_first : moved count p (-count) = 0 := by
  unfold InList at h
  unfold moved
  omega

theorem InList.moved_up (d : ℕ) : moved count p (-d) = p - d := by
  unfold InList at h
  unfold moved
  omega

end Moves

end Foundations
