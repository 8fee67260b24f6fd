import Mathlib.Data.List.Basic
import Mathlib.Tactic

/-!
# Windows of a list

A window is the part of a list from an offset on, cut to a length.  Windows compose, and a window of
two lists in a row lies in one of them or is a window of each.
-/

namespace Cx.Library

open List

variable {α : Type*}

def window (l : List α) (off len : Nat) : List α := (l.drop off).take len

@[simp] theorem length_window (l : List α) (off len : Nat) :
    (window l off len).length = min len (l.length - off) := by
  simp [window]

@[simp] theorem window_zero (l : List α) (off : Nat) : window l off 0 = [] := by
  simp [window]

variable {l r : List α} {len off : Nat}

theorem window_of_length_le (fits : l.length ≤ len) : window l 0 len = l := by
  simpa [window] using fits

@[simp] theorem window_length (l : List α) : window l 0 l.length = l := window_of_length_le le_rfl

theorem getElem?_window (l : List α) (off len i : Nat) :
    (window l off len)[i]? = if i < len then l[off + i]? else none := by
  simp [window, List.getElem?_take]

/-- A window that is cut to the list. -/
theorem window_clip (l : List α) (off len : Nat) :
    window l (min off l.length) (min (l.length - min off l.length) len) = window l off len := by
  rcases Nat.le_total off l.length with inside | past
  · rw [window, window, min_eq_left inside, ← length_drop, min_comm, ← take_eq_take_min]
  · rw [window, window, min_eq_right past, drop_length, drop_eq_nil_of_le past, take_nil, take_nil]

theorem window_window {inner n : Nat} (within : inner + n ≤ len) :
    window (window l off len) inner n = window l (off + inner) n := by
  simp only [window, drop_take, drop_drop, take_take]
  rw [show min n (len - inner) = n by omega]

theorem window_add (l : List α) (off m n : Nat) :
    window l off (m + n) = window l off m ++ window l (off + m) n := by
  simp only [window, take_add, drop_drop]

theorem window_append_left (within : off + len ≤ l.length) :
    window (l ++ r) off len = window l off len := by
  simp only [window]
  rw [drop_append_of_le_length (by omega), take_append_of_le_length]
  simp only [length_drop]
  omega

theorem window_append_right (past : l.length ≤ off) :
    window (l ++ r) off len = window r (off - l.length) len := by
  simp only [window]
  rw [drop_append, drop_eq_nil_of_le past, nil_append]

/-- A window that reaches over the place where two lists meet. -/
theorem window_append_across (before : off ≤ l.length) (after : l.length ≤ off + len) :
    window (l ++ r) off len =
      window l off (l.length - off) ++ window r 0 (off + len - l.length) := by
  have parts : len = (l.length - off) + (off + len - l.length) := by omega
  rw [parts, window_add, window_append_left (by omega), window_append_right (by omega)]
  congr 2 <;> omega

end Cx.Library
