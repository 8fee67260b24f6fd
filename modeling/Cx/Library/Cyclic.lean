import Cx.Library.Memory

/-!
# Cells used in a circle

Reading on from the last of `size` cells goes on at the first.  A run that does not get there is a
slice, and a run is written at its end without a change to what it held.
-/

namespace Cx.Library.Memory

open List

variable {α : Type*}

/-- Read `count` cells from `start` on, in a circle of `size` cells. -/
def cycle (cells : Nat → α) (size start count : Nat) : List α :=
  (List.range count).map fun index => cells ((start + index) % size)

variable (cells : Nat → α) (start : Nat)

@[simp] theorem length_cycle (size start count : Nat) :
    (cycle cells size start count).length = count := by
  simp [cycle]

theorem cycle_add (size start m n : Nat) : cycle cells size start (m + n) =
      cycle cells size start m ++ cycle cells size ((start + m) % size) n := by
  simp [cycle, range_add, Nat.add_assoc]

theorem cycle_eq_slice {cells : Nat → α} {size start count : Nat} (fits : start + count ≤ size) :
    cycle cells size start count = slice cells start count := by
  refine map_congr_left fun index mem => ?_
  have index_lt := mem_range.1 mem
  rw [Nat.mod_eq_of_lt (by omega)]

theorem take_slice (start count n : Nat) :
    (slice cells start count).take n = slice cells start (min n count) := by
  simp [slice, ← map_take, take_range]

/-- The cells after a run are none of its own. -/
theorem mod_ne_of_lt {size count i j : Nat} (before : i < count) (room : count + j < size) :
    (start + i) % size ≠ (start + count + j) % size := by
  intro same
  rw [Nat.add_assoc] at same
  have congruent : i ≡ count + j [MOD size] := Nat.ModEq.add_left_cancel' start same
  rw [Nat.ModEq, Nat.mod_eq_of_lt (by omega), Nat.mod_eq_of_lt room] at congruent
  omega

theorem slice_write (values : List α) :
    slice (write cells start values) start values.length = values := by
  refine ext_getElem (by simp) fun index index_lt bound => ?_
  simp [slice, write, bound]

theorem cycle_write_room (start offset : Nat) {size count : Nat} {values : List α}
    (room : count + offset + values.length ≤ size) :
    cycle (write cells ((start + count) % size + offset) values) size start count =
      cycle cells size start count := by
  refine map_congr_left fun index mem => ?_
  have index_lt := mem_range.1 mem
  simp only [write]
  split_ifs with after
  · rw [getD_eq_getElem?_getD, List.getElem?_eq_none, Option.getD_none]
    by_contra inside
    obtain ⟨j, j_eq⟩ := Nat.exists_eq_add_of_le ((Nat.le_add_right _ offset).trans after)
    refine mod_ne_of_lt start index_lt (show count + j < size by omega) ?_
    rw [← Nat.mod_add_mod (start + count), ← j_eq, Nat.mod_mod]
  · rfl

/-- What is written behind a run prolongs it. -/
theorem cycle_write {cells : Nat → α} {size start count : Nat} {values : List α}
    (fits : (start + count) % size + values.length ≤ size) (room : count + values.length ≤ size) :
    cycle (write cells ((start + count) % size) values) size start (count + values.length) =
      cycle cells size start count ++ values := by
  have kept := cycle_write_room cells start 0 room
  rw [Nat.add_zero] at kept
  rw [cycle_add, kept, cycle_eq_slice fits, slice_write]

end Cx.Library.Memory
