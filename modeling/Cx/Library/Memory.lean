import Mathlib.Data.List.Basic
import Mathlib.Tactic

/-!
# Cells of memory against a list

A block of memory is a function from cell indices to values, so that cells nobody has written are
present but unspecified.  The lemmas say what writing a list, sliding the block down and reading a
slice do to the part of a list that stands in the block.
-/

namespace Cx.Library.Memory

def write {α : Type*} (cells : Nat → α) (start : Nat) (values : List α) : Nat → α :=
  fun index => if start ≤ index then values.getD (index - start) (cells index) else cells index

/-- Move `keep` cells that start at `distance` down to the front of the block. -/
def slide {α : Type*} (cells : Nat → α) (distance keep : Nat) : Nat → α :=
  fun index => if index < keep then cells (index + distance) else cells index

/-- Read `count` consecutive cells. -/
def slice {α : Type*} (cells : Nat → α) (start count : Nat) : List α :=
  (List.range count).map fun index => cells (start + index)

variable {α : Type*} {cells : Nat → α} {start shift low high : Nat} {source : List α}

@[simp] theorem length_slice (cells : Nat → α) (start count : Nat) :
    (slice cells start count).length = count := by
  simp [slice]

theorem getElem?_slice {count index : Nat} (index_lt : index < count) :
    (slice cells start count)[index]? = some (cells (start + index)) := by
  simp [slice, index_lt]

/-- Positions `[low, high)` of the list stand in the block, `shift` cells lower. -/
def Holds {α : Type*} (cells : Nat → α) (shift : Nat) (source : List α) (low high : Nat) : Prop :=
  ∀ position, low ≤ position → position < high →
    source[position]? = some (cells (position - shift))

theorem Holds.mono {low' high' : Nat} (holds : Holds cells shift source low high)
    (low_le : low ≤ low') (high_le : high' ≤ high) : Holds cells shift source low' high' :=
  fun position low'_le lt_high' =>
    holds position (low_le.trans low'_le) (lt_high'.trans_le high_le)

theorem Holds.append (holds : Holds cells shift source low high) (more : List α) :
    Holds cells shift (source ++ more) low high := by
  intro position low_le lt_high
  have present := holds position low_le lt_high
  obtain ⟨in_range, -⟩ := List.getElem?_eq_some_iff.1 present
  rw [List.getElem?_append_left in_range, present]

/-- A slice of a faithful block is the matching part of the list. -/
theorem Holds.slice_eq {count : Nat} (holds : Holds cells shift source start (start + count))
    (shift_le : shift ≤ start) :
    slice cells (start - shift) count = (source.drop start).take count := by
  refine List.ext_getElem? fun index => ?_
  by_cases index_lt : index < count
  · rw [getElem?_slice index_lt, List.getElem?_take_of_lt index_lt, List.getElem?_drop,
      holds (start + index) (by omega) (by omega)]
    congr 2
    omega
  · rw [List.getElem?_eq_none (by simpa using index_lt),
      List.getElem?_eq_none (by simp only [List.length_take]; omega)]

variable {values : List α}

theorem write_outside {index : Nat} (outside : ¬ (start ≤ index ∧ index < start + values.length)) :
    write cells start values index = cells index := by
  rw [write]
  split_ifs with above
  · rw [List.getD_eq_getElem?_getD, List.getElem?_eq_none (by omega), Option.getD_none]
  · rfl

/-- Outside a cut, writing what lies above it writes the same. -/
theorem write_drop {cut index : Nat} (cut_le : start ≤ index → start + cut ≤ index) :
    write cells (start + cut) (values.drop cut) index = write cells start values index := by
  rw [write, write]
  by_cases above : start ≤ index
  · have index_eq : cut + (index - (start + cut)) = index - start := by
      have := cut_le above
      omega
    rw [if_pos (cut_le above), if_pos above, List.getD_eq_getElem?_getD,
      List.getD_eq_getElem?_getD, List.getElem?_drop, index_eq]
  · rw [if_neg above, if_neg (by omega)]

/-- Writing into a block and into the map of what it holds agree, if they agreed elsewhere. -/
theorem write_map_some {bytes : Nat → Option α} {position : Nat} (shift_le : shift ≤ start)
    (elsewhere : ¬ (start ≤ position ∧ position < start + values.length) →
      shift ≤ position ∧ bytes position = some (cells (position - shift))) :
    write bytes start (values.map some) position =
      some (write cells (start - shift) values (position - shift)) := by
  by_cases inside : start ≤ position ∧ position < start + values.length
  · have index_lt : position - start < values.length := by omega
    have index_eq : position - shift - (start - shift) = position - start := by omega
    simp [write, inside.1, Nat.sub_le_sub_right inside.1, index_eq, index_lt]
  · obtain ⟨shift_le', same⟩ := elsewhere inside
    rw [write_outside (by simpa using inside), write_outside (by omega), same]

/-- Writing a part of a list into its own place changes nothing. -/
theorem write_own
    (matching : ∀ index, index < values.length → source[start + index]? = values[index]?) :
    write (source[·]?) start (values.map some) = (source[·]?) := by
  funext position
  by_cases inside : start ≤ position ∧ position < start + values.length
  · have index_lt : position - start < values.length := by omega
    have same := matching _ index_lt
    rw [Nat.add_sub_cancel' inside.1] at same
    simp [write, inside.1, same, index_lt]
  · exact write_outside (by simpa using inside)

end Cx.Library.Memory
