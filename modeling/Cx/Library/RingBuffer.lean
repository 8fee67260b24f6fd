import Mathlib.Data.List.Basic
import Mathlib.Data.Nat.Bitwise
import Mathlib.Tactic

/-!
# Power-of-two ring buffers

A ring keeps its elements in an array whose size is a power of two and finds the `index`-th one by
masking `head + index`.  `toList` is the abstract content, oldest element first, and each operation
is characterised by what it does to that list.
-/

namespace Cx.Library

structure RingBuffer (α : Type*) where
  cells : Nat → α
  cap : Nat
  head : Nat
  count : Nat
  cap_pow : cap = 0 ∨ ∃ exponent, cap = 2 ^ exponent
  count_le : count ≤ cap

namespace RingBuffer

/-- The array index of the `index`-th element. -/
def slot {α : Type*} (ring : RingBuffer α) (index : Nat) : Nat :=
  (ring.head + index) &&& (ring.cap - 1)

def empty {α : Type*} (zero : α) : RingBuffer α where
  cells := fun _ => zero
  cap := 0
  head := 0
  count := 0
  cap_pow := .inl rfl
  count_le := le_rfl

def toList {α : Type*} (ring : RingBuffer α) : List α :=
  (List.range ring.count).map fun index => ring.cells (ring.slot index)

def get? {α : Type*} (ring : RingBuffer α) (index : Nat) : Option α :=
  if index < ring.count then some (ring.cells (ring.slot index)) else none

def set {α : Type*} (ring : RingBuffer α) (index : Nat) (value : α) : RingBuffer α :=
  { ring with
    cells := fun cell => if cell = ring.slot index then value else ring.cells cell }

/-- Move to an array twice as large, with the oldest element at its start. -/
def grow {α : Type*} (zero : α) (ring : RingBuffer α) : RingBuffer α where
  cells := fun cell => if cell < ring.count then ring.cells (ring.slot cell) else zero
  cap := if ring.cap = 0 then 16 else ring.cap * 2
  head := 0
  count := ring.count
  cap_pow := by
    right
    rcases ring.cap_pow with none_yet | ⟨exponent, cap_eq⟩
    · exact ⟨4, by simp [none_yet]⟩
    · refine ⟨exponent + 1, ?_⟩
      rw [if_neg (by rw [cap_eq]; positivity), cap_eq, pow_succ]
  count_le := by
    have := ring.count_le
    split_ifs <;> omega

variable {α : Type*} {ring : RingBuffer α}

theorem count_lt_grow (zero : α) (ring : RingBuffer α) :
    (ring.grow zero).count < (ring.grow zero).cap := by
  have := ring.count_le
  simp only [grow]
  split_ifs <;> omega

/-- Add an element after the newest one, in an array that has room for it. -/
def append {α : Type*} (ring : RingBuffer α) (value : α)
    (room : ring.count < ring.cap) : RingBuffer α :=
  { ring with
    cells := fun cell => if cell = ring.slot ring.count then value else ring.cells cell
    count := ring.count + 1
    count_le := room }

/-- Add an element, growing the array if it is full; `none` when that fails. -/
def push {α : Type*} (alloc : Bool) (zero : α) (ring : RingBuffer α)
    (value : α) : Option (RingBuffer α) :=
  if room : ring.count < ring.cap then some (ring.append value room)
  else if alloc then some ((ring.grow zero).append value (ring.count_lt_grow zero))
  else none

def pop {α : Type*} (ring : RingBuffer α) : RingBuffer α :=
  { ring with
    head := (ring.head + 1) &&& (ring.cap - 1)
    count := ring.count - 1
    count_le := (Nat.sub_le _ _).trans ring.count_le }

@[simp] theorem length_toList (ring : RingBuffer α) : ring.toList.length = ring.count := by
  simp [toList]

theorem getElem?_toList (ring : RingBuffer α) (index : Nat) :
    ring.toList[index]? = ring.get? index := by
  unfold toList get?
  split_ifs with inside
  · simp [inside]
  · simp [inside]

theorem lt_of_get? {index : Nat} {value : α} (found : ring.get? index = some value) :
    index < ring.count := by
  by_contra outside
  simp [get?, outside] at found

theorem slot_eq_mod (nonempty : 0 < ring.cap) (index : Nat) :
    ring.slot index = (ring.head + index) % ring.cap := by
  rcases ring.cap_pow with none_yet | ⟨exponent, cap_eq⟩
  · omega
  · rw [slot, cap_eq, Nat.and_two_pow_sub_one_eq_mod]

/-- Distinct indices within the array's size have distinct slots. -/
theorem slot_injective {first second : Nat} (first_lt : first < ring.cap)
    (second_lt : second < ring.cap) (same : ring.slot first = ring.slot second) :
    first = second := by
  rw [slot_eq_mod (by omega), slot_eq_mod (by omega)] at same
  have congruent : first ≡ second [MOD ring.cap] := Nat.ModEq.add_left_cancel' _ same
  rwa [Nat.ModEq, Nat.mod_eq_of_lt first_lt, Nat.mod_eq_of_lt second_lt] at congruent

section

variable (ring : RingBuffer α)

@[simp] theorem count_set (index : Nat) (value : α) :
    (ring.set index value).count = ring.count := rfl

@[simp] theorem slot_set (index other : Nat) (value : α) :
    (ring.set index value).slot other = ring.slot other := rfl

@[simp] theorem cells_set (index cell : Nat) (value : α) : (ring.set index value).cells cell =
      if cell = ring.slot index then value else ring.cells cell := rfl

@[simp] theorem count_append (value : α) (room : ring.count < ring.cap) :
    (ring.append value room).count = ring.count + 1 := rfl

@[simp] theorem slot_append (value : α) (index : Nat) (room : ring.count < ring.cap) :
    (ring.append value room).slot index = ring.slot index := rfl

@[simp] theorem cells_append (value : α) (cell : Nat) (room : ring.count < ring.cap) :
    (ring.append value room).cells cell =
      if cell = ring.slot ring.count then value else ring.cells cell := rfl

end

theorem toList_set {index : Nat} (value : α) (inside : index < ring.count) :
    (ring.set index value).toList = ring.toList.set index value := by
  refine List.ext_getElem? fun other => ?_
  have count_le := ring.count_le
  rw [getElem?_toList, List.getElem?_set, getElem?_toList, length_toList, get?, get?]
  by_cases other_lt : other < ring.count
  · by_cases same : index = other
    · subst same
      simp [other_lt]
    · have apart : ring.slot other ≠ ring.slot index :=
        fun equal => same (slot_injective (by omega) (by omega) equal.symm)
      simp [other_lt, same, apart]
  · have apart : index ≠ other := by omega
    simp [other_lt, apart]

theorem toList_append (value : α) (room : ring.count < ring.cap) :
    (ring.append value room).toList = ring.toList ++ [value] := by
  refine List.ext_getElem? fun other => ?_
  rw [getElem?_toList, get?, count_append]
  rcases Nat.lt_trichotomy other ring.count with before | rfl | after
  · have apart : ring.slot other ≠ ring.slot ring.count :=
      fun equal => absurd (slot_injective (by omega) room equal) (by omega)
    rw [List.getElem?_append_left (by simpa using before), getElem?_toList, get?, if_pos before,
      if_pos (by omega)]
    simp [apart]
  · rw [List.getElem?_append_right (by simp), length_toList, Nat.sub_self, if_pos (by omega)]
    simp
  · rw [if_neg (by omega), List.getElem?_eq_none (by simp; omega)]

@[simp] theorem toList_grow (zero : α) (ring : RingBuffer α) :
    (ring.grow zero).toList = ring.toList := by
  refine List.ext_getElem? fun index => ?_
  rw [getElem?_toList, getElem?_toList, get?, get?]
  by_cases inside : index < ring.count
  · have room := count_lt_grow zero ring
    have index_lt : index < (ring.grow zero).cap := by
      have same : (ring.grow zero).count = ring.count := rfl
      omega
    have slot_eq : (ring.grow zero).slot index = index := by
      rw [slot_eq_mod (by omega)]
      have head_eq : (ring.grow zero).head = 0 := rfl
      rw [head_eq, Nat.zero_add, Nat.mod_eq_of_lt index_lt]
    have count_eq : (ring.grow zero).count = ring.count := rfl
    rw [slot_eq, count_eq, if_pos inside, if_pos inside]
    simp [grow, inside]
  · have outside : ¬ index < (ring.grow zero).count := inside
    rw [if_neg inside, if_neg outside]

/-- A successful push adds the element at the end. -/
theorem toList_push {alloc : Bool} {zero value : α} {after : RingBuffer α}
    (pushed : ring.push alloc zero value = some after) : after.toList = ring.toList ++ [value] := by
  unfold push at pushed
  split_ifs at pushed with room allowed
  · cases pushed
    exact toList_append value room
  · cases pushed
    rw [toList_append, toList_grow]

theorem toList_pop (ring : RingBuffer α) : ring.pop.toList = ring.toList.tail := by
  refine List.ext_getElem? fun index => ?_
  rw [List.getElem?_tail, getElem?_toList, getElem?_toList, get?, get?]
  have count_le := ring.count_le
  have count_eq : ring.pop.count = ring.count - 1 := rfl
  rw [count_eq]
  by_cases inside : index + 1 < ring.count
  · have slot_eq : ring.pop.slot index = ring.slot (index + 1) := by
      have cap_eq : ring.pop.cap = ring.cap := rfl
      have head_eq : ring.pop.head = ring.slot 1 := rfl
      rw [slot_eq_mod (by omega), slot_eq_mod (by omega), cap_eq, head_eq,
        slot_eq_mod (by omega), Nat.mod_add_mod]
      congr 1
      omega
    rw [if_pos inside, if_pos (by omega), slot_eq]
    rfl
  · rw [if_neg inside, if_neg (by omega)]

end RingBuffer

end Cx.Library
