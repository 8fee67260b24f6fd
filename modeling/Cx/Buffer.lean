import Cx.Library.Memory

/-!
# Growable byte buffers

The part of the `cx` buffer type that the send and reassembly buffers use: an allocation of `sz`
cells of which the first `len` are in use.  A null `Buffer` is `none`.  Whether the allocator can
serve a request is a parameter, since a failed request is something callers have to survive.
-/

namespace Cx

open Library

structure Buffer where
  sz : Nat
  len : Nat
  data : Nat → UInt8

def bufData : Option Buffer → Nat → UInt8
  | none => fun _ => 0
  | some buf => buf.data

def bufLen : Option Buffer → Nat
  | none => 0
  | some buf => buf.len

@[simp] theorem bufData_some (buf : Buffer) : bufData (some buf) = buf.data := rfl

@[simp] theorem bufLen_some (buf : Buffer) : bufLen (some buf) = buf.len := rfl

@[simp] theorem bufLen_none : bufLen none = 0 := rfl

def bufTryCreate (alloc : Nat → Bool) (size : Nat) : Option Buffer :=
  if alloc size then some ⟨size, 0, fun _ => 0⟩ else none

def bufTryResize (alloc : Nat → Bool) : Option Buffer → Nat → Option Buffer
  | none, newsize => bufTryCreate alloc newsize
  | some buf, newsize =>
    if newsize = buf.sz then some buf
    else if alloc newsize then some { buf with sz := newsize, len := min buf.len newsize }
    else none

/-- Double `want` until it reaches `need`. -/
def bufWant (need : Nat) : Nat → Nat → Nat
  | 0, want => want
  | fuel + 1, want => if want < need then bufWant need fuel (want * 2) else want

/-- Make room for `need` bytes, growing in powers of two. -/
def bufEnsure (alloc : Nat → Bool) (buf : Option Buffer) (need : Nat) : Option Buffer :=
  match buf with
  | none => bufTryResize alloc none (bufWant need need 1024)
  | some held =>
    if held.sz < need then bufTryResize alloc (some held) (bufWant need need held.sz)
    else some held

/-- Drop `count` bytes from the front and slide the rest down. -/
def bufDiscard (buf : Option Buffer) (count : Nat) : Option Buffer :=
  buf.map fun held =>
    let keep := if held.len > count then held.len - count else 0
    { held with data := Memory.slide held.data count keep, len := keep }

theorem bufWant_ge {need want fuel : Nat} : want ≤ bufWant need fuel want := by
  induction fuel generalizing want with
  | zero => rfl
  | succ fuel ih =>
    rw [bufWant]
    split_ifs
    · exact (Nat.le_mul_of_pos_right want (by omega)).trans ih
    · rfl

/-- Enough doublings of a positive size reach any target. -/
theorem bufWant_reaches {need want fuel : Nat} (enough : need ≤ want + fuel)
    (positive : 0 < want) : need ≤ bufWant need fuel want := by
  induction fuel generalizing want with
  | zero => simpa [bufWant] using enough
  | succ fuel ih =>
    rw [bufWant]
    split_ifs with short
    · exact ih (by omega) (by omega)
    · omega

def BufferFits (buf : Option Buffer) : Prop :=
  ∀ held, buf = some held → held.len ≤ held.sz ∧ 0 < held.sz

variable {buf : Option Buffer}

/-- Growing a sound buffer keeps its bytes and its length and makes the room asked for. -/
theorem bufEnsure_spec {alloc : Nat → Bool} {need : Nat} {grown : Buffer}
    (fits : BufferFits buf) (ensured : bufEnsure alloc buf need = some grown) :
    grown.len = bufLen buf ∧ (buf.isSome → grown.data = bufData buf) ∧ need ≤ grown.sz ∧
      BufferFits (some grown) := by
  cases buf with
  | none =>
    simp only [bufEnsure, bufTryResize, bufTryCreate, Option.ite_none_right_eq_some,
      Option.some.injEq] at ensured
    obtain ⟨-, rfl⟩ := ensured
    have reached : need ≤ bufWant need need 1024 := bufWant_reaches (by omega) (by omega)
    have positive : 1024 ≤ bufWant need need 1024 := bufWant_ge
    refine ⟨rfl, by simp, reached, ?_⟩
    rintro held ⟨⟩
    exact ⟨Nat.zero_le _, Nat.lt_of_lt_of_le (by decide) positive⟩
  | some held =>
    obtain ⟨held_fits, held_positive⟩ := fits held rfl
    simp only [bufEnsure] at ensured
    split_ifs at ensured with short
    · have reached : need ≤ bufWant need need held.sz := bufWant_reaches (by omega) held_positive
      have larger : held.sz ≤ bufWant need need held.sz := bufWant_ge
      simp only [bufTryResize] at ensured
      split_ifs at ensured with same allowed
      · omega
      · cases ensured
        have len_eq : min held.len (bufWant need need held.sz) = held.len :=
          Nat.min_eq_left (held_fits.trans larger)
        refine ⟨len_eq, fun _ => rfl, reached, ?_⟩
        rintro again ⟨⟩
        exact ⟨Nat.min_le_right _ _, held_positive.trans_le larger⟩
    · cases ensured
      exact ⟨rfl, fun _ => rfl, Nat.le_of_not_lt short, fits⟩

theorem bufferFits_discard (fits : BufferFits buf) (count : Nat) :
    BufferFits (bufDiscard buf count) := by
  intro held held_eq
  cases buf with
  | none => simp [bufDiscard] at held_eq
  | some before =>
    simp only [bufDiscard, Option.map_some, Option.some.injEq] at held_eq
    obtain ⟨len_le, positive⟩ := fits before rfl
    subst held_eq
    refine ⟨?_, positive⟩
    simp only
    split_ifs <;> omega

@[simp] theorem bufLen_discard (buf : Option Buffer) (count : Nat) :
    bufLen (bufDiscard buf count) = bufLen buf - count := by
  cases buf with
  | none => simp [bufDiscard]
  | some =>
    simp only [bufDiscard, Option.map_some, bufLen_some]
    split_ifs <;> omega

theorem bufData_discard {count index : Nat} (kept : index + count < bufLen buf) :
    bufData (bufDiscard buf count) index = bufData buf (index + count) := by
  cases buf with
  | none => simp at kept
  | some held =>
    simp only [bufLen_some] at kept
    simp only [bufDiscard, Option.map_some, bufData_some, Memory.slide]
    rw [if_pos (by split_ifs <;> omega)]

/-- Discarding from the front moves the window that the buffer holds. -/
theorem holds_bufDiscard {source : List UInt8} {base low high : Nat}
    (count : Nat) (holds : Memory.Holds (bufData buf) base source low high)
    (le_low : base + count ≤ low) (high_le : high ≤ base + bufLen buf) :
    Memory.Holds (bufData (bufDiscard buf count)) (base + count) source low high := by
  intro position low_le lt_high
  rw [holds position low_le lt_high, bufData_discard (by omega)]
  congr 2
  omega

end Cx
