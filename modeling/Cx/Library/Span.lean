import Mathlib.Data.List.Basic
import Mathlib.Tactic

/-!
# Sorted lists of separated half-open spans

A list of spans `[off, endOff)` is `Separated` above a lower bound when its members are nonempty,
sorted, and neither overlap nor touch.  `Span.insert` merges one more interval into such a list: it
passes the spans that end strictly before the interval, absorbs those that overlap or touch it, and
leaves the rest alone.
-/

namespace Cx.Library

open List

structure Span where
  off : Nat
  endOff : Nat
deriving DecidableEq, Repr

namespace Span

instance : Membership Nat Span :=
  ⟨fun span position => span.off ≤ position ∧ position < span.endOff⟩

variable {span : Span} {position low high bound start : Nat} {rest spans : List Span}

@[simp] theorem mem_iff : position ∈ span ↔ span.off ≤ position ∧ position < span.endOff := Iff.rfl

def Covers (spans : List Span) (position : Nat) : Prop :=
  ∃ span ∈ spans, position ∈ span

@[simp] theorem covers_nil : ¬ Covers [] position := by
  simp [Covers]

@[simp] theorem covers_cons : Covers (span :: rest) position ↔
      (span.off ≤ position ∧ position < span.endOff) ∨ Covers rest position := by
  simp [Covers]

/-- The spans are nonempty, sorted, pairwise separated by a gap, and start at or above `low`. -/
def Separated : Nat → List Span → Prop
  | _, [] => True
  | low, span :: rest =>
    low ≤ span.off ∧ span.off < span.endOff ∧ Separated (span.endOff + 1) rest

@[simp] theorem separated_nil : Separated low [] := trivial

@[simp] theorem separated_cons : Separated low (span :: rest) ↔
      low ≤ span.off ∧ span.off < span.endOff ∧ Separated (span.endOff + 1) rest := Iff.rfl

section

variable (separated : Separated low spans)
include separated

theorem Separated.weaken {low' : Nat} (low_le : low' ≤ low) : Separated low' spans := by
  cases spans with
  | nil => trivial
  | cons =>
    obtain ⟨first, nonempty, tail⟩ := separated
    exact ⟨low_le.trans first, nonempty, tail⟩

theorem Separated.off_le (span_mem : span ∈ spans) : low ≤ span.off ∧ span.off < span.endOff := by
  induction spans generalizing low with
  | nil => simp at span_mem
  | cons head rest ih =>
    obtain ⟨first, nonempty, tail⟩ := separated
    rcases mem_cons.1 span_mem with rfl | later
    · exact ⟨first, nonempty⟩
    · have := ih tail later
      omega

theorem Separated.pairwise : spans.Pairwise fun first second => first.endOff < second.off := by
  induction spans generalizing low with
  | nil => exact .nil
  | cons head rest ih =>
    obtain ⟨-, -, tail⟩ := separated
    exact .cons (fun later later_mem => (tail.off_le later_mem).1) (ih tail)

/-- Nothing below the lower bound is covered. -/
theorem Separated.low_le (covered : Covers spans position) : low ≤ position := by
  obtain ⟨span, span_mem, off_le, -⟩ := covered
  exact (separated.off_le span_mem).1.trans off_le

end

/-- Absorb the leading spans that start at or below the end of the growing interval. -/
def absorb (low high : Nat) : List Span → Span × List Span
  | [] => (⟨low, high⟩, [])
  | span :: rest =>
    if span.off ≤ high then
      absorb (if span.off < low then span.off else low)
        (if span.endOff > high then span.endOff else high) rest
    else
      (⟨low, high⟩, span :: rest)

/-- Merge the interval `[low, high)` into a sorted list of spans. -/
def insert (low high : Nat) (spans : List Span) : List Span :=
  let grown := absorb low high (spans.dropWhile fun span => span.endOff < low)
  spans.takeWhile (fun span => span.endOff < low) ++ grown.1 :: grown.2

/-- Whether inserting `[low, high)` would absorb no span at all. -/
def isolated (low high : Nat) (spans : List Span) : Bool :=
  (absorb low high (spans.dropWhile fun span => span.endOff < low)).2.length ==
    (spans.dropWhile fun span => span.endOff < low).length

@[simp] theorem insert_nil (low high : Nat) : insert low high [] = [⟨low, high⟩] := by
  simp [insert, absorb]

theorem insert_cons_of_lt (rest : List Span) (before : span.endOff < low) :
    insert low high (span :: rest) = span :: insert low high rest := by
  simp [insert, before]

theorem insert_cons_of_le (rest : List Span) (touching : low ≤ span.endOff) :
    insert low high (span :: rest) =
      (absorb low high (span :: rest)).1 :: (absorb low high (span :: rest)).2 := by
  simp [insert, Nat.not_lt.2 touching]

/-- Absorbing keeps the list separated above any bound that lay below both parts. -/
theorem separated_absorb (nonempty : low < high) (bound_le : bound ≤ low)
    (separated : Separated bound spans) :
    Separated bound ((absorb low high spans).1 :: (absorb low high spans).2) := by
  induction spans generalizing low high bound with
  | nil => exact ⟨bound_le, nonempty, trivial⟩
  | cons span rest ih =>
    obtain ⟨first, span_nonempty, tail⟩ := separated
    by_cases reaches : span.off ≤ high
    · rw [absorb, if_pos reaches]
      refine ih ?_ ?_ (tail.weaken (by omega)) <;> split_ifs <;> omega
    · rw [absorb, if_neg reaches]
      exact ⟨bound_le, nonempty, Nat.lt_of_not_le reaches, span_nonempty, tail⟩

/-- Absorbing spans that all start at or after the interval covers exactly the union. -/
theorem covers_absorb (low_le : low ≤ bound) (separated : Separated bound spans) :
    Covers ((absorb low high spans).1 :: (absorb low high spans).2) position ↔
      (low ≤ position ∧ position < high) ∨ Covers spans position := by
  induction spans generalizing high bound with
  | nil => simp [absorb]
  | cons span rest ih =>
    obtain ⟨first, span_nonempty, tail⟩ := separated
    by_cases reaches : span.off ≤ high
    · rw [absorb, if_pos reaches, if_neg (by omega), ih (by omega) tail, covers_cons]
      by_cases later : Covers rest position
      · simp [later]
      · simp only [later, or_false]
        split_ifs <;> omega
    · rw [absorb, if_neg reaches]
      simp

theorem separated_insert (nonempty : low < high) (bound_le : bound ≤ low)
    (separated : Separated bound spans) : Separated bound (insert low high spans) := by
  induction spans generalizing bound with
  | nil => simp [nonempty, bound_le]
  | cons span rest ih =>
    by_cases before : span.endOff < low
    · rw [insert_cons_of_lt rest before]
      obtain ⟨first, span_nonempty, tail⟩ := separated
      exact ⟨first, span_nonempty, ih before tail⟩
    · rw [insert_cons_of_le rest (Nat.le_of_not_lt before)]
      exact separated_absorb nonempty bound_le separated

/-- Inserting an interval adds exactly its own positions to the covered set. -/
theorem covers_insert (separated : Separated bound spans) :
    Covers (insert low high spans) position ↔
      (low ≤ position ∧ position < high) ∨ Covers spans position := by
  induction spans generalizing bound with
  | nil => simp
  | cons span rest ih =>
    obtain ⟨first, span_nonempty, tail⟩ := separated
    by_cases before : span.endOff < low
    · rw [insert_cons_of_lt rest before, covers_cons, ih tail, covers_cons]
      tauto
    · rw [insert_cons_of_le rest (Nat.le_of_not_lt before)]
      by_cases reaches : span.off ≤ high
      · rw [absorb, if_pos reaches, covers_absorb (by split_ifs <;> omega) tail, covers_cons]
        by_cases later : Covers rest position
        · simp [later]
        · simp only [later, or_false]
          split_ifs <;> omega
      · rw [absorb, if_neg reaches]
        simp

theorem length_absorb_le (low high : Nat) (spans : List Span) :
    (absorb low high spans).2.length ≤ spans.length := by
  induction spans generalizing low high with
  | nil => simp [absorb]
  | cons span rest ih =>
    rw [absorb]
    split
    · exact (ih _ _).trans (Nat.le_succ _)
    · exact le_rfl

/-- An interval that reaches no span before the first is isolated when it ends short of it. -/
theorem isolated_cons_iff {first : Span} (low_le : low ≤ first.endOff) :
    isolated low high (first :: rest) = true ↔ high < first.off := by
  have shorter := length_absorb_le (if first.off < low then first.off else low)
    (if first.endOff > high then first.endOff else high) rest
  have kept : (first :: rest).dropWhile (fun span => span.endOff < low) = first :: rest :=
    dropWhile_cons_of_neg (by simpa using low_le)
  rw [isolated, kept, absorb]
  by_cases reached : first.off ≤ high
  · rw [if_pos reached, beq_iff_eq, length_cons]
    omega
  · simp [reached, Nat.lt_of_not_le reached]


theorem length_insert (low high : Nat) (spans : List Span) :
    (insert low high spans).length ≤ spans.length + 1 ∧
      (isolated low high spans = false → (insert low high spans).length ≤ spans.length) := by
  have shorter := length_absorb_le low high (spans.dropWhile fun span => span.endOff < low)
  have parts := congrArg List.length
    (takeWhile_append_dropWhile (p := fun span : Span => decide (span.endOff < low)) (l := spans))
  simp only [insert, isolated, length_append, length_cons, beq_eq_false_iff_ne] at *
  omega

theorem absorb_le (high_le : high ≤ bound) (ends_le : ∀ span ∈ spans, span.endOff ≤ bound) :
    (absorb low high spans).1.endOff ≤ bound := by
  induction spans generalizing low high with
  | nil => simpa [absorb] using high_le
  | cons span rest ih =>
    have span_le := ends_le span mem_cons_self
    rw [absorb]
    split
    · refine ih ?_ fun other other_mem => ends_le other (mem_cons_of_mem _ other_mem)
      split_ifs <;> omega
    · exact high_le

theorem mem_of_mem_absorb (span_mem : span ∈ (absorb low high spans).2) : span ∈ spans := by
  induction spans generalizing low high with
  | nil => simp [absorb] at span_mem
  | cons head rest ih =>
    rw [absorb] at span_mem
    split at span_mem
    · exact mem_cons_of_mem _ (ih span_mem)
    · exact span_mem

/-- A member of the list after an insertion is an old one or the merged span. -/
theorem mem_insert (span_mem : span ∈ insert low high spans) : span ∈ spans ∨
      span = (absorb low high (spans.dropWhile fun span => span.endOff < low)).1 := by
  rcases mem_append.1 span_mem with kept | merged
  · exact .inl ((takeWhile_sublist _).subset kept)
  · rcases mem_cons.1 merged with rfl | later
    · exact .inr rfl
    · exact .inl ((dropWhile_sublist _).subset (mem_of_mem_absorb later))

/-- Move the start of the first span up, removing the span once it is empty. -/
def advance (start : Nat) : List Span → List Span
  | [] => []
  | first :: rest =>
    if first.endOff = start then rest else { first with off := start } :: rest

theorem length_advance_le (start : Nat) (spans : List Span) :
    (advance start spans).length ≤ spans.length := by
  cases spans with
  | nil => rfl
  | cons =>
    rw [advance]
    split_ifs <;> simp

theorem endOff_mem_advance (span_mem : span ∈ advance start spans) :
    ∃ old ∈ spans, old.endOff = span.endOff := by
  cases spans with
  | nil => simp [advance] at span_mem
  | cons first =>
    rw [advance] at span_mem
    split_ifs at span_mem
    · exact ⟨span, mem_cons_of_mem _ span_mem, rfl⟩
    · rcases mem_cons.1 span_mem with rfl | later
      · exact ⟨first, mem_cons_self, rfl⟩
      · exact ⟨span, mem_cons_of_mem _ later, rfl⟩

/-- Advancing within the first span keeps the list separated above the new start. -/
theorem separated_advance {first : Span} (separated : Separated low (first :: rest))
    (start_le : start ≤ first.endOff) : Separated start (advance start (first :: rest)) := by
  obtain ⟨-, nonempty, tail⟩ := separated
  rw [advance]
  split_ifs with emptied
  · exact tail.weaken (by omega)
  · exact ⟨le_rfl, by simp only; omega, tail⟩

/-- Advancing within the first span forgets exactly the positions below the new start. -/
theorem covers_advance {first : Span} (separated : Separated low (first :: rest))
    (off_le : first.off ≤ start) (start_le : start ≤ first.endOff) :
    Covers (advance start (first :: rest)) position ↔
      Covers (first :: rest) position ∧ start ≤ position := by
  obtain ⟨-, nonempty, tail⟩ := separated
  have rest_above : Covers rest position → first.endOff + 1 ≤ position := tail.low_le
  rw [advance]
  split_ifs with emptied <;> simp only [covers_cons] <;> constructor
  · intro later
    have := rest_above later
    exact ⟨.inr later, by omega⟩
  · rintro ⟨inside | later, above⟩
    · omega
    · exact later
  · rintro (inside | later)
    · exact ⟨.inl (by omega), by omega⟩
    · have := rest_above later
      exact ⟨.inr later, by omega⟩
  · rintro ⟨inside | later, above⟩
    · exact .inl (by omega)
    · exact .inr later

end Span

end Cx.Library
