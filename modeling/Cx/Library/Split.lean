import Mathlib.Data.List.Basic
import Mathlib.Data.List.Infix
import Mathlib.Tactic

/-!
# Parts of a list

A list split at a separator is given back by joining its parts.  Each part stands in the list
between two separators, or at one of its ends.
-/

namespace Cx.Library

open List

variable {α : Type*}

/-- What joining leaves before a part: the parts before it, each with a separator after it. -/
def partsBefore (sep : α) (parts : List (List α)) : List α := parts.flatMap (· ++ [sep])

/-- What joining leaves after a part: the parts after it, each with a separator before it. -/
def partsAfter (sep : α) (parts : List (List α)) : List α := parts.flatMap (sep :: ·)

variable (sep : α) (first : List α) (parts front : List (List α))

theorem intercalate_cons_eq :
    [sep].intercalate (first :: parts) = first ++ partsAfter sep parts := by
  induction parts generalizing first with
  | nil => simp [intercalate, partsAfter]
  | cons second parts ih =>
    rw [intercalate_cons_cons, ih]
    simp [partsAfter]

theorem intercalate_append_cons (part : List α) (back : List (List α)) :
    [sep].intercalate (front ++ part :: back) =
      partsBefore sep front ++ part ++ partsAfter sep back := by
  induction front with
  | nil => simp [intercalate_cons_eq, partsBefore]
  | cons first front ih =>
    cases front with
    | nil => simp [intercalate_cons_eq, partsBefore, partsAfter]
    | cons =>
      rw [cons_append, cons_append, intercalate_cons_cons, ← cons_append, ih]
      simp [partsBefore]

/-- Parts that come before another end in a separator. -/
theorem sep_suffix_partsBefore {front : List (List α)} (some_part : front ≠ []) :
    [sep] <:+ partsBefore sep front := by
  rw [← dropLast_append_getLast some_part, partsBefore, flatMap_append, flatMap_singleton,
    ← append_assoc]
  exact suffix_append _ _

/-- What is in the joined list is in a part, or is the separator. -/
theorem mem_intercalate {sep element : α} {parts : List (List α)}
    (inside : element ∈ [sep].intercalate parts) :
    element = sep ∨ ∃ part ∈ parts, element ∈ part := by
  cases parts with
  | nil => cases inside
  | cons first =>
    rw [intercalate_cons_eq, mem_append, partsAfter, mem_flatMap] at inside
    rcases inside with inside | ⟨part, is_part, inside⟩
    · exact .inr ⟨first, mem_cons_self, inside⟩
    · rcases mem_cons.1 inside with same | inside
      · exact .inl same
      · exact .inr ⟨part, mem_cons_of_mem first is_part, inside⟩

section

variable [BEq α] [LawfulBEq α] {sep : α} {list : List α}

/-- Where a part stands in the list. -/
theorem eq_of_splitOn_eq {front back : List (List α)} {part : List α}
    (split : list.splitOn sep = front ++ part :: back) :
    list = partsBefore sep front ++ part ++ partsAfter sep back := by
  rw [← intercalate_append_cons, ← split, intercalate_splitOn]

theorem splitOn_cons_sep (list : List α) : (sep :: list).splitOn sep = [] :: list.splitOn sep :=
  splitOn_append_cons_self_of_not_mem not_mem_nil list

/-- What the parts have in them is in the list. -/
theorem mem_of_mem_splitOn {part : List α} {element : α} (is_part : part ∈ list.splitOn sep)
    (inside : element ∈ part) : element ∈ list := by
  obtain ⟨front, back, split⟩ := append_of_mem is_part
  rw [eq_of_splitOn_eq split]
  exact mem_append_left _ (mem_append_right _ inside)

/-- A part has no separator in it. -/
theorem sep_not_mem_of_mem_splitOn {part : List α} (is_part : part ∈ list.splitOn sep) :
    sep ∉ part := by
  induction list generalizing part with
  | nil =>
    rw [splitOn_eq_singleton not_mem_nil, mem_singleton] at is_part
    rw [is_part]
    exact not_mem_nil
  | cons element list ih =>
    rw [splitOn_cons_eq_if_modifyHead] at is_part
    split at is_part
    · rcases mem_cons.1 is_part with rfl | later
      · exact not_mem_nil
      · exact ih later
    · next other =>
        obtain ⟨first, parts, split⟩ := exists_cons_of_ne_nil (splitOn_ne_nil sep list)
        rw [split, modifyHead_cons] at is_part
        rcases mem_cons.1 is_part with rfl | later
        · rw [mem_cons, not_or]
          refine ⟨fun same => other (same ▸ BEq.rfl), ih ?_⟩
          rw [split]
          exact mem_cons_self
        · refine ih ?_
          rw [split]
          exact mem_cons_of_mem _ later

end

end Cx.Library
