import Mathlib.Algebra.BigOperators.Group.Finset.Basic
import Mathlib.Algebra.Order.BigOperators.Group.Finset
import Mathlib.Tactic

/-!
# A census of a finite family

The members of a finite family each stand at some place, and a weight says what a place counts
for.  The census is the sum of the weights.  Moving one member changes it by the difference of
two weights.
-/

namespace Cx.Library

/-- What the members of a family count for together. -/
def census {ι α : Type*} [Fintype ι] (weight : α → Nat) (places : ι → α) : Nat :=
  ∑ member, weight (places member)

section

variable {ι α : Type*} [Fintype ι] {weight : α → Nat} {places : ι → α}

/-- Moving one member exchanges its old weight for its new one. -/
theorem census_update [DecidableEq ι] (weight : α → Nat) (places : ι → α) (member : ι) (place : α) :
    census weight (Function.update places member place) + weight (places member) =
      census weight places + weight place := by
  have others : ∑ other ∈ Finset.univ.erase member,
      weight (Function.update places member place other) =
        ∑ other ∈ Finset.univ.erase member, weight (places other) :=
    Finset.sum_congr rfl fun other other_mem => by
      rw [Function.update_of_ne (Finset.ne_of_mem_erase other_mem)]
  have moved := Finset.add_sum_erase Finset.univ
    (fun other => weight (Function.update places member place other)) (Finset.mem_univ member)
  have stayed := Finset.add_sum_erase Finset.univ (fun other => weight (places other))
    (Finset.mem_univ member)
  simp only [Function.update_self] at moved
  simp only [census]
  omega

theorem weight_le_census (weight : α → Nat) (places : ι → α) (member : ι) :
    weight (places member) ≤ census weight places :=
  Finset.single_le_sum (f := fun other => weight (places other)) (fun _ _ => Nat.zero_le _)
    (Finset.mem_univ member)

/-- Two different members count for at most the whole. -/
theorem add_weight_le_census [DecidableEq ι] (weight : α → Nat) (places : ι → α)
    {first second : ι} (distinct : first ≠ second) :
    weight (places first) + weight (places second) ≤ census weight places := by
  rw [← Finset.sum_pair distinct (f := fun member => weight (places member))]
  exact Finset.sum_le_sum_of_subset (Finset.subset_univ _)

theorem census_eq_zero (weightless : ∀ member, weight (places member) = 0) :
    census weight places = 0 :=
  Finset.sum_eq_zero fun member _ => weightless member

end

end Cx.Library
