import Mathlib.Data.List.Basic
import Mathlib.Tactic

/-!
# Growing an array

An array grows by a part of its capacity, again and again until a request fits.  A part of a small
capacity can be nothing: half of one, a quarter of three, and anything of zero.  Such capacities are
left behind by asking for them and by shrinking an array with its contents, and then the loop that
makes room for the next element does not end.
-/

namespace Cx.Container

inductive SaGrow where
  | auto | normal | aggressive | slow | by100 | by50 | by25 | minimal
deriving DecidableEq

structure SArray where
  grow : SaGrow
  autoShrink : Bool
  count : Nat := 0
  capacity : Nat
deriving DecidableEq

def saInit (elemsz : Nat) (capacity : Int) (grow : SaGrow) (autoShrink : Bool) : SArray where
  grow :=
    if grow = .auto then
      if elemsz ≤ 8 then .aggressive else if elemsz ≤ 256 then .normal else .slow
    else grow
  autoShrink := autoShrink
  capacity := if capacity = 0 then 8 else (max capacity 1).toNat

/-- One round of the loop in `_saGrow`. -/
def saGrowRound (minsz cap : Nat) : SaGrow → Nat
  | .normal => if cap < 16 then cap * 2 else if cap < 128 then cap + cap / 2 else cap + cap / 4
  | .aggressive => if cap < 32 then cap * 2 else if cap < 256 then cap + cap / 2 else cap + cap / 4
  | .slow => if cap < 8 then cap * 2 else if cap < 64 then cap + cap / 2 else cap + cap / 4
  | .by100 => cap * 2
  | .by50 => cap + cap / 2
  | .by25 => cap + cap / 4
  | .minimal => max cap minsz
  | .auto => cap + cap / 2

/-- The loop, for as many rounds as it is given. -/
def saGrowLoop (grow : SaGrow) (minsz : Nat) : Nat → Nat → Option Nat
  | 0, cap => if cap < minsz then none else some cap
  | rounds + 1, cap =>
    if cap < minsz then saGrowLoop grow minsz rounds (saGrowRound minsz cap grow) else some cap

section

variable (a : SArray)

/-- As many rounds as elements are asked for are enough, if any number is. -/
def saGrow (minsz : Nat) : Option SArray :=
  (saGrowLoop a.grow minsz minsz a.capacity).map ({ a with capacity := · })

def saNewCapacity (capacity : Int) : Nat :=
  (max (if capacity = 0 then 1 else capacity) a.count).toNat

def saReserve (capacity : Int) : Option SArray :=
  if a.capacity < saNewCapacity a capacity then saGrow a (saNewCapacity a capacity) else some a

def saShrink (capacity : Int) : SArray :=
  if saNewCapacity a capacity < a.capacity then { a with capacity := saNewCapacity a capacity }
  else a

/-- Negative positions count from the end. -/
def saInside (idx : Int) : Bool :=
  let idx := if idx < 0 then idx + a.count else idx
  0 ≤ idx && idx < a.count

inductive SaOp where
  | push
  | remove (idx : Int)
  | setSize (size : Nat)
  | reserve (capacity : Int)
  | shrink (capacity : Int)

def saStep : SaOp → Option SArray
  | .push => (if a.count = a.capacity then saGrow a (a.count + 1) else some a).map fun a =>
      { a with count := a.count + 1 }
  | .remove idx => some <|
    if saInside a idx then { a with
      count := a.count - 1
      capacity := if a.autoShrink then a.count - 1 else a.capacity }
    else a
  | .setSize size => (saReserve a size).map ({ · with count := size })
  | .reserve capacity => saReserve a capacity
  | .shrink capacity => some (saShrink a capacity)

end

/-- The least capacity of which the policy's part is something. -/
def leastCapacity : SaGrow → Nat
  | .minimal => 0
  | .normal | .aggressive | .slow | .by100 => 1
  | .by50 | .auto => 2
  | .by25 => 4

section

variable {grow : SaGrow} {minsz cap rounds : Nat}

theorem lt_saGrowRound (least : leastCapacity grow ≤ cap) (short : cap < minsz) :
    cap < saGrowRound minsz cap grow ∧ saGrowRound minsz cap grow ≤ 2 * minsz := by
  cases grow <;> simp only [saGrowRound, leastCapacity] at least ⊢ <;> (try split_ifs) <;> omega

/-- No number on the way is too large for an `int32` if the request is below 2³⁰. -/
theorem saGrowLoop_spec (least : leastCapacity grow ≤ cap) (enough : minsz ≤ cap + rounds) :
    ∃ room, saGrowLoop grow minsz rounds cap = some room ∧ cap ≤ room ∧ minsz ≤ room ∧
      room ≤ max cap (2 * minsz) := by
  induction rounds generalizing cap with
  | zero => exact ⟨cap, if_neg (by omega), le_rfl, enough, le_max_left _ _⟩
  | succ rounds ih =>
    rw [saGrowLoop]
    split_ifs with short
    · obtain ⟨more, small⟩ := lt_saGrowRound least short
      obtain ⟨room, ends, above, fits, bounded⟩ := ih (least.trans more.le) (by omega)
      exact ⟨room, ends, by omega, fits, by omega⟩
    · exact ⟨cap, rfl, le_rfl, by omega, le_max_left _ _⟩

/-- A round that adds nothing is followed by another. -/
theorem saGrowLoop_none (short : cap < minsz) (still : saGrowRound minsz cap grow = cap)
    (rounds : Nat) : saGrowLoop grow minsz rounds cap = none := by
  induction rounds with
  | zero => exact if_pos short
  | succ rounds ih => rw [saGrowLoop, if_pos short, still, ih]

end

/-- The array was made with these flags, and its capacity grows. -/
def SArray.Grows (grow : SaGrow) (autoShrink : Bool) (a : SArray) : Prop :=
  a.grow = grow ∧ a.autoShrink = autoShrink ∧ leastCapacity grow ≤ a.capacity

/-- The call leaves no capacity behind that does not grow. -/
def SaOp.Keeps (grow : SaGrow) (autoShrink : Bool) : SaOp → Prop
  | .shrink capacity => leastCapacity grow ≤ capacity
  | .remove _ => autoShrink = false ∨ grow = .minimal
  | _ => True

section

variable {a : SArray} {policy : SaGrow} {autoShrink : Bool} (grows : a.Grows policy autoShrink)
include grows

theorem grows_saGrow (minsz : Nat) : ∃ b, saGrow a minsz = some b ∧ b.Grows policy autoShrink := by
  obtain ⟨rfl, flags, least⟩ := grows
  obtain ⟨room, ends, above, -⟩ := saGrowLoop_spec least (Nat.le_add_left minsz a.capacity)
  exact ⟨_, congrArg (Option.map _) ends, rfl, flags, least.trans above⟩

theorem grows_saReserve (capacity : Int) :
    ∃ b, saReserve a capacity = some b ∧ b.Grows policy autoShrink := by
  unfold saReserve
  split_ifs
  · exact grows_saGrow grows _
  · exact ⟨a, rfl, grows⟩

theorem grows_saStep {op : SaOp} (keeps : op.Keeps policy autoShrink) :
    ∃ b, saStep a op = some b ∧ b.Grows policy autoShrink := by
  cases op with
  | push =>
    rw [saStep]
    split_ifs
    · obtain ⟨b, grown, kept⟩ := grows_saGrow grows (a.count + 1)
      exact ⟨{ b with count := b.count + 1 }, congrArg (Option.map _) grown, kept⟩
    · exact ⟨_, rfl, grows⟩
  | setSize size =>
    obtain ⟨b, reserved, kept⟩ := grows_saReserve grows size
    exact ⟨{ b with count := size }, congrArg (Option.map _) reserved, kept⟩
  | reserve capacity => exact grows_saReserve grows capacity
  | remove idx =>
    refine ⟨_, rfl, ?_⟩
    obtain ⟨rfl, rfl, least⟩ := grows
    split_ifs with _ shrinks
    · rcases keeps with off | minimal
      · simp [off] at shrinks
      · exact ⟨rfl, rfl, by simp [minimal, leastCapacity]⟩
    · exact ⟨rfl, rfl, least⟩
    · exact ⟨rfl, rfl, least⟩
  | shrink capacity =>
    refine ⟨_, rfl, ?_⟩
    have asked : leastCapacity policy ≤ saNewCapacity a capacity := by
      have : (leastCapacity policy : Int) ≤ capacity := keeps
      unfold saNewCapacity
      split_ifs <;> omega
    unfold saShrink
    split_ifs
    · exact ⟨grows.1, grows.2.1, asked⟩
    · exact grows

end

end Cx.Container
