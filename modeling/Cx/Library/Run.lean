import Mathlib.Data.List.Basic
import Mathlib.Logic.Relation
import Mathlib.Tactic

/-!
# Runs of a state machine

A machine is a step function that takes a state and an operation; the operation carries every
choice the environment makes.  The induction rules reduce a statement about every reachable state to
one about a single step, with or without a condition on the steps, or of a relation.
-/

namespace Cx.Library

def run {σ α : Type*} (step : σ → α → σ) (start : σ) (ops : List α) : σ :=
  ops.foldl step start

variable {σ α : Type*} {step : σ → α → σ} {allowed : σ → α → Prop} {state : σ} {ops : List α}

@[simp] theorem run_nil (step : σ → α → σ) (start : σ) : run step start [] = start := rfl

@[simp] theorem run_cons (step : σ → α → σ) (start : σ) (op : α) (ops : List α) :
    run step start (op :: ops) = run step (step start op) ops := rfl

theorem run_append (step : σ → α → σ) (start : σ) (front back : List α) :
    run step start (front ++ back) = run step (run step start front) back := by
  simp [run]

/-- What holds at the start and survives every step holds of every state of a run. -/
theorem run_invariant {start : σ} (Good : σ → Prop) (initially : Good start)
    (preserved : ∀ state op, Good state → Good (step state op)) (ops : List α) :
    Good (run step start ops) := by
  induction ops generalizing start with
  | nil => exact initially
  | cons op ops ih => exact ih (preserved start op initially)

/-- Every step of the run meets the condition in the state it starts from. -/
def Admits {σ α : Type*} (step : σ → α → σ) (allowed : σ → α → Prop) : σ → List α → Prop
  | _, [] => True
  | state, op :: ops => allowed state op ∧ Admits step allowed (step state op) ops

@[simp] theorem admits_nil : Admits step allowed state [] := trivial

@[simp] theorem admits_cons {op : α} : Admits step allowed state (op :: ops) ↔
      allowed state op ∧ Admits step allowed (step state op) ops := Iff.rfl

theorem admits_append {front back : List α} : Admits step allowed state (front ++ back) ↔
      Admits step allowed state front ∧ Admits step allowed (run step state front) back := by
  induction front generalizing state with
  | nil => simp
  | cons op front ih => simp [ih, and_assoc]

theorem admits_and {first second : σ → α → Prop} :
    Admits step (fun state op => first state op ∧ second state op) state ops ↔
      Admits step first state ops ∧ Admits step second state ops := by
  induction ops generalizing state with
  | nil => simp
  | cons op ops ih =>
    rw [admits_cons, admits_cons, admits_cons, ih]
    exact and_and_and_comm

/-- A condition on the operations alone is met along every run of such operations. -/
theorem admits_of_forall {allowed : α → Prop} (all_allowed : ∀ op ∈ ops, allowed op) (state : σ) :
    Admits step (fun _ op => allowed op) state ops := by
  induction ops generalizing state with
  | nil => trivial
  | cons op ops ih =>
    exact ⟨all_allowed op List.mem_cons_self,
      ih (fun later later_mem => all_allowed later (List.mem_cons_of_mem _ later_mem)) _⟩

/-- What survives every step that meets the condition holds along every run that meets it. -/
theorem admits_invariant {start : σ} (Good : σ → Prop) (initially : Good start)
    (preserved : ∀ state op, Good state → allowed state op → Good (step state op))
    (admitted : Admits step allowed start ops) : Good (run step start ops) := by
  induction ops generalizing start with
  | nil => exact initially
  | cons op ops ih => exact ih (preserved start op initially admitted.1) admitted.2

/-- What every step of a relation keeps, steps in a row keep. -/
theorem steps_keep {next : σ → σ → Prop} {Good : σ → Prop} {first last : σ}
    (steps : Relation.ReflTransGen next first last)
    (keeps : ∀ {before after}, next before after → Good before → Good after)
    (good : Good first) : Good last := by
  induction steps with
  | refl => exact good
  | tail _ step ih => exact keeps step ih

instance Admits.decidable {σ α : Type*} (step : σ → α → σ) (allowed : σ → α → Prop)
    [∀ state op, Decidable (allowed state op)] (state : σ) (ops : List α) :
    Decidable (Admits step allowed state ops) :=
  match ops with
  | [] => .isTrue trivial
  | op :: ops =>
    have : Decidable (Admits step allowed (step state op) ops) :=
      Admits.decidable step allowed (step state op) ops
    inferInstanceAs (Decidable (_ ∧ _))

end Cx.Library
