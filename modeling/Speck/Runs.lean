import Mathlib.Data.List.Induction

/-!
# Runs

A system that takes one step for each action of a list : its invariants, and the runs whose
steps all meet a condition on the state before them.
-/

namespace Speck

variable {State Action : Type}

/-- What holds at the start and is kept by every step holds after every run. -/
theorem foldl_invariant {step : State → Action → State} {start : State} {P : State → Prop}
    (hstart : P start) (hstep : ∀ s action, P s → P (step s action)) (actions : List Action) :
    P (actions.foldl step start) := by
  induction actions using List.reverseRecOn with
  | nil => exact hstart
  | append_singleton actions action ih =>
    rw [List.foldl_append]
    exact hstep _ action ih

/-- Every step of a run meets a condition on the state before it. -/
def StepsMeet (step : State → Action → State) (meets : State → Action → Prop) :
    State → List Action → Prop
  | _, [] => True
  | s, action :: actions => meets s action ∧ StepsMeet step meets (step s action) actions

instance decidableStepsMeet (step : State → Action → State) (meets : State → Action → Prop)
    [∀ s action, Decidable (meets s action)] :
    ∀ s actions, Decidable (StepsMeet step meets s actions)
  | _, [] => isTrue trivial
  | s, action :: actions =>
    have := decidableStepsMeet step meets (step s action) actions
    inferInstanceAs (Decidable (meets s action ∧ StepsMeet step meets (step s action) actions))

theorem stepsMeet_concat {step : State → Action → State} {meets : State → Action → Prop}
    {s : State} {actions : List Action} {action : Action} :
    StepsMeet step meets s (actions ++ [action]) ↔
      StepsMeet step meets s actions ∧ meets (actions.foldl step s) action := by
  induction actions generalizing s with
  | nil => simp [StepsMeet]
  | cons first actions ih => simp [StepsMeet, ih, and_assoc]

/-- A condition on the actions alone. -/
theorem stepsMeet_of_forall {step : State → Action → State} {meets : State → Action → Prop}
    {s : State} {actions : List Action} (h : ∀ s, ∀ action ∈ actions, meets s action) :
    StepsMeet step meets s actions := by
  induction actions generalizing s with
  | nil => trivial
  | cons first actions ih =>
    exact ⟨h s first List.mem_cons_self,
      ih fun s action haction => h s action (List.mem_cons_of_mem _ haction)⟩

/-- What holds at the start and is kept by every step that meets the condition holds after
every run whose steps meet it. -/
theorem foldl_invariant_of_stepsMeet {step : State → Action → State}
    {meets : State → Action → Prop} {start : State} {P : State → Prop} (hstart : P start)
    (hstep : ∀ s action, P s → meets s action → P (step s action)) {actions : List Action}
    (hmeets : StepsMeet step meets start actions) : P (actions.foldl step start) := by
  induction actions using List.reverseRecOn with
  | nil => exact hstart
  | append_singleton actions action ih =>
    obtain ⟨hactions, haction⟩ := stepsMeet_concat.mp hmeets
    rw [List.foldl_append]
    exact hstep _ action (ih hactions) haction

end Speck
