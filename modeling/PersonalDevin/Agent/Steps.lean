import PersonalDevin.Lib.Dict
import PersonalDevin.Planning.Model
import Mathlib.Data.List.Infix

/-!
# Steps and step plans

What the loop controller makes of the plans and steps a planner hands it: `_normalize_step` and
`_normalize_step_plan`, and the operations on the active plan. A step that was no dictionary has no
`dependencies` entry. Reading `current_step` with `int` is the only thing that can raise.
-/

namespace PersonalDevin.Agent

structure Step where
  id : String
  action : String
  dependencies : Option (List String)
  metadata : Fields

namespace Step

def toFields (step : Step) : Fields :=
  [("id", .str step.id), ("action", .str step.action)]
    ++ (step.dependencies.map fun deps => ("dependencies", .list (deps.map .str))).toList
    ++ [("metadata", .dict step.metadata)]

end Step

def stepName (index : ℕ) : String := "step_" ++ toString (index + 1)

/-- `a or b`, for values read from a dictionary. -/
def firstTruthy : Option Value → Option Value → Option Value
  | some value, other => if value.truthy then some value else other
  | none, other => other

def normalizeStep (step : Value) (index : ℕ) : Step :=
  match step with
  | .dict fields =>
      { id := ((Fields.get? fields "id").getD (.str (stepName index))).pyStr
        action := ((firstTruthy (Fields.get? fields "action")
          (firstTruthy (Fields.get? fields "description") none)).getD (.str (stepName index))).pyStr
        dependencies := match Fields.get? fields "dependencies" with
          | some (.list items) => some (items.map Value.pyStr)
          | _ => some []
        metadata := match Fields.get? fields "metadata" with
          | some (.dict metadata) => metadata
          | _ => [] }
  | other =>
      { id := stepName index, action := other.pyStr, dependencies := none, metadata := [] }

/-- The active plan: the dictionary with the keys `steps` and `current_step`. -/
structure StepPlan where
  steps : List Step
  currentStep : ℕ

/-- What a planner returns: a value, or an object with `ordered_tasks`. -/
inductive RawPlan where
  | value (v : Value)
  | orderedTasks (tasks : List Planning.TaskNode)

def taskFields (task : Planning.TaskNode) : Fields :=
  [("id", .str task.id), ("action", .str task.description),
    ("dependencies", .list (task.dependencies.map .str)), ("metadata", .dict task.metadata)]

/-- `_normalize_step_plan`; it raises where `int(current_step)` does. -/
def normalizeStepPlan (rawPlan : RawPlan) (fallback : Option StepPlan) : Option StepPlan :=
  match rawPlan with
  | .value (.dict fields) =>
      match Fields.get? fields "steps" with
      | some (.list items) =>
          let steps := items.mapIdx fun index step => normalizeStep step index
          match ((Fields.get? fields "current_step").getD (.int 0)).pyInt with
          | none => none
          | some current => some { steps, currentStep := min current.toNat steps.length }
      | _ => some { steps := [normalizeStep (.dict fields) 0], currentStep := 0 }
  | .orderedTasks tasks =>
      some { steps := tasks.mapIdx fun index task => normalizeStep (.dict (taskFields task)) index
             currentStep := 0 }
  | .value other =>
      match fallback with
      | some plan =>
          some { steps := plan.steps.mapIdx fun index step => normalizeStep (.dict step.toFields) index
                 currentStep := plan.currentStep }
      | none =>
          some { steps := [normalizeStep (.dict [("id", .str "step_1"), ("action", .str other.pyStr)]) 0]
                 currentStep := 0 }

namespace StepPlan

/-- `_current_step`. -/
def current? (plan : StepPlan) : Option Step := plan.steps[plan.currentStep]?

def allStepsCompleted (plan : StepPlan) : Bool := plan.steps.length ≤ plan.currentStep

/-- `_advance_step`, on the plan. -/
def advance (plan : StepPlan) : StepPlan := { plan with currentStep := plan.currentStep + 1 }

/-- `_replace_current_step`. -/
def replaceCurrent (plan : StepPlan) (repaired : Step) : StepPlan :=
  { plan with
    steps := plan.steps.set plan.currentStep
      (normalizeStep (.dict repaired.toFields) plan.currentStep) }

/-- `_apply_step_adjustment`. -/
def applyAdjustment (plan : StepPlan) (strategyHint : String) : StepPlan :=
  match plan.current? with
  | none => plan
  | some step =>
      if "[adjusted]".toList <:+: step.action.toList then plan
      else
        { plan with
          steps := plan.steps.set plan.currentStep { step with
            action := step.action ++ " [adjusted]"
            metadata := Lib.upsert "strategy_hint" (.str strategyHint) step.metadata } }

def toFields (plan : StepPlan) : Fields :=
  [("steps", .list (plan.steps.map fun step => .dict step.toFields)),
    ("current_step", .int plan.currentStep)]

def completed (plan : StepPlan) : List Step := plan.steps.take plan.currentStep

end StepPlan

end PersonalDevin.Agent
