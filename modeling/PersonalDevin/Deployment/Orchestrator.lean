import PersonalDevin.Deployment.CoreContext
import PersonalDevin.JsonText

/-!
# The deployment plan

`DeploymentOrchestrator.generate_plan`: a step that prepares the environment, one step for each service and
a step that verifies. The plan is a function of the context, and the context does not keep the order in
which services and entries were given, so neither does the plan nor its text.
-/

namespace PersonalDevin.Deployment.Core

open Lib

/-! ### Steps -/

structure DeploymentStep where
  index : ℕ
  stepId : String
  action : String
  target : String
  parameters : Fields
  metadata : Fields
  index_pos : 0 < index
  stepId_ne : stepId ≠ ""
  action_ne : action ≠ ""
  target_ne : target ≠ ""

namespace DeploymentStep

/-- `DeploymentStep(...)`, with the checks of `__post_init__`. -/
def make (index : ℕ) (stepId action target : String) (parameters metadata : Fields) :
    Except ContextError DeploymentStep :=
  if hindex : index ≤ 0 then .error (.valueError "index must be greater than 0")
  else if hstepId : stepId = "" then .error (.valueError "step_id must be provided")
  else if haction : action = "" then .error (.valueError "action must be provided")
  else if htarget : target = "" then .error (.valueError "target must be provided")
  else .ok { index, stepId, action, target
             parameters := canonicalizeEntries parameters
             metadata := canonicalizeEntries metadata
             index_pos := Nat.lt_of_not_le hindex
             stepId_ne := hstepId
             action_ne := haction
             target_ne := htarget }

def toDict (step : DeploymentStep) : Fields :=
  [("index", .int step.index), ("step_id", .str step.stepId), ("action", .str step.action),
    ("target", .str step.target), ("parameters", .dict (canonicalizeEntries step.parameters)),
    ("metadata", .dict (canonicalizeEntries step.metadata))]

theorem exists_make {index : ℕ} {stepId action target : String} (parameters metadata : Fields)
    (hindex : 0 < index) (hstepId : stepId ≠ "") (haction : action ≠ "") (htarget : target ≠ "") :
    ∃ step, make index stepId action target parameters metadata = .ok step
      ∧ step.index = index ∧ step.stepId = stepId ∧ step.action = action ∧ step.target = target
      ∧ step.parameters = canonicalizeEntries parameters
      ∧ step.metadata = canonicalizeEntries metadata := by
  rw [make, dif_neg (Nat.not_le.2 hindex), dif_neg hstepId, dif_neg haction, dif_neg htarget]
  exact ⟨_, rfl, rfl, rfl, rfl, rfl, rfl, rfl⟩

end DeploymentStep

/-! ### Plans -/

structure DeploymentPlan where
  executionId : String
  environment : String
  steps : List DeploymentStep
  metadata : Fields
  steps_ne : steps ≠ []

namespace DeploymentPlan

/-- `DeploymentPlan(...)`, with the checks of `__post_init__`. -/
def make (executionId environment : String) (steps : List DeploymentStep) (metadata : Fields) :
    Except ContextError DeploymentPlan :=
  if executionId = "" then .error (.valueError "execution_id must be provided")
  else if environment = "" then .error (.valueError "environment must be provided")
  else if hsteps : steps = [] then
    .error (.valueError "steps must contain at least one deployment step")
  else .ok { executionId, environment
             steps := steps.insertionSort (·.index ≤ ·.index)
             metadata := canonicalizeEntries metadata
             steps_ne := fun h => hsteps ((List.perm_insertionSort _ _).symm.trans (.of_eq h)).eq_nil }

def toDict (plan : DeploymentPlan) : Fields :=
  [("execution_id", .str plan.executionId), ("environment", .str plan.environment),
    ("steps", .list (plan.steps.map fun step => .dict step.toDict)),
    ("metadata", .dict (canonicalizeEntries plan.metadata))]

/-- `to_json`, or nothing where the writer raises. -/
def toJson (plan : DeploymentPlan) : Option String :=
  (Value.dict plan.toDict).written.map Json.dumpsSpaced

end DeploymentPlan

/-! ### The orchestrator -/

namespace DeploymentOrchestrator

/-- `artifacts.get(key)`, where `None` counts as missing. -/
def artifactPayload (artifacts : Fields) (key : String) : Option Value :=
  match artifacts.get? key with
  | some .none => none
  | payload => payload

def unmappedArtifact (service : String) : Value :=
  .dict [("reference", .str "unmapped-artifact"),
    ("reason", .str ("No artifact mapping found for service '" ++ service ++ "'"))]

/-- The last lines of `_resolve_artifact_for_service`. -/
def describeArtifact : Value → Fields
  | .dict entries => entries
  | payload => [("reference", .str payload.pyStr)]

def resolveArtifactForService (context : DeploymentContext) (service : String) : Fields :=
  describeArtifact
    ((artifactPayload context.artifacts service).getD
      ((artifactPayload context.artifacts "default").getD (unmappedArtifact service)))

def serviceValues (context : DeploymentContext) : Value :=
  .list (context.services.map fun service => .str service.val)

def prepareParameters (context : DeploymentContext) : Fields :=
  [("environment", .str context.environment), ("services", serviceValues context),
    ("global_config", .dict context.config)]

def deployParameters (context : DeploymentContext) (service : String) : Fields :=
  [("environment", .str context.environment),
    ("artifact", .dict (resolveArtifactForService context service)),
    ("service_config", (context.config.get? service).getD (.dict []))]

def verifyParameters (context : DeploymentContext) : Fields :=
  [("services", serviceValues context),
    ("checks", .list [.str "artifact_presence", .str "service_plan_coverage"])]

/-- The loop over the services, which counts from `offset`. -/
def deploySteps (context : DeploymentContext) :
    ℕ → List ServiceName → Except ContextError (List DeploymentStep)
  | _, [] => .ok []
  | offset, service :: rest => do
      let step ← DeploymentStep.make offset ("step-" ++ zeroPad 3 offset ++ "-deploy-" ++ service.val)
        "deploy_service" service (deployParameters context service)
        [("simulation", .bool true), ("deployment_type", .str "rolling")]
      let steps ← deploySteps context (offset + 1) rest
      return step :: steps

def buildSteps (context : DeploymentContext) : Except ContextError (List DeploymentStep) := do
  let prepare ← DeploymentStep.make 1 "step-001-prepare-environment" "prepare_environment"
    context.environment (prepareParameters context) [("simulation", .bool true)]
  let deploys ← deploySteps context 2 context.services
  let finalizeIndex := (prepare :: deploys).length + 1
  let verify ← DeploymentStep.make finalizeIndex
    ("step-" ++ zeroPad 3 finalizeIndex ++ "-verify-deployment") "verify_deployment"
    context.environment (verifyParameters context) [("simulation", .bool true)]
  return prepare :: deploys ++ [verify]

def planMetadata (context : DeploymentContext) : Fields :=
  [("mode", .str "simulation"), ("service_count", .int context.services.length),
    ("artifact_count", .int context.artifacts.length),
    ("source", .str "execution_output_translation"), ("context_metadata", .dict context.metadata)]

def generatePlan (context : DeploymentContext) : Except ContextError DeploymentPlan := do
  let steps ← buildSteps context
  DeploymentPlan.make context.executionId context.environment steps (planMetadata context)

end DeploymentOrchestrator

end PersonalDevin.Deployment.Core
