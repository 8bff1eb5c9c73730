import PersonalDevin.Lib.Loop
import PersonalDevin.Agent.Steps
import PersonalDevin.Agent.Strategy

/-!
# The loop controller

`LoopController.run` with self-improvement disabled. Planner, executor and memory are functions of a
world that they may change, so any stateful implementation is one. They neither raise nor change what
they are given. The keys `history` and `step_history` of the state, which the loop only appends to, and
the copy of the statistics in a record are left out; the log events of the source are replaced by
events that carry what the properties of a run speak about. What can raise in a log call is the snapshot
of the state, which takes the length of what the memory calls recent. The interpreter's limits, on
recursion and on the digits of an integer that is printed, are left out.
-/

namespace PersonalDevin.Agent

open Lib

structure Config where
  maxIterations : ℤ
  failureThreshold : ℤ
  stepFailureThreshold : ℤ

structure Classification where
  success : Bool
  errorType : String
  retryable : Bool
  reason : String

def classifyResult (result : Fields) : Classification :=
  let success := ((result.get? "success").getD (.bool false)).truthy
  let errorType :=
    ((result.get? "error_type").getD (.str (if success then "none" else "runtime_error"))).pyStr
  { success
    errorType
    retryable :=
      ((result.get? "retryable").getD (.bool (!success && errorType = "runtime_error"))).truthy
    reason := ((firstTruthy (result.get? "error") (firstTruthy (result.get? "status") none)).getD
      (.str (if success then "success" else errorType))).pyStr }

/-- The dictionary `state` of a run. -/
structure LoopState where
  goal : String
  memoryContext : Fields
  activePlan : Option StepPlan
  currentStepFailures : Dict String ℕ
  attemptCount : ℕ
  lastFailureReason : Option String
  lastErrorType : Option String
  lastRetryable : Option Bool
  lastDecision : Option Decision
  strategyHint : String

def LoopState.initial (goal : String) (context : Fields) : LoopState where
  goal := goal
  memoryContext := context
  activePlan := none
  currentStepFailures := .empty
  attemptCount := 0
  lastFailureReason := none
  lastErrorType := none
  lastRetryable := none
  lastDecision := none
  strategyHint := "none"

/-- `state["attempt_count"] = iteration`. -/
def LoopState.attempt (state : LoopState) (iteration : ℕ) : LoopState :=
  { state with attemptCount := iteration }

/-- `state["active_plan"] = plan`. -/
def LoopState.install (state : LoopState) (plan : StepPlan) : LoopState :=
  { state with activePlan := some plan }

structure LoopRecord where
  iterationId : String
  timestamp : String
  goal : String
  plan : StepPlan
  currentStep : Step
  result : Fields
  classification : Classification
  success : Bool
  decision : Decision
  strategyPattern : String
  strategyHint : String
  repairApplied : Bool
  originalStep : Option Step
  repairedStep : Option Step

/-- What `memory.retrieve` comes to; `missing` stands for a memory without the method. -/
inductive Retrieved where
  | missing
  | raised
  | returned (context : Value)

structure Env (σ : Type) where
  createPlan : σ → LoopState → Fields → RawPlan × σ
  /-- Absent for a planner without `repair_step`. -/
  repairStep : Option (σ → Step → LoopState → Fields → Value × σ)
  execute : σ → Step → Fields × σ
  save : σ → LoopRecord → σ
  retrieve : σ → String → Retrieved × σ
  /-- `get_recent(20)` of the `MemoryStore` the memory holds, if it holds one. -/
  store : σ → Option (List Fields)
  clock : σ → String

/-! ### The pieces of an iteration -/

def emptyContext (goal : String) : Fields :=
  [("goal", .str goal), ("recent", .list []), ("recent_failures", .list []), ("attempt_count", .int 0)]

def storeContext (goal : String) (recent : List Fields) : Fields :=
  let failed (item : Fields) : Bool := !((item.get? "success").getD (.bool false)).truthy
  [("goal", .str goal),
    ("recent", .list (recent.map fun item => .dict (Value.safeEntries item))),
    ("recent_failures",
      .list ((recent.filter failed).map fun item => .dict (Value.safeEntries item))),
    ("attempt_count", .int recent.length)]

def retrieveContext {σ : Type} (env : Env σ) (world : σ) (goal : String) : Fields × σ :=
  let (retrieved, world) := env.retrieve world goal
  match retrieved with
  | .returned (.dict context) => (Value.safeEntries context, world)
  | .raised => (emptyContext goal, world)
  | _ =>
      match env.store world with
      | some recent => (storeContext goal recent, world)
      | none => (emptyContext goal, world)

/-- `_ensure_step_plan`: the plan, whether it was created now, and the world. -/
def ensureStepPlan {σ : Type} (env : Env σ) (world : σ) (state : LoopState) :
    Option (Bool × StepPlan × σ) :=
  let create (fallback : Option StepPlan) : Option (Bool × StepPlan × σ) :=
    let (rawPlan, world) := env.createPlan world state state.memoryContext
    (normalizeStepPlan rawPlan fallback).map fun plan => (true, plan, world)
  match state.activePlan with
  | some active =>
      if state.lastDecision = some .adjustPlan then create (some active)
      else some (false, active, world)
  | none => create none

def LoopState.incrementStepFailure (state : LoopState) (step : Step) : LoopState :=
  { state with
    currentStepFailures :=
      state.currentStepFailures.set step.id (state.currentStepFailures.getD step.id 0 + 1) }

/-- `_decide_next_step`, of a failed step that is the current one. -/
def decideNextStep {F : Type} [ScoreArith F] (config : Config) (strategies : Strategies F)
    (state : LoopState) (step : Step) (classification : Classification) : Decision :=
  if classification.errorType ∈ ["policy_violation", "security_violation"] then .escalate
  else if config.stepFailureThreshold ≤ state.currentStepFailures.getD step.id 0 then .repairStep
  else
    selectBestDecision strategies config.failureThreshold state.attemptCount state.memoryContext
      classification.errorType classification.retryable

def buildStrategyHint (decision : Decision) (pattern : String) : String :=
  match decision with
  | .adjustPlan => "avoid_previous_plan_pattern:" ++ pattern
  | .repairStep => "repair_current_step:" ++ pattern
  | .advanceStep => "advance_to_next_step"
  | .retrySame => "retry_with_same_plan:" ++ pattern
  | .escalate => "escalate_issue:" ++ pattern
  | .abort => "finalize_goal"

def normalizeRepairCandidate (candidate : Value) (currentIndex : ℕ) (fallbackStep : Step) :
    Option Step :=
  match candidate with
  | .dict fields =>
      match Fields.get? fields "steps" with
      | some (.list _) =>
          (normalizeStepPlan (.value candidate) none).map fun plan =>
            plan.steps[currentIndex]?.getD (normalizeStep candidate currentIndex)
      | _ => some (normalizeStep candidate currentIndex)
  | .none => some (normalizeStep (.dict fallbackStep.toFields) currentIndex)
  | other => some (normalizeStep (.dict [("action", .str other.pyStr)]) currentIndex)

def repairStep {σ : Type} (env : Env σ) (world : σ) (state : LoopState) (plan : StepPlan)
    (step : Step) : Option (Step × σ) :=
  let baseStep := normalizeStep (.dict step.toFields) plan.currentStep
  match env.repairStep with
  | some plannerRepair =>
      let (candidate, world) := plannerRepair world baseStep state state.memoryContext
      (normalizeRepairCandidate candidate plan.currentStep baseStep).map fun step => (step, world)
  | none =>
      let (fallbackPlan, world) := env.createPlan world state state.memoryContext
      (normalizeStepPlan fallbackPlan (some plan)).map fun fallback =>
        (fallback.current?.getD (normalizeStep (.dict baseStep.toFields) plan.currentStep), world)

/-- The repair of an iteration: the plan after it, and the repaired step if there was one. -/
def repairPlan {σ : Type} (env : Env σ) (world : σ) (state : LoopState) (plan : StepPlan)
    (step : Step) (decision : Decision) : Option (StepPlan × Option Step × σ) :=
  if decision = .repairStep then
    (repairStep env world state plan step).map fun (repaired, world) =>
      (plan.replaceCurrent repaired, (plan.replaceCurrent repaired).current?, world)
  else some (plan, none, world)

/-! ### The loop -/

inductive RunStatus where
  | success
  | failed
  | stopped
  deriving DecidableEq

/-- The dictionary `run` returns. -/
structure RunResult where
  status : RunStatus
  iterations : ℕ
  reason : Option String
  errorType : Option String
  result : Option Fields

/-- How a run ends, with the active plan it ends on. -/
inductive Finish where
  | returned (result : RunResult) (plan : Option StepPlan)
  | raised

/-- What happens in an iteration, in this order. -/
inductive Event (F : Type) where
  | started (state : LoopState) (strategies : Strategies F)
  | planned (fresh : Bool) (plan : StepPlan)
  | executed (position : ℕ) (step : Step) (result : Fields)
  | decided (decision : Decision)
  | saved (record : LoopRecord) (strategies : Strategies F)

structure LoopHead (σ F : Type) where
  world : σ
  state : LoopState
  strategies : Strategies F
  iteration : ℕ
  failures : ℕ

section Loop

variable {σ F : Type} [ScoreArith F]

def LoopHead.refresh (head : LoopHead σ F) (env : Env σ) : LoopHead σ F :=
  let (context, world) := retrieveContext env head.world head.state.goal
  { head with world, state := { head.state with memoryContext := context } }

/-- The variables when the executor has returned. -/
def LoopHead.called (head : LoopHead σ F) (world : σ) (state : LoopState) : LoopHead σ F :=
  { head with world, state, iteration := head.iteration + 1 }

/-- The variables when the record is saved. -/
def LoopHead.persisted (head : LoopHead σ F) (world : σ) (state : LoopState)
    (strategies : Strategies F) : LoopHead σ F :=
  { head with world, state, strategies }

def failedResult (iterations : ℕ) (reason : String) (errorType : Option String) : RunResult where
  status := .failed
  iterations := iterations
  reason := some reason
  errorType := errorType
  result := none

/-- The end of an iteration, after its record was saved. -/
def conclude (env : Env σ) (config : Config) (head : LoopHead σ F) (plan : StepPlan)
    (classification : Classification) (decision : Decision) (result : Fields) :
    Round (LoopHead σ F) Finish :=
  if classification.success then
    if plan.allStepsCompleted then
      .stop (.returned
        { status := .success, iterations := head.iteration, reason := none, errorType := none
          result := some (upsert "steps_completed" (.int plan.steps.length) result) } (some plan))
    else .next (head.refresh env)
  else
    let failures := head.failures + 1
    if decision = .escalate then
      .stop (.returned (failedResult head.iteration "escalated" (some classification.errorType))
        (some plan))
    else if decision = .abort then
      .stop (.returned (failedResult head.iteration "abort" (some classification.errorType))
        (some plan))
    else
      let plan :=
        if decision = .adjustPlan then plan.applyAdjustment head.state.strategyHint else plan
      if config.failureThreshold ≤ failures then
        .stop (.returned (failedResult head.iteration "failure_threshold" none) (some plan))
      else
        .next (LoopHead.refresh { head with failures, state := head.state.install plan } env)

/-- The state after a result was classified. -/
def LoopState.evaluated (state : LoopState) (classification : Classification) : LoopState :=
  { state with
    lastFailureReason := some classification.reason
    lastErrorType := some classification.errorType
    lastRetryable := some classification.retryable }

def LoopState.decide (state : LoopState) (decision : Decision) (pattern : String) : LoopState :=
  { state with
    lastDecision := some decision
    strategyHint := buildStrategyHint decision pattern }

structure Judged where
  decision : Decision
  plan : StepPlan
  state : LoopState

/-- Advance the plan after a success, decide what to do after a failure. -/
def judge (config : Config) (strategies : Strategies F) (state : LoopState) (plan : StepPlan)
    (step : Step) (classification : Classification) : Judged :=
  if classification.success then
    { decision := .advanceStep
      plan := plan.advance
      state := (state.install plan.advance).decide .advanceStep classification.errorType }
  else
    let state := state.incrementStepFailure step
    let decision := decideNextStep config strategies state step classification
    { decision, plan, state := state.decide decision classification.errorType }

/-- The record of an iteration, with the plan and the repaired step as the repair has left them. -/
def iterationRecord (iteration : ℕ) (timestamp : String) (judged : Judged) (plan : StepPlan)
    (repairedStep : Option Step) (step : Step) (result : Fields) : LoopRecord where
  iterationId := "iter-" ++ zeroPad 4 iteration
  timestamp := timestamp
  goal := judged.state.goal
  plan := plan
  currentStep := step
  result := result
  classification := classifyResult result
  success := (classifyResult result).success
  decision := judged.decision
  strategyPattern := (classifyResult result).errorType
  strategyHint := judged.state.strategyHint
  repairApplied := judged.decision = .repairStep
  originalStep := if judged.decision = .repairStep then some step else none
  repairedStep := repairedStep

/-- An iteration from the executor's result on: evaluate, decide, repair, learn, persist, conclude. -/
def afterCall (env : Env σ) (config : Config) (head : LoopHead σ F) (plan : StepPlan) (step : Step)
    (result : Fields) : List (Event F) × Round (LoopHead σ F) Finish :=
  let classification := classifyResult result
  let judged := judge config head.strategies (head.state.evaluated classification) plan step
    classification
  match repairPlan env head.world judged.state judged.plan step judged.decision with
  | none => ([.decided judged.decision], .stop .raised)
  | some (plan, repairedStep, world) =>
      let strategies :=
        head.strategies.update classification.errorType judged.decision classification.success
      let record := iterationRecord head.iteration (env.clock world) judged plan repairedStep step result
      let head := head.persisted (env.save world record) (judged.state.install plan) strategies
      ([.decided judged.decision, .saved record strategies],
        conclude env config head plan classification judged.decision result)

/-- `len(memory_context.get("recent", []))` in `_state_snapshot`, or nothing where it raises. -/
def memoryContextSize (context : Fields) : Option ℕ :=
  match context.get? "recent" with
  | none => some 0
  | some (.list items) => some items.length
  | some (.tuple items) => some items.length
  | some (.dict entries) => some entries.length
  | some (.str text) => some text.length
  | some _ => none

/-- An iteration from the planning on. -/
def afterSnapshot (env : Env σ) (config : Config) (head : LoopHead σ F) :
    List (Event F) × Round (LoopHead σ F) Finish :=
  let state := head.state.attempt (head.iteration + 1)
  let start := Event.started state head.strategies
  match ensureStepPlan env head.world state with
  | none => ([start], .stop .raised)
  | some (fresh, plan, world) =>
      match plan.current? with
      | none =>
          ([start, .planned fresh plan], .stop (.returned
            { status := .success, iterations := head.iteration, reason := none, errorType := none
              result := some [("success", .bool true),
                ("steps_completed", .int plan.steps.length)] } (some plan)))
      | some step =>
          let called := env.execute world step
          let after := afterCall env config (head.called called.2 (state.install plan)) plan step
            called.1
          ([start, .planned fresh plan, .executed plan.currentStep step called.1] ++ after.1, after.2)

/-- One round of the `while` loop, which starts with a log call. -/
def iterate (env : Env σ) (config : Config) (head : LoopHead σ F) :
    List (Event F) × Round (LoopHead σ F) Finish :=
  if head.iteration < config.maxIterations then
    match memoryContextSize head.state.memoryContext with
    | none => ([], .stop .raised)
    | some _ => afterSnapshot env config head
  else
    ([], .stop (.returned
      { status := .stopped, iterations := head.iteration, reason := some "max_iterations"
        errorType := none, result := none } head.state.activePlan))

def LoopHead.initial (env : Env σ) (strategies : Strategies F) (world : σ) (goal : String) :
    LoopHead σ F :=
  let (context, world) := retrieveContext env world goal
  { world
    state := .initial goal context
    strategies := strategies.merge (buildStrategyStats context)
    iteration := 0
    failures := 0 }

/-- `LoopController.run`: its events, and how it ended. -/
def run (env : Env σ) (config : Config) (strategies : Strategies F) (world : σ) (goal : String) :
    List (Event F) × Option Finish :=
  runLoop (iterate env config) (config.maxIterations.toNat + 1)
    (LoopHead.initial env strategies world goal)

end Loop

end PersonalDevin.Agent
