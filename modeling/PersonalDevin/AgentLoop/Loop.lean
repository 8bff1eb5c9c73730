import PersonalDevin.Execution.Runner
import PersonalDevin.Lib.Faults
import PersonalDevin.Memory.Sequential
import PersonalDevin.Text

/-!
# The agent loop

`AgentLoop.run` from its validation on: planning and execution write nothing to memory, so the plan and
the report are given. The evaluator, the feedback engine, the adaptation engine and the pipeline of the
self-improvement engine are collaborators of which the loop only sees what they return. A write of the
memory fails by a pattern over the writes that were attempted, and then it has no effect. The two clocks
show a time for each number of records in the store. States and log entries of the loop are left out.
-/

namespace PersonalDevin.Loop

open Lib
open Execution (ExecutionReport ExecutionTask)
open Memory (ExecutionArgs MemoryType ServiceCall Streams Timestamp)

/-! ### Failures -/

inductive Raised where
  | osError
  | timeoutError
  | connectionError
  | valueError
  | assertionError
  | other
  deriving DecidableEq

inductive FailureType where
  | transient
  | logic
  | validation
  deriving DecidableEq

def classifyFailure : Raised → FailureType
  | .timeoutError => .transient
  | .connectionError => .transient
  | .osError => .transient
  | .valueError => .validation
  | .assertionError => .validation
  | .other => .logic

/-- A failure that is tried again while the attempts last. -/
def isTransient (error : Raised) : Bool := classifyFailure error = .transient

/-- What a faulty write raises. -/
inductive Fault where
  | osError
  | timeoutError
  deriving DecidableEq

def Fault.raised : Fault → Raised
  | osError => .osError
  | timeoutError => .timeoutError

/-! ### What the steps hand on -/

/-- SUCCESS, PARTIAL and FAILURE. -/
inductive RunStatus where
  | success
  | someFailed
  | failure
  deriving DecidableEq

def RunStatus.text : RunStatus → String
  | success => "success"
  | someFailed => "partial"
  | failure => "failure"

structure EvaluationInput where
  taskId : String
  expectedOutput : String
  actualOutput : String
  metadata : Fields

structure EvaluationResult where
  taskId : String
  success : Bool
  score : Value
  feedback : String
  metrics : Fields

/-- What the feedback engine makes of an evaluation; its signal carries the time besides. -/
structure Feedback where
  executionId : String
  score : Value
  success : Bool
  failureType : Option String
  improvementSuggestions : List String
  confidence : Value

structure FeedbackSignal (T : Type) extends Feedback where
  timestamp : T

structure RuntimeAdaptation where
  id : String
  type : String
  source : String
  confidence : Value
  payload : Fields

structure ReflectionResult where
  failedTasks : List String
  successRate : Value
  notes : String

structure Improvement where
  fields : Fields

structure AgentLoop (T : Type) where
  maxAttempts : ℕ
  /-- `datetime.now(UTC)` and `now_fn`, for a number of stored records. -/
  wallClock : ℕ → T
  now : ℕ → T
  /-- The digest in `deterministic_iteration_id`. -/
  digest : String → String
  /-- The quotient of two integers, as a float. -/
  quotient : ℕ → ℕ → Value
  evaluate : EvaluationInput → EvaluationResult
  generateFeedback : ExecutionReport → EvaluationResult → Feedback
  processFeedback : Feedback → List RuntimeAdaptation
  /-- The number of valid adaptations, and what they change, or nothing where a policy raises. -/
  applyInjected : List RuntimeAdaptation → Option (ℕ × Fields)
  /-- What the self-improvement engine approves when it has read the store. -/
  approve : Streams → Except Raised (List Improvement)

/-- What one run is given: its goal, the adaptations injected into it, its plan and its report. -/
structure RunInput where
  goal : String
  injected : List RuntimeAdaptation
  plan : Planning.ExecutionPlan
  report : ExecutionReport

/-- The memory in front of its faults. -/
abbrev World := Attempted Streams

/-- How many records the store holds. -/
def stored (streams : Streams) : ℕ := (MemoryType.all.map fun type => (streams type).length).sum

section Loop

variable {T : Type} [Timestamp T] (loop : AgentLoop T)

/-- A call of the memory service that meets no fault. Where it raises, it raises nothing transient. -/
def performCall (call : ServiceCall T) (streams : Streams) : Except Raised Streams :=
  match Memory.perform (loop.wallClock (stored streams)) call streams with
  | some (_, streams') => .ok streams'
  | none => .error .other

variable (fails : ℕ → Option Fault)

/-- The exceptions of the pattern. -/
def raisedBy (attempts : ℕ) : Option Raised := (fails attempts).map Fault.raised

/-- `_run_step_with_retry`: another attempt is made while the number of attempts is below the limit. -/
def runStepWithRetry {α : Type} (operation : EStateM Raised World α) : EStateM Raised World α :=
  retry isTransient operation (loop.maxAttempts - 1)

/-- `deterministic_iteration_id`, of a goal without surrounding white space. -/
def iterationId (goal : String) : String := "iter-" ++ loop.digest goal

/-! ### Validation -/

def classify (report : ExecutionReport) : RunStatus :=
  if report.totalTasks = 0 then .success
  else if report.failedTasks = 0 ∧ report.skippedTasks = 0 then .success
  else if report.completedTasks = 0 then .failure
  else .someFailed

def evaluationActualOutput (report : ExecutionReport) : String :=
  if report.failedTasks = 0 ∧ report.skippedTasks = 0 then "completed"
  else if classify report = .someFailed then "completed_with_failures"
  else "failed"

def countFields (report : ExecutionReport) : Fields :=
  [("total_tasks", .int report.totalTasks), ("completed_tasks", .int report.completedTasks),
    ("failed_tasks", .int report.failedTasks), ("skipped_tasks", .int report.skippedTasks)]

/-- `_evaluate`. -/
def evaluation (goal : String) (modifiers : Fields) (report : ExecutionReport) : EvaluationResult :=
  let result := loop.evaluate {
    taskId := iterationId loop goal
    expectedOutput := "completed"
    actualOutput := evaluationActualOutput report
    metadata := ("status", .str (classify report).text) :: countFields report }
  if modifiers = [] then result
  else { result with metrics := upsert "applied_modifiers" (.dict modifiers) result.metrics }

def textItems (texts : List String) : Value := .list (texts.map .str)

/-- `_serialize_runtime_adaptations`. -/
def serializeAdaptation (adaptation : RuntimeAdaptation) : Value :=
  .dict [("id", .str adaptation.id), ("type", .str adaptation.type),
    ("source", .str adaptation.source), ("confidence", adaptation.confidence),
    ("payload", .dict adaptation.payload)]

def signalFields (signal : FeedbackSignal T) : Fields :=
  [("execution_id", .str signal.executionId), ("score", signal.score),
    ("success", .bool signal.success), ("failure_type", Memory.optionalStr signal.failureType),
    ("improvement_suggestions", textItems signal.improvementSuggestions),
    ("confidence", signal.confidence),
    ("timestamp", .str (Timestamp.isoformat signal.timestamp))]

/-- The failure of a signal, if it is one that `_route_feedback_to_adaptation_inputs` logs. -/
def feedbackFailure (feedback : Feedback) : Option String :=
  if feedback.success then none else feedback.failureType.filter (· ≠ "")

/-- The writes of `_route_feedback_to_adaptation_inputs`. -/
def feedbackCalls (signal : FeedbackSignal T) : List (ServiceCall T) :=
  .logDecision "feedback_signal" "evaluation_to_feedback_mapping"
      (some (signalFields signal ++ [("adaptation_candidates",
        .list ((loop.processFeedback signal.toFeedback).map serializeAdaptation))]))
    :: ((feedbackFailure signal.toFeedback).map fun failureType =>
      .logFailure "feedback_engine" failureType (some [("execution_id", .str signal.executionId),
        ("score", signal.score),
        ("suggestions", textItems signal.improvementSuggestions)])).toList

/-- The signal of a validation at this moment. -/
def signalAt (feedback : Feedback) (streams : Streams) : FeedbackSignal T :=
  { feedback with timestamp := loop.now (stored streams) }

def runFeedback (goal : String) (modifiers : Fields) (report : ExecutionReport) : Feedback :=
  loop.generateFeedback report (evaluation loop goal modifiers report)

def validate (goal : String) (modifiers : Fields) (report : ExecutionReport) :
    EStateM Raised World (FeedbackSignal T) :=
  batchStep (raisedBy fails) (performCall loop)
    (fun streams => feedbackCalls loop (signalAt loop (runFeedback loop goal modifiers report) streams))
    (signalAt loop (runFeedback loop goal modifiers report))

/-! ### Reflection -/

def taskFailed (task : ExecutionTask) : Bool := task.status = .failed || task.status = .skipped

/-- `_reflect`. -/
def reflection (report : ExecutionReport) : ReflectionResult :=
  let failedTasks := (report.tasks.filter taskFailed).map ExecutionTask.id
  { failedTasks
    successRate :=
      if 0 < report.totalTasks then loop.quotient report.completedTasks report.totalTasks
      else .float 1 0
    notes :=
      if failedTasks = [] then "All tasks succeeded"
      else if 0 < report.completedTasks then "Partial failure detected"
      else "Execution failed" }

/-- `a or b`, of optional texts. -/
def orText (a b : Option String) : Option String := (a.filter (· ≠ "")).orElse fun _ => b.filter (· ≠ "")

/-- `task.error or task.skip_reason`. -/
def taskError (task : ExecutionTask) : Option String := orText task.error task.skipReason

def taskErrors (report : ExecutionReport) : List String :=
  (report.tasks.filter taskFailed).filterMap taskError

def planFields (plan : Planning.ExecutionPlan) : Fields :=
  [("task_ids", textItems (plan.orderedTasks.map Planning.TaskNode.id)),
    ("total_tasks", .int plan.orderedTasks.length)]

def evaluationFields (evaluation : EvaluationResult) : Fields :=
  [("task_id", .str evaluation.taskId), ("success", .bool evaluation.success),
    ("score", evaluation.score), ("feedback", .str evaluation.feedback),
    ("metrics", .dict evaluation.metrics)]

def reflectionFields (reflection : ReflectionResult) : Fields :=
  [("failed_tasks", textItems reflection.failedTasks), ("success_rate", reflection.successRate),
    ("notes", .str reflection.notes)]

/-- The arguments of the call of `record_execution`. No plan of the planner has adaptations, so none was
resolved. -/
def executionArgs (goal : String) (modifiers : Fields) (plan : Planning.ExecutionPlan)
    (report : ExecutionReport) (signal : FeedbackSignal T) (time : T) : ExecutionArgs T where
  taskId := iterationId loop goal
  input := some [("goal", .str goal)]
  plan := some (planFields plan)
  result := some (("status", .str (classify report).text) :: countFields report)
  success := classify report = .success
  errors := some ((taskErrors report).map .str)
  metadata := some [("source", .str "agent_loop"), ("resolved_adaptations", .int 0),
    ("applied_modifiers", .dict modifiers), ("feedback", .dict (signalFields signal)),
    ("evaluation", .dict (evaluationFields (evaluation loop goal modifiers report)))]
  timestamp := time

def executionLogCall (goal : String) (modifiers : Fields) (plan : Planning.ExecutionPlan)
    (report : ExecutionReport) : ServiceCall T :=
  .logExecution (classify report).text report.totalTasks report.completedTasks report.failedTasks
    report.skippedTasks (some [("goal", .str goal), ("plan", .dict (planFields plan)),
      ("resolved_adaptations", .int 0), ("applied_modifiers", .dict modifiers),
      ("reflection", .dict (reflectionFields (reflection loop report)))])

/-- The writes about one task. -/
def taskCalls (goal : String) (task : ExecutionTask) : List (ServiceCall T) :=
  .logTask task.id task.status.text task.output task.error task.skipReason
    :: if taskFailed task then
        [.logFailure "agent_loop" ((taskError task).getD "unknown") (some [("goal", .str goal),
          ("task_id", .str task.id), ("status", .str task.status.text)])]
      else []

def decisionCall (goal : String) (modifiers : Fields) (report : ExecutionReport) : ServiceCall T :=
  .logDecision (classify report).text (reflection loop report).notes (some [("goal", .str goal),
    ("failed_tasks", textItems (reflection loop report).failedTasks),
    ("success_rate", (reflection loop report).successRate), ("applied_modifiers", .dict modifiers)])

/-- The writes of `_persist`. -/
def persistCalls (goal : String) (modifiers : Fields) (plan : Planning.ExecutionPlan)
    (report : ExecutionReport) (signal : FeedbackSignal T) (time : T) : List (ServiceCall T) :=
  [.recordExecution (executionArgs loop goal modifiers plan report signal time),
      executionLogCall loop goal modifiers plan report]
    ++ report.tasks.flatMap (taskCalls goal) ++ [decisionCall loop goal modifiers report]

def improvementCall (action : Improvement) : ServiceCall T :=
  .logDecision "improvement_action" "approved by self-improvement policy"
    (some [("improvement", .dict action.fields)])

/-- `_run_self_improvement`: a transient failure of the engine is dropped, and the engine itself drops
whatever its writes raise. -/
def runSelfImprovement : EStateM Raised World PUnit := fun s =>
  match loop.approve s.content with
  | .error error => if isTransient error then .ok ⟨⟩ s else .error error s
  | .ok approved =>
      match writeAll (raisedBy fails) (performCall loop) (approved.map improvementCall) s with
      | .ok _ s' => .ok ⟨⟩ s'
      | .error _ s' => .ok ⟨⟩ s'

def reflectStep (goal : String) (modifiers : Fields) (plan : Planning.ExecutionPlan)
    (report : ExecutionReport) (signal : FeedbackSignal T) :
    EStateM Raised World ReflectionResult := do
  let reflection ← batchStep (raisedBy fails) (performCall loop)
    (fun streams => persistCalls loop goal modifiers plan report signal (loop.now (stored streams)))
    (fun _ => reflection loop report)
  runSelfImprovement loop fails
  return reflection

/-! ### The run -/

structure AgentResult (T : Type) where
  goal : String
  status : RunStatus
  plan : Planning.ExecutionPlan
  execution : ExecutionReport
  reflection : ReflectionResult
  evaluation : EvaluationResult
  feedback : FeedbackSignal T
  adaptation : List RuntimeAdaptation
  appliedModifiers : Fields

/-- `_apply_injected_adaptations` raises, which it does ahead of its write. -/
def raisesOnInjected (injected : List RuntimeAdaptation) : Bool :=
  !injected.isEmpty && (loop.applyInjected injected).isNone

/-- The number of valid adaptations and what they change, where it does not raise. -/
def applied (injected : List RuntimeAdaptation) : ℕ × Fields :=
  (loop.applyInjected injected).getD (0, [])

/-- The write of `_apply_injected_adaptations`. -/
def injectedCalls (goal : String) (injected : List RuntimeAdaptation) : List (ServiceCall T) :=
  if injected.isEmpty then []
  else
    [.logDecision "injected_adaptation_applied" "manual_closed_loop_test"
      (some [("execution_id", .str (iterationId loop goal)),
        ("injected_count", .int injected.length),
        ("valid_count", .int (applied loop injected).1),
        ("applied_modifiers", .dict (applied loop injected).2)])]

def appliedModifiers (injected : List RuntimeAdaptation) : Fields :=
  if injected.isEmpty then [] else (applied loop injected).2

/-- `run`, for a goal without surrounding white space and adaptations that no policy raises on. -/
def runGoal (goal : String) (input : RunInput) : EStateM Raised World (AgentResult T) := do
  let modifiers := appliedModifiers loop input.injected
  writeAll (raisedBy fails) (performCall loop) (injectedCalls loop goal input.injected)
  let signal ← runStepWithRetry loop (validate loop fails goal modifiers input.report)
  let reflection ← runStepWithRetry loop
    (reflectStep loop fails goal modifiers input.plan input.report signal)
  return {
    goal
    status := classify input.report
    plan := input.plan
    execution := input.report
    reflection
    evaluation := evaluation loop goal modifiers input.report
    feedback := signal
    adaptation := loop.processFeedback signal.toFeedback
    appliedModifiers := modifiers }

def run (input : RunInput) : EStateM Raised World (AgentResult T) :=
  if strip input.goal = "" then throw .valueError
  else if raisesOnInjected loop input.injected then throw .other
  else runGoal loop fails (strip input.goal) input

end Loop

end PersonalDevin.Loop
