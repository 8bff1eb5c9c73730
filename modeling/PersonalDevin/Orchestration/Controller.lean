import PersonalDevin.Execution.Runner
import PersonalDevin.Memory.Service
import PersonalDevin.Orchestration.Recovery
import PersonalDevin.Orchestration.State

/-!
# The orchestration controller

`OrchestrationController.run` with its five phases. The engines, the memory service and the improvement
runner act on a world of their own; each of their calls may change it, and may return anything or raise.
What the code reads from a returned value is given by what the read yields. The report of the execution
engine is an object that others may hold as well: its attributes are read in the world as it is at the
time, and each read may raise. Its counts are integers, its status is one of `ExecutionStatus`, and the
loop over its tasks takes them as they are when it starts. The events are kept beside the code's own
data: when an operation is called, and when its phase has completed. Clocks, durations and log lines are
left out.
-/

namespace PersonalDevin.Orchestration

open Lib
open Execution (ExecutionStatus ExecutionTask)
open Memory (ServiceCall)

/-! ### Collaborators -/

/-- What reading an attribute of a value yields. -/
abbrev Attribute (α : Type) := Except Raised α

/-- What iterating over a value yields: its items, and the exception that breaks the iteration off. -/
structure Iteration (α : Type) where
  items : List α
  broken : Option Raised

/-- What reading the attributes of an execution report yields in a world. -/
structure Reports (σ R : Type) where
  status : R → σ → Attribute ExecutionStatus
  tasks : R → σ → Attribute (List ExecutionTask)
  totalTasks : R → σ → Attribute ℤ
  completedTasks : R → σ → Attribute ℤ
  failedTasks : R → σ → Attribute ℤ
  skippedTasks : R → σ → Attribute ℤ

/-- What an improvement runner returns. -/
structure AdaptationResult (A : Type) where
  adaptationsApproved : Attribute A

/-- The memory service: a call that writes gives something whose `id` is read, `get_recent` something
whose length is read, `store_improvements` something over whose ids the controller iterates. -/
structure MemoryService (σ T A : Type) where
  write : ServiceCall T → EStateM Raised σ (Attribute Value)
  getRecent : ℤ → EStateM Raised σ (Attribute ℕ)
  storeImprovements : A → EStateM Raised σ (Iteration Value)

structure OrchestrationRequest (H : Type) where
  runId : String
  goal : String
  tasks : List Fields
  handlers : H
  runIdNonEmpty : runId ≠ ""
  goalNonEmpty : goal ≠ ""

/-- The controller with its collaborators, for what its execution engine returns as a report. -/
structure OrchestrationController (σ T P H R A : Type) where
  planningEngine : List Fields → EStateM Raised σ (Option P)
  executionEngine : P → H → Bool → EStateM Raised σ (Option R)
  reports : Reports σ R
  memoryService : MemoryService σ T A
  selfImprovementRunner : EStateM Raised σ (Option (AdaptationResult A))
  stopOnFailure : Bool
  reflectionLimit : ℤ

/-! ### Phases -/

inductive Phase where
  | planning
  | executing
  | validating
  | reflecting
  | improving
  deriving DecidableEq

namespace Phase

def text : Phase → String
  | planning => "planning"
  | executing => "executing"
  | validating => "validating"
  | reflecting => "reflecting"
  | improving => "improving"

def targetState : Phase → SystemState
  | planning => .planning
  | executing => .executing
  | validating => .validating
  | reflecting => .reflecting
  | improving => .improving

/-- The phases in their order. -/
def all : List Phase := [planning, executing, validating, reflecting, improving]

/-- `retry_policy`: only the execution is tried again, once. -/
def maxRetries : Phase → ℕ
  | executing => 1
  | _ => 0

end Phase

inductive TraceStatus where
  | completed
  | failed
  deriving DecidableEq

structure OrchestrationPhaseTrace where
  phase : Phase
  state : SystemState
  status : TraceStatus
  metadata : Fields

inductive Event where
  /-- The operation of a phase is called. -/
  | invoked (phase : Phase)
  /-- The trace of a completed phase is recorded. -/
  | completed (phase : Phase)

/-- What the operations of a run change. -/
structure Shared (σ : Type) where
  world : σ
  memoryRecordIds : List Value

structure RunState (σ : Type) where
  shared : Shared σ
  events : List Event
  machine : SystemStateMachine
  phaseTraces : List OrchestrationPhaseTrace
  recoveryAttempts : List RecoveryAttempt

structure OrchestrationResult (P R A : Type) where
  runId : String
  traceId : String
  state : SystemState
  stateSnapshot : SystemStateSnapshot
  plan : Option P
  executionReport : Option R
  validationSummary : Fields
  reflectionSummary : Fields
  improvementResult : Option (AdaptationResult A)
  phaseTraces : List OrchestrationPhaseTrace
  recoveryAttempts : List RecoveryAttempt
  memoryRecordIds : List Value
  error : String

variable {σ T P H R A α : Type}

def traceIdOf (request : OrchestrationRequest H) : String := "trace-" ++ request.runId

def traceMetadata (traceId : String) : Fields := [("trace_id", .str traceId)]

def RunState.start (request : OrchestrationRequest H) (world : σ) : RunState σ where
  shared := { world, memoryRecordIds := [] }
  events := []
  machine := .new request.runId (traceIdOf request)
  phaseTraces := []
  recoveryAttempts := []

def transition (newState : SystemState) (reason : String) (metadata : Fields) :
    EStateM Raised (RunState σ) Unit := fun s =>
  match s.machine.transitionTo newState reason metadata with
  | .ok machine => .ok () { s with machine }
  | .error text => .error (.other text) s

/-- The operation of a phase, with the event of its call. -/
def invoke (phase : Phase) (operation : EStateM Raised (Shared σ) α) :
    EStateM Raised (Shared σ × List Event) α := fun (shared, events) =>
  match operation shared with
  | .ok value shared => .ok value (shared, events ++ [.invoked phase])
  | .error error shared => .error error (shared, events ++ [.invoked phase])

def recoveredMetadata (traceId : String) (recovery : RecoveryResult α) : Fields :=
  traceMetadata traceId ++ [("failed_attempts", .int recovery.attempts.length)]

def failureMetadata (traceId : String) (recovery : RecoveryResult α) : Fields :=
  recoveredMetadata traceId recovery ++ [("error", .str recovery.finalError)]
    ++ (recovery.failureCategory.map fun category => ("failure_category", .str category.text)).toList

def completedTrace (traceId : String) (phase : Phase) (recovery : RecoveryResult α) :
    OrchestrationPhaseTrace where
  phase := phase
  state := phase.targetState
  status := .completed
  metadata := recoveredMetadata traceId recovery

def failedTrace (traceId : String) (phase : Phase) (recovery : RecoveryResult α) :
    OrchestrationPhaseTrace where
  phase := phase
  state := phase.targetState
  status := .failed
  metadata := failureMetadata traceId recovery

def RunState.enter (s : RunState σ) (traceId : String) (phase : Phase) : RunState σ :=
  { s with
    machine := s.machine.moveTo phase.targetState (phase.text ++ "_started") (traceMetadata traceId) }

def RunState.complete (s : RunState σ) (traceId : String) (phase : Phase)
    (recovery : RecoveryResult α) (after : Shared σ × List Event) : RunState σ where
  shared := after.1
  events := after.2 ++ [.completed phase]
  machine := s.machine
  phaseTraces := s.phaseTraces ++ [completedTrace traceId phase recovery]
  recoveryAttempts := s.recoveryAttempts ++ recovery.attempts

/-- The run after a phase has failed, before it moves to FAILED. -/
def RunState.fail (s : RunState σ) (traceId : String) (phase : Phase) (recovery : RecoveryResult α)
    (after : Shared σ × List Event) : RunState σ where
  shared := after.1
  events := after.2
  machine := s.machine
  phaseTraces := s.phaseTraces ++ [failedTrace traceId phase recovery]
  recoveryAttempts := s.recoveryAttempts ++ recovery.attempts

def runPhase (traceId : String) (phase : Phase) (operation : EStateM Raised (Shared σ) (Option α)) :
    EStateM Raised (RunState σ) (Option α) := do
  transition phase.targetState (phase.text ++ "_started") (traceMetadata traceId)
  let s ← get
  match RecoveryManager.execute phase.text (invoke phase operation) phase.maxRetries
    (s.shared, s.events) with
  | .error error after =>
      set { s with shared := after.1, events := after.2 }
      throw error
  | .ok recovery after =>
      if recovery.success then
        set (s.complete traceId phase recovery after)
        return recovery.value
      else
        set (s.fail traceId phase recovery after)
        transition .failed (phase.text ++ "_failed")
          (traceMetadata traceId ++ [("error", .str recovery.finalError)])
        return none

/-! ### Operations -/

/-- A call of a collaborator. -/
def onWorld (call : EStateM Raised σ α) : EStateM Raised (Shared σ) α := fun s =>
  match call s.world with
  | .ok value world => .ok value { s with world }
  | .error error world => .error error { s with world }

def reading (read : Attribute α) : EStateM Raised σ α := fun s =>
  match read with
  | .ok value => .ok value s
  | .error error => .error error s

/-- A read of the world. -/
def observing (read : σ → Attribute α) : EStateM Raised (Shared σ) α := fun s =>
  match read s.world with
  | .ok value => .ok value s
  | .error error => .error error s

def extendIds (ids : List Value) : EStateM Raised (Shared σ) Unit :=
  modify fun s => { s with memoryRecordIds := s.memoryRecordIds ++ ids }

/-- A call that writes, and the append of the id of its record. -/
def remember (memory : MemoryService σ T A) (call : ServiceCall T) :
    EStateM Raised (Shared σ) Value := do
  let record ← onWorld (memory.write call)
  let id ← reading record
  extendIds [id]
  return id

def defaultTasks (request : OrchestrationRequest H) : List Fields :=
  if request.tasks = [] then
    [[("id", .str "task-1"), ("description", .str request.goal), ("dependencies", .list [])]]
  else request.tasks

/-- `if condition: raise ValueError(text)`. -/
def refuse (condition : Prop) [Decidable condition] (text : String) : Except Raised Unit :=
  if condition then .error (.other text) else .ok ()

/-- A refusal of a report that does not have the status, where the condition holds. -/
def Reports.requireStatus (reports : Reports σ R) (report : R) (world : σ) (condition : Prop)
    [Decidable condition] (required : ExecutionStatus) (text : String) : Except Raised Unit :=
  if condition then do
    let status ← reports.status report world
    refuse (status ≠ required) text
  else .ok ()

def Reports.validateExecutionReport (reports : Reports σ R) (report : R) (world : σ) :
    Attribute Fields := do
  let tasks ← reports.tasks report world
  let total ← reports.totalTasks report world
  refuse (tasks.length ≠ total) "execution report task count does not match total_tasks"
  let completed ← reports.completedTasks report world
  let failed ← reports.failedTasks report world
  let skipped ← reports.skippedTasks report world
  refuse (completed + failed + skipped ≠ total)
    "execution report counts do not add up to total_tasks"
  reports.requireStatus report world (0 < failed) .failed
    "failed execution report must have failed status"
  reports.requireStatus report world (failed = 0 ∧ skipped = 0) .completed
    "successful execution report must have completed status"
  let status ← reports.status report world
  return [("status", .str status.text), ("total_tasks", .int total),
    ("completed_tasks", .int completed), ("failed_tasks", .int failed),
    ("skipped_tasks", .int skipped)]

def failureReason (tasks : List ExecutionTask) : String :=
  (tasks.findSome? fun task => task.error.filter (· ≠ "")).getD "execution_failed"

def runContext (request : OrchestrationRequest H) : Fields :=
  [("run_id", .str request.runId), ("trace_id", .str (traceIdOf request))]

/-- The call of `log_execution`, for the report as it reads in the world. -/
def Reports.executionCall (reports : Reports σ R) (request : OrchestrationRequest H) (report : R)
    (world : σ) : Attribute (ServiceCall T) := do
  let status ← reports.status report world
  let total ← reports.totalTasks report world
  let completed ← reports.completedTasks report world
  let failed ← reports.failedTasks report world
  let skipped ← reports.skippedTasks report world
  return .logExecution status.text total completed failed skipped
    (some [("run_id", .str request.runId), ("goal", .str request.goal),
      ("trace_id", .str (traceIdOf request))])

def taskCall (task : ExecutionTask) : ServiceCall T :=
  .logTask task.id task.status.text task.output task.error task.skipReason

def failureCall (request : OrchestrationRequest H) (tasks : List ExecutionTask) : ServiceCall T :=
  .logFailure "orchestrator" (failureReason tasks) (some (runContext request))

def reflectionCall (request : OrchestrationRequest H) (recentCount : ℕ) : ServiceCall T :=
  .logDecision "reflection_snapshot" "prepared deterministic context for self-improvement"
    (some (runContext request ++ [("recent_record_count", .int recentCount)]))

def reflect (controller : OrchestrationController σ T P H R A) (request : OrchestrationRequest H)
    (report : R) : EStateM Raised (Shared σ) Fields := do
  let call ← observing (controller.reports.executionCall request report)
  let _ ← remember controller.memoryService call
  let tasks ← observing (controller.reports.tasks report)
  tasks.forM fun task => do
    let _ ← remember controller.memoryService (taskCall task)
  let status ← observing (controller.reports.status report)
  if status = .failed then
    let tasks ← observing (controller.reports.tasks report)
    let _ ← remember controller.memoryService (failureCall request tasks)
  let recent ← onWorld (controller.memoryService.getRecent controller.reflectionLimit)
  let recentCount ← reading recent
  let reflectionId ← remember controller.memoryService (reflectionCall request recentCount)
  let s ← get
  return [("recent_record_count", .int recentCount),
    ("memory_record_count", .int s.memoryRecordIds.length), ("reflection_record_id", reflectionId)]

/-- `_improve` after the improvement runner. -/
def storeApproved (controller : OrchestrationController σ T P H R A) :
    Option (AdaptationResult A) → EStateM Raised (Shared σ) (AdaptationResult A)
  | none => throw (.other "'NoneType' object has no attribute 'adaptations_approved'")
  | some improvement => do
      let approved ← reading improvement.adaptationsApproved
      let stored ← onWorld (controller.memoryService.storeImprovements approved)
      extendIds stored.items
      match stored.broken with
      | some error => throw error
      | none => return improvement

def improve (controller : OrchestrationController σ T P H R A) :
    EStateM Raised (Shared σ) (AdaptationResult A) := do
  let improvement ← onWorld controller.selfImprovementRunner
  storeApproved controller improvement

/-! ### The run -/

def phaseError (traces : List OrchestrationPhaseTrace) : String :=
  (traces.reverse.findSome? fun trace =>
    match trace.metadata.get? "error" with
    | some (.str error) => if error = "" then none else some error
    | _ => none).getD "orchestration_failed"

/-- `_build_result`, for what the phases have produced. -/
def buildResult (request : OrchestrationRequest H) (s : RunState σ) (plan : Option P)
    (executionReport : Option R) (validationSummary reflectionSummary : Option Fields)
    (improvementResult : Option (AdaptationResult A)) (error : String) :
    OrchestrationResult P R A where
  runId := request.runId
  traceId := traceIdOf request
  state := s.machine.state
  stateSnapshot := s.machine.snapshot
  plan := plan
  executionReport := executionReport
  validationSummary := validationSummary.getD []
  reflectionSummary := reflectionSummary.getD []
  improvementResult := improvementResult
  phaseTraces := s.phaseTraces
  recoveryAttempts := s.recoveryAttempts
  memoryRecordIds := s.shared.memoryRecordIds
  error := error

/-- The result of a run that stops because a phase gave `None`. -/
def stopped (request : OrchestrationRequest H) (plan : Option P)
    (executionReport : Option R) (validationSummary reflectionSummary : Option Fields) :
    EStateM Raised (RunState σ) (OrchestrationResult P R A) := do
  let s ← get
  return buildResult request s plan executionReport validationSummary reflectionSummary none
    (phaseError s.phaseTraces)

/-- The phases of `run`. -/
def runPhases (controller : OrchestrationController σ T P H R A) (request : OrchestrationRequest H) :
    EStateM Raised (RunState σ) (OrchestrationResult P R A) := do
  let traceId := traceIdOf request
  let some plan ← runPhase traceId .planning
      (onWorld (controller.planningEngine (defaultTasks request)))
    | stopped request none none none none
  let some report ← runPhase traceId .executing
      (onWorld (controller.executionEngine plan request.handlers controller.stopOnFailure))
    | stopped request (some plan) none none none
  let some validation ← runPhase traceId .validating
      (some <$> observing (controller.reports.validateExecutionReport report))
    | stopped request (some plan) (some report) none none
  let some reflection ← runPhase traceId .reflecting (some <$> reflect controller request report)
    | stopped request (some plan) (some report) (some validation) none
  let some improvement ← runPhase traceId .improving (some <$> improve controller)
    | stopped request (some plan) (some report) (some validation) (some reflection)
  let s ← get
  let status ← reading (controller.reports.status report s.shared.world)
  if status = .failed then
    transition .failed "execution_report_failed" (traceMetadata traceId)
  else
    transition .completed "run_completed" (traceMetadata traceId)
  let s ← get
  return buildResult request s (some plan) (some report) (some validation) (some reflection)
    (some improvement) ""

/-- `run`: the result or the exception, with the state that the run leaves. -/
def run (controller : OrchestrationController σ T P H R A) (request : OrchestrationRequest H)
    (world : σ) : EStateM.Result Raised (RunState σ) (OrchestrationResult P R A) :=
  runPhases controller request (.start request world)

/-! ### The validation of a report -/

theorem refuse_eq_ok_iff {condition : Prop} [Decidable condition] {text : String} {u : Unit} :
    refuse condition text = .ok u ↔ ¬ condition := by
  unfold refuse
  split
  · exact iff_of_false nofun (not_not_intro ‹_›)
  · exact iff_of_true rfl ‹_›

theorem Reports.requireStatus_eq_ok_iff {reports : Reports σ R} {report : R} {world : σ}
    {condition : Prop} [Decidable condition] {required : ExecutionStatus} {text : String} {u : Unit} :
    reports.requireStatus report world condition required text = .ok u
      ↔ (condition → reports.status report world = .ok required) := by
  unfold Reports.requireStatus
  split
  · rename_i hcondition
    rw [forall_prop_of_true hcondition, except_bind_eq_ok_iff]
    constructor
    · rintro ⟨status, hstatus, hrefuse⟩
      rw [hstatus, not_not.1 (refuse_eq_ok_iff.1 hrefuse)]
    · exact fun hstatus => ⟨required, hstatus, refuse_eq_ok_iff.2 (not_not_intro rfl)⟩
  · exact iff_of_true rfl fun hcondition => absurd hcondition ‹_›

/-- **What the validation accepts.** -/
theorem Reports.accepts_iff {reports : Reports σ R} {report : R} {world : σ} :
    (∃ summary, reports.validateExecutionReport report world = .ok summary)
      ↔ ∃ tasks total completed failed skipped status, reports.tasks report world = .ok tasks
        ∧ reports.totalTasks report world = .ok total
        ∧ reports.completedTasks report world = .ok completed
        ∧ reports.failedTasks report world = .ok failed
        ∧ reports.skippedTasks report world = .ok skipped
        ∧ reports.status report world = .ok status
        ∧ tasks.length = total ∧ completed + failed + skipped = total
        ∧ (0 < failed → status = .failed) ∧ (failed = 0 ∧ skipped = 0 → status = .completed) := by
  unfold Reports.validateExecutionReport
  simp only [except_bind_eq_ok_iff, refuse_eq_ok_iff, Reports.requireStatus_eq_ok_iff, not_not]
  constructor
  · rintro ⟨_, tasks, htasks, total, htotal, _, hlength, completed, hcompleted, failed, hfailed,
      skipped, hskipped, _, hsum, _, hfail, _, hsucceed, status, hstatus, _⟩
    rw [hstatus] at hfail hsucceed
    exact ⟨tasks, total, completed, failed, skipped, status, htasks, htotal, hcompleted, hfailed,
      hskipped, hstatus, hlength, hsum, fun h => Except.ok.inj (hfail h),
      fun h => Except.ok.inj (hsucceed h)⟩
  · rintro ⟨tasks, total, completed, failed, skipped, status, htasks, htotal, hcompleted, hfailed,
      hskipped, hstatus, hlength, hsum, hfail, hsucceed⟩
    exact ⟨_, tasks, htasks, total, htotal, (), hlength, completed, hcompleted, failed, hfailed,
      skipped, hskipped, (), hsum, (), fun h => hstatus.trans (congrArg _ (hfail h)), (),
      fun h => hstatus.trans (congrArg _ (hsucceed h)), status, hstatus, rfl⟩

/-! ### Reports that nothing else holds -/

/-- The report of the runner, which is read as it was built. -/
def Reports.own : Reports σ Execution.ExecutionReport where
  status report _ := .ok report.status
  tasks report _ := .ok report.tasks
  totalTasks report _ := .ok report.totalTasks
  completedTasks report _ := .ok report.completedTasks
  failedTasks report _ := .ok report.failedTasks
  skippedTasks report _ := .ok report.skippedTasks

end PersonalDevin.Orchestration
