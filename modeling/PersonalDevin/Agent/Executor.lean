import PersonalDevin.Execution.Hooks
import PersonalDevin.Execution.Runner

/-!
# The executor of the loop controller

`ExecutionRunner`, which runs a plan behind the policy hook. The plan travels inside the request, so
the hook copies it and writes it to the audit log. The infrastructure provider is the local simulation,
which never fails. The texts of exceptions that come from the interpreter, and the times of a run, are
parameters.
-/

namespace PersonalDevin.Agent

open Lib Execution
open Planning (ExecutionPlan PlanError TaskNode buildExecutionPlan)

/-- What a request holds: the plan object of the planner, or any other value. -/
inductive PlanValue where
  | plan (plan : ExecutionPlan)
  | value (value : Value)

structure RunTimes where
  startedAt : String
  completedAt : Option String
  task : ExecutionTask → Option String × Option String

/-- What is left open of the interpreter. -/
structure Interpreter where
  planText : ExecutionPlan → String
  copyPlan : ExecutionPlan → Except Raised ExecutionPlan
  copyObject : Bool → String → Except Raised (Bool × String)
  refusedText : PlanValue → String
  intText : Value → String
  errorText : PlanError → String
  times : RunTimes
  recordId : List (String × PlanValue) → String → String
  timestamp : String

variable (interpreter : Interpreter)

namespace Interpreter

def refused (value : PlanValue) : Raised := .exception "TypeError" (interpreter.refusedText value)

/-- A plan is no dictionary, list or text, so `json.dumps` refuses it. -/
def python : Python PlanValue where
  view
    | .plan plan => .object true (interpreter.planText plan)
    | .value value => value
  deepcopy
    | .plan plan => .plan <$> interpreter.copyPlan plan
    | .value value => .value <$> copyValue interpreter.copyObject value
  json
    | .plan plan => .error (interpreter.refused (.plan plan))
    | .value value => dumpsValue (fun value => interpreter.refused (.value value)) value

/-- `int(value)`. -/
def readInt (value : Value) : Except Raised ℤ :=
  match value.pyInt with
  | some n => .ok n
  | none =>
      match value with
      | .str _ => .error (.exception "ValueError" (interpreter.intText value))
      | _ => .error (.exception "TypeError" (interpreter.intText value))

def raisedBy (error : PlanError) : Raised :=
  match error with
  | .cycle => .exception "PlanningCycleError" (interpreter.errorText error)
  | .missingKey _ => .exception "KeyError" (interpreter.errorText error)
  | _ => .exception "ValueError" (interpreter.errorText error)

end Interpreter

/-! ### The plan of a request -/

def singleTask (id action : String) (metadata : Fields) : Value :=
  .dict
    [("id", .str id),
     ("description", .str action),
     ("dependencies", .list []),
     ("metadata", .dict metadata)]

def stepMetadata (step : Fields) : Fields :=
  match step.get? "metadata" with
  | some (.dict metadata) => metadata
  | _ => []

def stepTask (step : Fields) : Value :=
  singleTask (textField step "id" "step_1") (textField step "action" "execute_step")
    (stepMetadata step)

def singleStepToExecutionPlan (step : Fields) : Except Raised ExecutionPlan :=
  match buildExecutionPlan [stepTask step] with
  | .ok plan => .ok plan
  | .error error => .error (interpreter.raisedBy error)

def unsupportedPlan : Raised :=
  .exception "ValueError" "Unsupported plan format for execution runner"

def selectedStep (steps : List Value) (currentIndex : ℤ) : Option Fields :=
  if currentIndex < 0 then none
  else match steps[currentIndex.toNat]? with
    | some (.dict selected) => some selected
    | _ => none

def normalizePlanForRunner : PlanValue → Except Raised ExecutionPlan
  | .plan plan => .ok plan
  | .value (.dict fields) =>
      if (Fields.get? fields "action").isSome then singleStepToExecutionPlan interpreter fields
      else match Fields.get? fields "steps" with
        | some (.list steps) => do
            let currentIndex ← interpreter.readInt ((Fields.get? fields "current_step").getD (.int 0))
            match selectedStep steps currentIndex with
            | some selected => singleStepToExecutionPlan interpreter selected
            | none => throw unsupportedPlan
        | _ => .error unsupportedPlan
  | .value _ => .error unsupportedPlan

/-! ### The payload -/

def optionalText (text : Option String) : Value := (text.map Value.str).getD .none

/-- `task.model_dump(mode="json")`. -/
def taskDump (times : RunTimes) (task : ExecutionTask) : Value :=
  .dict
    [("id", .str task.id),
     ("description", .str task.description),
     ("dependencies", .list (task.dependencies.map Value.str)),
     ("status", .str task.status.text),
     ("output", optionalText task.output),
     ("error", optionalText task.error),
     ("skip_reason", optionalText task.skipReason),
     ("started_at", optionalText (times.task task).1),
     ("completed_at", optionalText (times.task task).2)]

def payload (times : RunTimes) (report : ExecutionReport) : Fields :=
  [("success", .bool (report.status = .completed)),
   ("status", .str report.status.text),
   ("total_tasks", .int report.totalTasks),
   ("completed_tasks", .int report.completedTasks),
   ("failed_tasks", .int report.failedTasks),
   ("skipped_tasks", .int report.skippedTasks),
   ("tasks", .list (report.tasks.map (taskDump times))),
   ("started_at", .str times.startedAt),
   ("completed_at", optionalText times.completedAt)]

/-- `run_plan(plan)`. -/
def runPlan (plan : ExecutionPlan) : ExecutionReport := (Execution.run true .empty plan).report

/-- `_execute_with_existing_runner`. A request without a plan is as one whose plan is `None`. -/
def executeWithExistingRunner : ExecutionEngine PlanValue := fun request =>
  { request
    result := do
      let plan ← normalizePlanForRunner interpreter ((request.lookup "plan").getD (.value .none))
      return .value (.dict (payload interpreter.times (runPlan plan))) }

/-! ### The adapter -/

def setDefault (fields : Fields) (key : String) (value : Value) : Fields :=
  if (fields.get? key).isSome then fields else fields ++ [(key, value)]

def succeeded (fields : Fields) : Bool := ((fields.get? "success").map Value.truthy).getD false

def normalizeOutput : PlanValue → Fields
  | .value (.dict output) =>
      let normalized := setDefault output "error_type"
        (.str (if succeeded output then "none" else "runtime_error"))
      setDefault normalized "retryable" (.bool !(succeeded normalized))
  | _ =>
      [("success", .bool false), ("status", .str "failed"), ("error_type", .str "invalid_output"),
       ("retryable", .bool false), ("error", .str "invalid_execution_output")]

/-- A result of the adapter that carries an exception. -/
def failedWith (errorType : String) (retryable : Bool) (error : String) : Fields :=
  [("success", .bool false), ("status", .str "failed"), ("error_type", .str errorType),
   ("retryable", .bool retryable), ("error", .str error)]

def className : Raised → String
  | .exception className _ => className
  | .policy _ => "PolicyValidationError"
  | .unprintable className _ => className

/-- `str(exc)`. -/
def raisedText : Raised → Except Raised String
  | .exception _ text => .ok text
  | .policy violation => .ok violation.text
  | .unprintable _ inner => .error inner

def classifyException (raised : Raised) : Except Raised Fields := do
  let name := lowerChars (className raised)
  let message ← raisedText raised
  if isIn "policy".toList name then return failedWith "policy_violation" false message
  else if isIn "valueerror".toList name || isIn "typeerror".toList name then
    return failedWith "invalid_plan" false message
  else return failedWith "runtime_error" true message

/-- The policy of an `ExecutionRunner` that is given none. -/
def runPlanPolicy : ExecutionPolicy where
  allowedOperations := [⟨"run_plan", by decide⟩]
  blockedOperations := []
  maxRuntimeSeconds := none
  allowedEnvironments := [⟨"local", by decide⟩]

def planRequest (plan : PlanValue) : List (String × PlanValue) :=
  [("operation", .value (.str "run_plan")),
   ("environment", .value (.str "local")),
   ("runtime_seconds", .value (.int 0)),
   ("plan", plan)]

/-- `ExecutionRunner.run`. -/
def executionRunnerRun (policy : ExecutionPolicy) (plan : PlanValue) (audit : Audit PlanValue) :
    Except Raised Fields × Audit PlanValue :=
  match executeWithPolicy interpreter.python (fun request time => .ok (interpreter.recordId request time))
      interpreter.timestamp (executeWithExistingRunner interpreter) (planRequest plan) policy audit with
  | .ok output audit => (.ok (normalizeOutput output), audit)
  | .error raised audit => (classifyException raised, audit)

/-! ### When the adapter agrees with the runner -/

def Agrees (result : Except Raised Fields) (report : ExecutionReport) : Prop :=
  ∃ fields, result = .ok fields
    ∧ (fields.get? "success" = some (.bool true) ↔ report.status = .completed)
    ∧ fields.get? "total_tasks" = some (.int report.totalTasks)
    ∧ fields.get? "completed_tasks" = some (.int report.completedTasks)
    ∧ fields.get? "failed_tasks" = some (.int report.failedTasks)
    ∧ fields.get? "skipped_tasks" = some (.int report.skippedTasks)

theorem agrees_payload (times : RunTimes) (report : ExecutionReport) :
    Agrees (.ok (normalizeOutput (.value (.dict (payload times report))))) report := by
  refine ⟨_, rfl, ?_, rfl, rfl, rfl, rfl⟩
  show some (Value.bool (report.status = .completed)) = some (Value.bool true) ↔ _
  simp

/-- An exception is reported without counts. -/
theorem not_agrees_classifyException (raised : Raised) (report : ExecutionReport) :
    ¬ Agrees (classifyException raised) report := by
  rintro ⟨fields, hfields, _, htotal, _⟩
  obtain ⟨message, _, h⟩ := except_bind_eq_ok_iff.1 hfields
  have hfailed : ∃ errorType retryable, failedWith errorType retryable message = fields := by
    split at h
    · exact ⟨_, _, Except.ok.inj h⟩
    · split at h
      · exact ⟨_, _, Except.ok.inj h⟩
      · exact ⟨_, _, Except.ok.inj h⟩
  obtain ⟨errorType, retryable, rfl⟩ := hfailed
  cases htotal

theorem jsonDict_planRequest (plan : PlanValue) :
    (∃ written, interpreter.python.jsonDict (planRequest plan) = .ok written)
      ↔ ∃ written, interpreter.python.json plan = .ok written := by
  have hsorted : ((planRequest plan).insertionSort fun a b => a.1 ≤ b.1)
      = [("environment", .value (.str "local")), ("operation", .value (.str "run_plan")),
         ("plan", plan), ("runtime_seconds", .value (.int 0))] := by
    have hruntime : ¬ "runtime_seconds" ≤ "plan" := by decide
    have henvironment : "environment" ≤ "plan" := by decide
    have hoperation : ¬ "operation" ≤ "environment" := by decide
    have hplan : "operation" ≤ "plan" := by decide
    simp [planRequest, hruntime, henvironment, hoperation, hplan]
  rw [Python.jsonDict, hsorted]
  simp only [List.mapM_cons, List.mapM_nil]
  rcases interpreter.python.json plan with raised | written
  · constructor
    · rintro ⟨_, h⟩
      cases h
    · rintro ⟨_, h⟩
      cases h
  · exact ⟨fun _ => ⟨_, rfl⟩, fun _ => ⟨_, rfl⟩⟩

theorem copyDict_planRequest (plan : PlanValue) :
    interpreter.python.copyDict (planRequest plan)
      = planRequest <$> interpreter.python.deepcopy plan := by
  simp only [Python.copyDict, planRequest, List.mapM_cons, List.mapM_nil]
  rcases interpreter.python.deepcopy plan with raised | copied
  · rfl
  · rfl

theorem optionalText_json (text : Option String) : (optionalText text).jsonRoundTrip.isSome := by
  cases text <;> rfl

theorem taskDump_json (times : RunTimes) (task : ExecutionTask) :
    (taskDump times task).jsonRoundTrip.isSome := by
  have hdependencies : (Value.list (task.dependencies.map Value.str)).jsonRoundTrip.isSome := by
    rw [Value.jsonRoundTrip, Option.isSome_map, Value.isSome_jsonItems]
    intro item hitem
    obtain ⟨_, _, rfl⟩ := List.mem_map.1 hitem
    rfl
  rw [taskDump, Value.jsonRoundTrip, Option.isSome_map, Value.isSome_jsonEntries]
  simp only [List.forall_mem_cons, hdependencies, optionalText_json]
  exact ⟨rfl, rfl, trivial, rfl, trivial, trivial, trivial, trivial, trivial,
    fun _ h => absurd h List.not_mem_nil⟩

/-- A payload holds nothing but JSON. -/
theorem payload_json (times : RunTimes) (report : ExecutionReport) :
    (Value.dict (payload times report)).jsonRoundTrip.isSome := by
  have htasks : (Value.list (report.tasks.map (taskDump times))).jsonRoundTrip.isSome := by
    rw [Value.jsonRoundTrip, Option.isSome_map, Value.isSome_jsonItems]
    intro item hitem
    obtain ⟨task, _, rfl⟩ := List.mem_map.1 hitem
    exact taskDump_json times task
  rw [payload, Value.jsonRoundTrip, Option.isSome_map, Value.isSome_jsonEntries]
  simp only [List.forall_mem_cons, htasks, optionalText_json]
  exact ⟨rfl, rfl, rfl, rfl, rfl, rfl, trivial, rfl, trivial, fun _ h => absurd h List.not_mem_nil⟩

/-- A JSON value is copied as it is, and written. -/
theorem python_of_json {value : Value} (h : value.jsonRoundTrip.isSome) :
    interpreter.python.deepcopy (.value value) = .ok (.value value)
      ∧ ∃ written, interpreter.python.json (.value value) = .ok written := by
  constructor
  · show PlanValue.value <$> copyValue interpreter.copyObject value = _
    rw [copyValue_of_json h]
    rfl
  · obtain ⟨written, hwritten⟩ := Option.isSome_iff_exists.1 h
    refine ⟨written.sortKeys, ?_⟩
    show dumpsValue (fun value => interpreter.refused (.value value)) value = _
    rw [dumpsValue, hwritten]

variable {interpreter} {audit : Audit PlanValue} {plan : PlanValue} {report : ExecutionReport}

theorem executeWithExistingRunner_result {output : PlanValue} :
    (executeWithExistingRunner interpreter (planRequest plan)).result = .ok output
      ↔ ∃ executionPlan, normalizePlanForRunner interpreter plan = .ok executionPlan
        ∧ output = .value (.dict (payload interpreter.times (runPlan executionPlan))) := by
  show (normalizePlanForRunner interpreter plan >>= fun executionPlan =>
    .ok (.value (.dict (payload interpreter.times (runPlan executionPlan))))) = .ok output ↔ _
  rw [except_bind_eq_ok_iff]
  simp only [Except.ok.injEq, eq_comm]

/-- **What the adapter runs**: the copy of the plan, if that can be read as a plan and written. -/
theorem agrees_run_iff :
    Agrees (executionRunnerRun interpreter runPlanPolicy plan audit).1 report
      ↔ ∃ copied executionPlan written, interpreter.python.deepcopy plan = .ok copied
        ∧ normalizePlanForRunner interpreter copied = .ok executionPlan
        ∧ interpreter.python.json copied = .ok written
        ∧ Agrees (.ok (normalizeOutput (.value (.dict
            (payload interpreter.times (runPlan executionPlan)))))) report := by
  rw [executionRunnerRun]
  rcases hcall : executeWithPolicy interpreter.python
      (fun request time => .ok (interpreter.recordId request time)) interpreter.timestamp
      (executeWithExistingRunner interpreter) (planRequest plan) runPlanPolicy audit
    with ⟨output, after⟩ | ⟨raised, after⟩
  · obtain ⟨snapshot, result, line, hcopy, _, hresult, hline⟩ :=
      executeWithPolicy_eq_ok_iff.1 ⟨after, hcall⟩
    rw [copyDict_planRequest] at hcopy
    obtain ⟨copied, hcopied, rfl⟩ := except_map_eq_ok_iff.1 hcopy
    obtain ⟨executionPlan, hplan, rfl⟩ := executeWithExistingRunner_result.1 hresult
    obtain ⟨_, _, input, _, _, _, hinput, _⟩ := successLine_eq_ok_iff.1 hline
    obtain ⟨written, hwritten⟩ := (jsonDict_planRequest interpreter copied).1 ⟨input, hinput⟩
    constructor
    · exact fun h => ⟨copied, executionPlan, written, hcopied, hplan, hwritten, h⟩
    · rintro ⟨copied', executionPlan', _, hcopied', hplan', _, h⟩
      obtain rfl := Except.ok.inj (hcopied.symm.trans hcopied')
      obtain rfl := Except.ok.inj (hplan.symm.trans hplan')
      exact h
  · constructor
    · exact fun h => absurd h (not_agrees_classifyException raised report)
    · rintro ⟨copied, executionPlan, written, hcopied, hplan, hwritten, _⟩
      obtain ⟨input, hinput⟩ := (jsonDict_planRequest interpreter copied).2 ⟨written, hwritten⟩
      have hpayload := payload_json interpreter.times (runPlan executionPlan)
      obtain ⟨hsame, shown, hshown⟩ := python_of_json interpreter hpayload
      have hcopy : interpreter.python.copyDict (planRequest plan) = .ok (planRequest copied) := by
        rw [copyDict_planRequest, hcopied]
        rfl
      have hreturns : ∃ after, executeWithPolicy interpreter.python
          (fun request time => .ok (interpreter.recordId request time)) interpreter.timestamp
          (executeWithExistingRunner interpreter) (planRequest plan) runPlanPolicy audit
          = .ok (.value (.dict (payload interpreter.times (runPlan executionPlan)))) after :=
        executeWithPolicy_eq_ok_iff.2 ⟨planRequest copied, _, _, hcopy, rfl,
          executeWithExistingRunner_result.2 ⟨executionPlan, hplan, rfl⟩,
          successLine_eq_ok_iff.2 ⟨_, _, input, shown, rfl, hsame, hinput, hshown, rfl⟩⟩
      obtain ⟨after, hreturns⟩ := hreturns
      rw [hcall] at hreturns
      cases hreturns

/-! ### Single steps -/

/-- The plan of one task without dependencies is that task. -/
theorem buildExecutionPlan_singleTask {id action : String} (hid : id ≠ "") (haction : action ≠ "")
    (metadata : Fields) : ∃ plan, buildExecutionPlan [singleTask id action metadata] = .ok plan
      ∧ plan.orderedTasks = [⟨id, action, [], metadata⟩] := by
  let node : TaskNode := ⟨id, action, [], metadata⟩
  have hdescribes : List.Forall₂ Planning.Describes [singleTask id action metadata] [node] := by
    refine .cons ⟨_, rfl, ?_⟩ .nil
    have hid' : nonEmptyStr (some (.str id)) = some id := if_neg hid
    have haction' : nonEmptyStr (some (.str action)) = some action := if_neg haction
    show (do
      let id ← nonEmptyStr (some (.str id))
      let description ← nonEmptyStr (some (.str action))
      return ⟨id, description, [], metadata⟩) = some node
    rw [hid', haction']
    rfl
  have hvalid : Planning.ValidTasks [node] := by
    constructor
    · exact List.nodup_singleton id
    · intro task htask dep hdep
      obtain rfl := List.mem_singleton.1 htask
      cases hdep
  have hfree : ∀ {a b : String}, ¬ Planning.DependsOn [node] a b := by
    rintro a b ⟨task, htask, _, hdep⟩
    obtain rfl := List.mem_singleton.1 htask
    cases hdep
  rw [Planning.buildExecutionPlan_of_describes hdescribes]
  rcases Planning.buildPlan_spec hvalid with ⟨plan, hplan, hplanned⟩ | ⟨hnot, _⟩
  · exact ⟨plan, hplan, List.perm_singleton.1 hplanned.perm⟩
  · refine absurd ⟨fun a hcycle => ?_, fun task htask => ?_⟩ hnot
    · rcases hcycle with hstep | ⟨_, hstep⟩
      · exact hfree hstep
      · exact hfree hstep
    · obtain rfl := List.mem_singleton.1 htask
      exact List.nodup_nil

theorem not_agrees_plan (plan : ExecutionPlan) :
    ¬ Agrees (executionRunnerRun interpreter runPlanPolicy (.plan plan) audit).1 report := by
  rw [agrees_run_iff]
  rintro ⟨copied, _, written, hcopied, _, hwritten, _⟩
  obtain ⟨copy, _, rfl⟩ := except_map_eq_ok_iff.1 hcopied
  cases hwritten

theorem textField_of_get? {fields : Fields} {key default : String} {value : Value}
    (h : fields.get? key = some value) : textField fields key default = value.pyStr := by
  rw [textField, h]

/-- **The adapter and the runner** agree on no plan of the planner, and on a single step exactly if the
step can be written to the audit log. -/
theorem executionRunner_agrees_iff (interpreter : Interpreter) (audit : Audit PlanValue) :
    (∀ rawTasks plan, buildExecutionPlan rawTasks = .ok plan →
      ¬ Agrees (executionRunnerRun interpreter runPlanPolicy (.plan plan) audit).1 (runPlan plan))
    ∧ ∀ step id action, Fields.get? step "id" = some id → Fields.get? step "action" = some action →
      id.pyStr ≠ "" → action.pyStr ≠ "" →
      ∃ plan, buildExecutionPlan [singleTask id.pyStr action.pyStr (stepMetadata step)] = .ok plan
        ∧ (Agrees (executionRunnerRun interpreter runPlanPolicy (.value (.dict step)) audit).1
            (runPlan plan)
          ↔ (Value.dict step).jsonRoundTrip.isSome) := by
  refine ⟨fun _ plan _ => not_agrees_plan plan, fun step id action hid haction hid' haction' => ?_⟩
  obtain ⟨plan, hplan, htasks⟩ := buildExecutionPlan_singleTask hid' haction' (stepMetadata step)
  refine ⟨plan, hplan, ?_⟩
  rw [agrees_run_iff]
  constructor
  · rintro ⟨copied, _, written, hcopied, _, hwritten, _⟩
    obtain ⟨copy, hcopy, rfl⟩ := except_map_eq_ok_iff.1 hcopied
    have hjson : copy.jsonRoundTrip.isSome := by
      simp only [Interpreter.python, dumpsValue] at hwritten
      split at hwritten
      · rename_i hsome
        rw [hsome]
        rfl
      · cases hwritten
    exact json_of_copyValue hcopy hjson
  · intro hjson
    obtain ⟨hsame, written, hwritten⟩ := python_of_json interpreter hjson
    have hnormalize : normalizePlanForRunner interpreter (.value (.dict step)) = .ok plan := by
      rw [normalizePlanForRunner, haction]
      simp only [Option.isSome_some, if_true, singleStepToExecutionPlan, stepTask,
        textField_of_get? hid, textField_of_get? haction, hplan]
    exact ⟨_, plan, written, hsame, hnormalize, hwritten, agrees_payload _ _⟩

def localInterpreter : Interpreter where
  planText _ := "ExecutionPlan(...)"
  copyPlan plan := .ok plan
  copyObject truthy text := .ok (truthy, text)
  refusedText _ := "Object of type ExecutionPlan is not JSON serializable"
  intText _ := "invalid literal for int()"
  errorText _ := "Invalid task"
  times := { startedAt := "t0", completedAt := some "t1", task := fun _ => (none, none) }
  recordId _ _ := "r1"
  timestamp := "2026-03-19T12:00:00+00:00"

def buildStep : Fields := [("id", .str "build"), ("action", .str "Build it")]

theorem executionRunner_agrees_buildStep :
    ∃ plan, buildExecutionPlan [singleTask "build" "Build it" []] = .ok plan
      ∧ Agrees (executionRunnerRun localInterpreter runPlanPolicy (.value (.dict buildStep))
          ⟨[], []⟩).1 (runPlan plan) := by
  obtain ⟨plan, hplan, hagrees⟩ := (executionRunner_agrees_iff localInterpreter ⟨[], []⟩).2 buildStep
    (.str "build") (.str "Build it") rfl rfl (by decide) (by decide)
  exact ⟨plan, hplan, hagrees.2 rfl⟩

def buildPlanObject : ExecutionPlan where
  orderedTasks := [⟨"build", "Build it", [], []⟩]
  executionGroups := [⟨0, ["build"]⟩]
  metadata := ⟨1, false⟩

/-- The plan of one task completes, and the adapter calls it an invalid plan. -/
theorem buildPlanObject_not_run :
    buildExecutionPlan [singleTask "build" "Build it" []] = .ok buildPlanObject
      ∧ (runPlan buildPlanObject).status = .completed
      ∧ (executionRunnerRun localInterpreter runPlanPolicy (.plan buildPlanObject) ⟨[], []⟩).1
        = .ok (failedWith "invalid_plan" false
          "Object of type ExecutionPlan is not JSON serializable")
      ∧ ¬ Agrees (executionRunnerRun localInterpreter runPlanPolicy (.plan buildPlanObject)
          ⟨[], []⟩).1 (runPlan buildPlanObject) := by
  refine ⟨rfl, rfl, rfl, ?_⟩
  rintro ⟨fields, hfields, _, htotal, _⟩
  have hfailed : failedWith "invalid_plan" false
      "Object of type ExecutionPlan is not JSON serializable" = fields := Except.ok.inj hfields
  rw [← hfailed] at htotal
  cases htotal

end PersonalDevin.Agent
