import PersonalDevin.Lib.Paired
import PersonalDevin.Execution.Runner

/-!
# What a report says of its tasks

Nothing is asked of the plan here: ids may repeat, and dependencies may be unknown or stand later. A
handler may answer differently each time that it is called.
-/

namespace PersonalDevin.Execution

open Lib
open Planning (TaskNode ExecutionPlan)

/-! ### How a task ends -/

def Ended (task : ExecutionTask) : Prop :=
  task.status = .completed ∨ task.status = .failed ∨ task.status = .skipped

/-- The task has a text for what went wrong, if it is not COMPLETED. -/
def Explained (task : ExecutionTask) : Prop :=
  task.status ≠ .completed → ∃ text, task.error = some text ∧ text ≠ ""

theorem textOr_ne_empty {default : String} (h : default ≠ "") (text : Option String) :
    textOr text default ≠ "" := by
  unfold textOr
  split
  · exact h
  · split
    · exact h
    · assumption

/-- The exception that the executor catches has no text exactly if it comes from reading what the
handler gives, and has none there. -/
theorem executeHandler_eq_error_iff (task : ExecutionTask) (handler : Option TaskHandler) :
    executeHandler task handler = .error "" ↔ Silent task handler := by
  cases handler with
  | none => exact iff_of_false nofun id
  | some handler =>
      have hraised (text : String) : textOr (some text) "sandboxed task failed" ≠ "" :=
        textOr_ne_empty (by decide) _
      simp only [executeHandler, sandboxExecute, Silent]
      rcases handler task with (⟨_ | _, _ | (_ | _)⟩ | _ | (_ | _)) | (_ | _) <;>
        simp [normalizeResult, messageText, HandlerOutcome.unread, hraised, bind, Except.bind, pure,
          Except.pure, Functor.map, Except.map]

theorem executeTask_ended (task : ExecutionTask) (handler : Option TaskHandler) :
    Ended (executeTask task handler) := by
  rw [Ended, executeTask_status]
  exact (verdict_eq _ _).imp_right .inl

theorem executeTask_explained_iff (task : ExecutionTask) (handler : Option TaskHandler) :
    Explained (executeTask task handler) ↔ ¬ Silent task.start handler := by
  rw [← executeHandler_eq_error_iff]
  unfold executeTask
  dsimp only
  split
  · rename_i hok
    exact iff_of_true (fun h => absurd rfl h) (by rw [hok]; exact nofun)
  · rename_i hok
    exact iff_of_true (fun _ => ⟨_, rfl, textOr_ne_empty (by decide) _⟩) (by rw [hok]; exact nofun)
  · rename_i hok
    exact iff_of_true (fun h => absurd rfl h) (by rw [hok]; exact nofun)
  · rename_i text herror
    rw [herror, Except.error.injEq]
    constructor
    · intro hexplained
      obtain ⟨_, heq, hne⟩ := hexplained nofun
      exact Option.some.inj heq ▸ hne
    · exact fun hne _ => ⟨text, rfl, hne⟩

theorem skip_ended (task : ExecutionTask) (reason : String) : Ended (task.skip reason) :=
  .inr (.inr rfl)

theorem skip_explained (task : ExecutionTask) {reason : String} (h : reason ≠ "") :
    Explained (task.skip reason) :=
  fun _ => ⟨reason, rfl, h⟩

theorem dependencyFailed_ne_empty (depId : String) : dependencyFailed depId ≠ "" :=
  fun h => absurd (String.append_eq_empty_iff.1 h).1 (by decide)

/-! ### The loop -/

section Loop

variable (stopOnFailure : Bool)

/-- **What one round leaves behind**: the task it was about, ended. -/
theorem runStep_ends (handlers : Dict String TaskHandler) (state : RunState) (task : ExecutionTask)
    (waiting : List ExecutionTask) :
    ∃ ended, (runStep stopOnFailure handlers state task waiting).finished = state.finished ++ [ended]
      ∧ ended.id = task.id ∧ Ended ended := by
  unfold runStep
  dsimp only
  split
  · exact ⟨_, rfl, rfl, skip_ended task _⟩
  · split
    · exact ⟨_, rfl, rfl, skip_ended task _⟩
    · exact ⟨_, rfl, (executeTask_frame task _).1, executeTask_ended task _⟩

variable (handlers : ℕ → Dict String TaskHandler)

/-- `runTasks` with the handlers as they answer in each round. -/
def runTasksAnswering (state : RunState) : List ExecutionTask → RunState
  | [] => state
  | task :: waiting =>
      runTasksAnswering
        (runStep stopOnFailure (handlers state.finished.length) state task waiting) waiting

/-- `run` with the handlers as they answer in each round. -/
def runAnswering (plan : ExecutionPlan) : Run :=
  let state := runTasksAnswering stopOnFailure handlers ⟨[], false, []⟩
    (plan.orderedTasks.map taskNodeToExecutionTask)
  { report := buildReport state.finished, invoked := state.invoked }

/-- `run` is the case of handlers that always answer alike. -/
theorem runAnswering_const (handlers : Dict String TaskHandler) (plan : ExecutionPlan) :
    runAnswering stopOnFailure (fun _ => handlers) plan = run stopOnFailure handlers plan := by
  have htasks : ∀ (waiting : List ExecutionTask) (state : RunState),
      runTasksAnswering stopOnFailure (fun _ => handlers) state waiting
        = runTasks stopOnFailure handlers state waiting := by
    intro waiting
    induction waiting with
    | nil => exact fun _ => rfl
    | cons task waiting ih => exact fun state => ih _
  rw [runAnswering, run, htasks]

/-- A task has ended, and it is the one of the node. -/
def EndedFor (task : ExecutionTask) (node : TaskNode) : Prop := task.id = node.id ∧ Ended task

theorem runTasksAnswering_ended {before : List TaskNode} (after : List TaskNode) {state : RunState}
    (h : List.Forall₂ EndedFor state.finished before) :
    List.Forall₂ EndedFor (runTasksAnswering stopOnFailure handlers state
      (after.map taskNodeToExecutionTask)).finished (before ++ after) := by
  induction after generalizing before state with
  | nil => rwa [List.append_nil]
  | cons node after ih =>
      obtain ⟨ended, hfinished, hid, hended⟩ := runStep_ends stopOnFailure
        (handlers state.finished.length) state (taskNodeToExecutionTask node)
        (after.map taskNodeToExecutionTask)
      rw [List.append_cons]
      refine ih ?_
      rw [hfinished]
      exact paired_concat h ⟨hid, hended⟩

end Loop

/-! ### The report -/

structure Consistent (plan : ExecutionPlan) (report : ExecutionReport) : Prop where
  tasks : report.tasks.map ExecutionTask.id = plan.orderedTasks.map TaskNode.id
  ended : ∀ task ∈ report.tasks, Ended task
  completed : report.completedTasks = report.tasks.countP (·.status = .completed)
  failed : report.failedTasks = report.tasks.countP (·.status = .failed)
  skipped : report.skippedTasks = report.tasks.countP (·.status = .skipped)
  sum : report.completedTasks + report.failedTasks + report.skippedTasks = report.totalTasks
  total : report.totalTasks = plan.orderedTasks.length
  status : report.status
    = if ∀ task ∈ report.tasks, task.status = .completed then .completed else .failed

theorem counts_of_ended {tasks : List ExecutionTask} (h : ∀ task ∈ tasks, Ended task) :
    tasks.countP (·.status = .completed) + tasks.countP (·.status = .failed)
      + tasks.countP (·.status = .skipped) = tasks.length := by
  induction tasks with
  | nil => rfl
  | cons task rest ih =>
      obtain ⟨htask, hrest⟩ := List.forall_mem_cons.1 h
      have hsum := ih hrest
      simp only [List.countP_cons, List.length_cons]
      rcases htask with hstatus | hstatus | hstatus <;> simp [hstatus] <;> omega

/-- The counts decide the status: it is COMPLETED if every task is. -/
theorem buildReport_status {tasks : List ExecutionTask} (h : ∀ task ∈ tasks, Ended task) :
    (buildReport tasks).status
      = if ∀ task ∈ tasks, task.status = .completed then .completed else .failed := by
  have hsum := counts_of_ended h
  have hall : tasks.countP (·.status = .completed) = tasks.length
      ↔ ∀ task ∈ tasks, task.status = .completed := by
    rw [List.countP_eq_length]
    simp only [decide_eq_true_eq]
  rw [← if_congr hall rfl rfl]
  dsimp only [buildReport]
  split
  · rw [if_neg (by omega)]
  · split
    · rw [if_neg (by omega)]
    · rw [if_pos (by omega)]

/-- **The report of a run is consistent**, whatever the plan. -/
theorem runAnswering_consistent (stopOnFailure : Bool) (handlers : ℕ → Dict String TaskHandler)
    (plan : ExecutionPlan) : Consistent plan (runAnswering stopOnFailure handlers plan).report := by
  have hpaired : List.Forall₂ EndedFor
      (runAnswering stopOnFailure handlers plan).report.tasks plan.orderedTasks :=
    @runTasksAnswering_ended stopOnFailure handlers [] plan.orderedTasks ⟨[], false, []⟩ .nil
  have hended : ∀ task ∈ (runAnswering stopOnFailure handlers plan).report.tasks, Ended task := by
    intro task htask
    obtain ⟨_, _, _, hended⟩ := exists_of_mem_left hpaired htask
    exact hended
  exact {
    tasks := map_eq_of_paired hpaired fun _ _ hpair => hpair.1
    ended := hended
    completed := rfl
    failed := rfl
    skipped := rfl
    sum := counts_of_ended hended
    total := hpaired.length_eq
    status := buildReport_status hended }

section Consistent

variable {plan : ExecutionPlan} {report : ExecutionReport}

theorem Consistent.length_eq (h : Consistent plan report) :
    report.tasks.length = report.totalTasks := by
  rw [h.total]
  simpa using congrArg List.length h.tasks

theorem Consistent.status_of_failed (h : Consistent plan report) (hpos : 0 < report.failedTasks) :
    report.status = .failed := by
  rw [h.failed, List.countP_pos_iff] at hpos
  obtain ⟨task, htask, hstatus⟩ := hpos
  rw [h.status, if_neg]
  intro hall
  rw [hall task htask] at hstatus
  cases hstatus

theorem Consistent.status_of_completed (h : Consistent plan report) (hfailed : report.failedTasks = 0)
    (hskipped : report.skippedTasks = 0) : report.status = .completed := by
  have hcount : report.tasks.countP (·.status = .completed) = report.tasks.length := by
    rw [← h.completed, h.length_eq, ← h.sum, hfailed, hskipped]
    rfl
  rw [h.status, if_pos]
  intro task htask
  exact of_decide_eq_true (List.countP_eq_length.1 hcount task htask)

end Consistent

end PersonalDevin.Execution
