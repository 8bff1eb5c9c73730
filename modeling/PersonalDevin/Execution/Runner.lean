import PersonalDevin.Lib.Dict
import PersonalDevin.Execution.Model
import PersonalDevin.Planning.Planner
import Mathlib.Data.List.Find

/-!
# The runner

`Runner.run` after its deployment step. The tasks are mutable objects that the loop and the index
share, so the loop carries the finished prefix, and a lookup sees it together with the tasks that
still wait. The ids whose handler was called are kept beside the code's own data, in call order.
-/

namespace PersonalDevin.Execution

open Lib
open Planning (TaskNode ExecutionPlan DependsOn)

/-- `task_index.get(dep_id)`: of several tasks with one id the last is indexed. -/
def findTask (tasks : List ExecutionTask) (depId : String) : Option ExecutionTask :=
  tasks.reverse.find? (·.id = depId)

def isBlocking (tasks : List ExecutionTask) (depId : String) : Bool :=
  match findTask tasks depId with
  | some dep => dep.status ≠ .completed
  | none => false

def findBlockingDependency (tasks : List ExecutionTask) (task : ExecutionTask) : Option String :=
  task.dependencies.find? (isBlocking tasks)

def dependencyFailed (depId : String) : String := "dependency_failed:" ++ depId

def runHalted : String := "run_halted_after_failure"

def ExecutionTask.skip (task : ExecutionTask) (reason : String) : ExecutionTask :=
  { task with status := .skipped, skipReason := some reason, error := some reason }

structure RunState where
  finished : List ExecutionTask
  halted : Bool
  invoked : List String

/-- The body of the loop over the tasks. -/
def runStep (stopOnFailure : Bool) (handlers : Dict String TaskHandler) (state : RunState)
    (task : ExecutionTask) (waiting : List ExecutionTask) : RunState :=
  let blockingDep := findBlockingDependency (state.finished ++ task :: waiting) task
  if state.halted then
    let reason := match blockingDep with
      | some dep => dependencyFailed dep
      | none => runHalted
    { state with finished := state.finished ++ [task.skip reason] }
  else
    match blockingDep with
    | some dep =>
        { state with
          finished := state.finished ++ [task.skip (dependencyFailed dep)]
          halted := stopOnFailure }
    | none =>
        let handler := handlers.get? task.id
        let executed := executeTask task handler
        { finished := state.finished ++ [executed]
          halted := executed.status ≠ .completed && stopOnFailure
          invoked := if handler.isSome then state.invoked ++ [task.id] else state.invoked }

def runTasks (stopOnFailure : Bool) (handlers : Dict String TaskHandler) (state : RunState) :
    List ExecutionTask → RunState
  | [] => state
  | task :: waiting =>
      runTasks stopOnFailure handlers (runStep stopOnFailure handlers state task waiting) waiting

structure ExecutionReport where
  tasks : List ExecutionTask
  status : ExecutionStatus
  totalTasks : ℕ
  completedTasks : ℕ
  failedTasks : ℕ
  skippedTasks : ℕ

def buildReport (tasks : List ExecutionTask) : ExecutionReport :=
  let completed := tasks.countP (·.status = .completed)
  let failed := tasks.countP (·.status = .failed)
  let skipped := tasks.countP (·.status = .skipped)
  { tasks
    status :=
      if 0 < failed then .failed
      else if 0 < skipped ∧ completed < tasks.length then .failed
      else .completed
    totalTasks := tasks.length
    completedTasks := completed
    failedTasks := failed
    skippedTasks := skipped }

/-- The report of a run, and the ids whose handler was called. -/
structure Run where
  report : ExecutionReport
  invoked : List String

def run (stopOnFailure : Bool) (handlers : Dict String TaskHandler) (plan : ExecutionPlan) : Run :=
  let state := runTasks stopOnFailure handlers ⟨[], false, []⟩
    (plan.orderedTasks.map taskNodeToExecutionTask)
  { report := buildReport state.finished, invoked := state.invoked }

/-- What every round of the loop keeps holds when the loop ends. -/
theorem runTasks_induction (stopOnFailure : Bool) (handlers : Dict String TaskHandler)
    {Inv : RunState → List ExecutionTask → Prop}
    (hstep : ∀ state task waiting, Inv state (task :: waiting) →
      Inv (runStep stopOnFailure handlers state task waiting) waiting)
    {state : RunState} {waiting : List ExecutionTask} (h : Inv state waiting) :
    Inv (runTasks stopOnFailure handlers state waiting) [] := by
  induction waiting generalizing state with
  | nil => exact h
  | cons task waiting ih => exact ih (hstep state task waiting h)

/-! ### Looking up a dependency -/

/-- A task with the id has not ended COMPLETED. -/
def Unfinished (tasks : List ExecutionTask) (depId : String) : Prop :=
  ∃ dep ∈ tasks, dep.id = depId ∧ dep.status ≠ .completed

instance (tasks : List ExecutionTask) (depId : String) : Decidable (Unfinished tasks depId) :=
  inferInstanceAs (Decidable (∃ dep ∈ tasks, dep.id = depId ∧ dep.status ≠ .completed))

theorem findTask_eq_some_iff {tasks : List ExecutionTask}
    (hnodup : (tasks.map ExecutionTask.id).Nodup) {depId : String} {dep : ExecutionTask} :
    findTask tasks depId = some dep ↔ dep ∈ tasks ∧ dep.id = depId := by
  constructor
  · intro hfind
    exact ⟨List.mem_reverse.1 (List.mem_of_find?_eq_some hfind), by
      simpa using List.find?_some hfind⟩
  · rintro ⟨hmem, rfl⟩
    rcases hfind : findTask tasks dep.id with _ | other
    · have hnot := List.find?_eq_none.1 hfind dep (List.mem_reverse.2 hmem)
      simp at hnot
    · have hother : other ∈ tasks := List.mem_reverse.1 (List.mem_of_find?_eq_some hfind)
      have hid : other.id = dep.id := by simpa using List.find?_some hfind
      rw [List.inj_on_of_nodup_map hnodup hother hmem hid]

theorem isBlocking_iff {tasks : List ExecutionTask} (hnodup : (tasks.map ExecutionTask.id).Nodup)
    {depId : String} : isBlocking tasks depId = true ↔ Unfinished tasks depId := by
  rw [isBlocking]
  constructor
  · intro hblocking
    split at hblocking
    · rename_i dep hfind
      obtain ⟨hmem, hid⟩ := (findTask_eq_some_iff hnodup).1 hfind
      exact ⟨dep, hmem, hid, of_decide_eq_true hblocking⟩
    · cases hblocking
  · rintro ⟨dep, hmem, hid, hstatus⟩
    rw [(findTask_eq_some_iff hnodup).2 ⟨hmem, hid⟩]
    exact decide_eq_true hstatus

theorem unfinished_append {tasks later : List ExecutionTask}
    (hnodup : ((tasks ++ later).map ExecutionTask.id).Nodup) {depId : String}
    (hmem : depId ∈ tasks.map ExecutionTask.id) :
    Unfinished (tasks ++ later) depId ↔ Unfinished tasks depId := by
  constructor
  · rintro ⟨dep, hin, rfl, hstatus⟩
    rcases List.mem_append.1 hin with hearly | hlate
    · exact ⟨dep, hearly, rfl, hstatus⟩
    · rw [List.map_append, List.nodup_append] at hnodup
      exact absurd rfl (hnodup.2.2 _ hmem _ (List.mem_map_of_mem hlate))
  · rintro ⟨dep, hin, hid, hstatus⟩
    exact ⟨dep, List.mem_append_left later hin, hid, hstatus⟩

/-- The first dependency of a task that is not COMPLETED. -/
def firstUnfinished (tasks : List ExecutionTask) (task : ExecutionTask) : Option String :=
  task.dependencies.find? fun dep => Unfinished tasks dep

/-- When the dependencies of a task are finished tasks, the runner looks at these only. -/
theorem findBlockingDependency_eq {tasks later : List ExecutionTask} {task : ExecutionTask}
    (hnodup : ((tasks ++ later).map ExecutionTask.id).Nodup)
    (hdeps : ∀ dep ∈ task.dependencies, dep ∈ tasks.map ExecutionTask.id) :
    findBlockingDependency (tasks ++ later) task = firstUnfinished tasks task := by
  apply List.find?_congr
  intro dep hdep
  rw [Bool.eq_iff_iff, isBlocking_iff hnodup, unfinished_append hnodup (hdeps dep hdep),
    decide_eq_true_iff]

theorem firstUnfinished_append {tasks later : List ExecutionTask} {task : ExecutionTask}
    (hnodup : ((tasks ++ later).map ExecutionTask.id).Nodup)
    (hdeps : ∀ dep ∈ task.dependencies, dep ∈ tasks.map ExecutionTask.id) :
    firstUnfinished (tasks ++ later) task = firstUnfinished tasks task := by
  apply List.find?_congr
  intro dep hdep
  rw [decide_eq_decide, unfinished_append hnodup (hdeps dep hdep)]

end PersonalDevin.Execution
