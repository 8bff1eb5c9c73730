import PersonalDevin.Execution.Report

/-!
# The rounds of the runner

What a round does to its task is a matter of the plan and of the answers of its handlers: of the rounds
before it only counts which of them have ended COMPLETED. As in the report, ids may repeat and
dependencies may be unknown or stand later.
-/

namespace PersonalDevin.Execution

open Lib
open Planning (TaskNode ExecutionPlan)

/-- A node of a plan, with the handlers as they answer in its round. -/
structure Round where
  node : TaskNode
  handlers : Dict String TaskHandler

/-- The rounds from the `n`-th on. -/
def roundsFrom (handlers : ℕ → Dict String TaskHandler) : ℕ → List TaskNode → List Round
  | _, [] => []
  | n, node :: rest => ⟨node, handlers n⟩ :: roundsFrom handlers (n + 1) rest

namespace Round

def id (round : Round) : String := round.node.id

def task (round : Round) : ExecutionTask := taskNodeToExecutionTask round.node

/-- What comes of the task of the round if it is executed. -/
def outcome (round : Round) : ExecutionStatus :=
  verdict round.task.start (round.handlers.get? round.id)

end Round

theorem map_task_roundsFrom (handlers : ℕ → Dict String TaskHandler) (n : ℕ) (nodes : List TaskNode) :
    (roundsFrom handlers n nodes).map Round.task = nodes.map taskNodeToExecutionTask := by
  induction nodes generalizing n with
  | nil => rfl
  | cons node rest ih => exact congrArg (_ :: ·) (ih (n + 1))

/-- A round that is over, and whether its task has ended COMPLETED. -/
structure Past where
  round : Round
  completed : Bool

/-- The last of the rounds about an id. -/
def lastPast (before : List Past) (id : String) : Option Past :=
  before.reverse.find? fun past => past.round.id = id

/-- After those before it, the round executes its task: with `stop_on_failure` they have all ended
COMPLETED, and of the ids it depends on none stands in it or after it, and each that stands before it
has ended COMPLETED where it stands last. -/
structure Reached (stopOnFailure : Bool) (before : List Past) (round : Round) (after : List Round) :
    Prop where
  running : stopOnFailure = true → ∀ earlier ∈ before, earlier.completed = true
  ordered : ∀ dep ∈ round.node.dependencies, dep ∉ (round :: after).map Round.id
  finished : ∀ dep ∈ round.node.dependencies, ∀ found, lastPast before dep = some found →
    found.completed = true

theorem reached_iff_forall {stopOnFailure : Bool} {before : List Past} {round : Round}
    {after : List Round} :
    Reached stopOnFailure before round after
      ↔ (stopOnFailure = true → ∀ earlier ∈ before, earlier.completed = true)
        ∧ ∀ dep ∈ round.node.dependencies, dep ∉ (round :: after).map Round.id
          ∧ ∀ found ∈ lastPast before dep, found.completed = true := by
  constructor
  · rintro ⟨hrunning, hordered, hfinished⟩
    exact ⟨hrunning, fun dep hdep => ⟨hordered dep hdep, hfinished dep hdep⟩⟩
  · rintro ⟨hrunning, hdeps⟩
    exact ⟨hrunning, fun dep hdep => (hdeps dep hdep).1, fun dep hdep => (hdeps dep hdep).2⟩

instance (stopOnFailure : Bool) (before : List Past) (round : Round) (after : List Round) :
    Decidable (Reached stopOnFailure before round after) :=
  decidable_of_iff _ reached_iff_forall.symm

def Round.over (stopOnFailure : Bool) (before : List Past) (round : Round) (after : List Round) :
    Past where
  round := round
  completed := decide (Reached stopOnFailure before round after ∧ round.outcome = .completed)

/-! ### Looking up a dependency -/

/-- The task is that of the round, and it is COMPLETED if the round says so. -/
structure Past.Left (task : ExecutionTask) (past : Past) : Prop where
  id : task.id = past.round.id
  completed : task.status = .completed ↔ past.completed = true

theorem findTask_of_left {finished : List ExecutionTask} {before : List Past}
    (h : List.Forall₂ Past.Left finished before) (dep : String) :
    Option.Rel Past.Left (findTask finished dep) (lastPast before dep) := by
  have hfind : ∀ {tasks : List ExecutionTask} {pasts : List Past},
      List.Forall₂ Past.Left tasks pasts →
        Option.Rel Past.Left (tasks.find? (·.id = dep)) (pasts.find? (·.round.id = dep)) := by
    intro tasks pasts hpaired
    induction hpaired with
    | nil => exact .none
    | @cons task past _ _ hfirst _ ih =>
        by_cases hid : past.round.id = dep
        · rw [List.find?_cons_of_pos (by simpa [hfirst.id] using hid),
            List.find?_cons_of_pos (by simpa using hid)]
          exact .some hfirst
        · rw [List.find?_cons_of_neg (by simpa [hfirst.id] using hid),
            List.find?_cons_of_neg (by simpa using hid)]
          exact ih
  exact hfind (List.forall₂_reverse_iff.2 h)

theorem findTask_append (tasks later : List ExecutionTask) (dep : String) :
    findTask (tasks ++ later) dep = (findTask later dep).or (findTask tasks dep) := by
  rw [findTask, List.reverse_append, List.find?_append]
  rfl

theorem findTask_eq_none_iff {tasks : List ExecutionTask} {dep : String} :
    findTask tasks dep = none ↔ dep ∉ tasks.map ExecutionTask.id := by
  rw [findTask, List.find?_eq_none]
  simp

/-- A dependency does not block a task: it stands in none of the rounds that are left, and it has ended
COMPLETED where it stands last among those that are over. -/
theorem isBlocking_eq_false_iff {finished : List ExecutionTask} {before : List Past}
    (h : List.Forall₂ Past.Left finished before) (rest : List Round) (dep : String) :
    isBlocking (finished ++ rest.map Round.task) dep = false
      ↔ dep ∉ rest.map Round.id
        ∧ ∀ found, lastPast before dep = some found → found.completed = true := by
  have hids : (rest.map Round.task).map ExecutionTask.id = rest.map Round.id := by
    rw [List.map_map]
    rfl
  have hleft := findTask_of_left h dep
  rcases hrest : findTask (rest.map Round.task) dep with _ | task
  · have hnot : dep ∉ rest.map Round.id := hids ▸ findTask_eq_none_iff.1 hrest
    rw [isBlocking, findTask_append, hrest, Option.none_or]
    generalize findTask finished dep = found, lastPast before dep = past at hleft
    cases hleft with
    | none => exact iff_of_true rfl ⟨hnot, fun _ hsome => by cases hsome⟩
    | some hpast => simp [hpast.completed, hnot]
  · have hmem : task ∈ rest.map Round.task := List.mem_reverse.1 (List.mem_of_find?_eq_some hrest)
    obtain ⟨round, _, rfl⟩ := List.mem_map.1 hmem
    rw [isBlocking, findTask_append, hrest, Option.some_or]
    refine iff_of_false (fun h => absurd h (by simp [Round.task, taskNodeToExecutionTask])) ?_
    rintro ⟨hnot, _⟩
    rw [← hids, ← findTask_eq_none_iff, hrest] at hnot
    cases hnot

/-! ### A round -/

/-- The head of the loop after the rounds that are over. -/
structure Follows (stopOnFailure : Bool) (before : List Past) (state : RunState) : Prop where
  finished : List.Forall₂ Past.Left state.finished before
  halted : state.halted = true
    ↔ stopOnFailure = true ∧ ∃ earlier ∈ before, earlier.completed = false

theorem follows_initial (stopOnFailure : Bool) : Follows stopOnFailure [] ⟨[], false, []⟩ :=
  ⟨.nil, iff_of_false nofun fun ⟨_, _, hmem, _⟩ => absurd hmem List.not_mem_nil⟩

variable {stopOnFailure : Bool} {before : List Past} {state : RunState}

theorem Follows.reached_iff (h : Follows stopOnFailure before state) (round : Round)
    (after : List Round) :
    Reached stopOnFailure before round after ↔ state.halted = false
      ∧ findBlockingDependency (state.finished ++ round.task :: after.map Round.task) round.task
        = none := by
  have hhalted : state.halted = false
      ↔ (stopOnFailure = true → ∀ earlier ∈ before, earlier.completed = true) := by
    rw [← Bool.not_eq_true, h.halted]
    push Not
    simp only [ne_eq, Bool.not_eq_false]
  have hblocking : findBlockingDependency (state.finished ++ round.task :: after.map Round.task)
      round.task = none ↔ ∀ dep ∈ round.node.dependencies, dep ∉ (round :: after).map Round.id
        ∧ ∀ found, lastPast before dep = some found → found.completed = true := by
    rw [findBlockingDependency, List.find?_eq_none]
    refine forall₂_congr fun dep _ => ?_
    rw [Bool.not_eq_true]
    exact isBlocking_eq_false_iff h.finished (round :: after) dep
  rw [hhalted, hblocking, reached_iff_forall]
  rfl

/-- What a round leaves of its task, whether it executes it or skips it. -/
structure Round.Leaves (stopOnFailure : Bool) (before : List Past) (round : Round)
    (after : List Round) (task : ExecutionTask) : Prop where
  skipped : task.status = .skipped ↔ ¬ Reached stopOnFailure before round after
  explained : Explained task ↔ (Reached stopOnFailure before round after →
    ¬ Silent round.task.start (round.handlers.get? round.id))

/-- **What one round does**: it leaves one task, and the flag is up if that task has not ended
COMPLETED. -/
theorem Follows.step (h : Follows stopOnFailure before state) (round : Round) (after : List Round) :
    ∃ task, (runStep stopOnFailure round.handlers state round.task (after.map Round.task)).finished
        = state.finished ++ [task]
      ∧ round.Leaves stopOnFailure before after task
      ∧ Follows stopOnFailure (before ++ [round.over stopOnFailure before after])
        (runStep stopOnFailure round.handlers state round.task (after.map Round.task)) := by
  by_cases hreached : Reached stopOnFailure before round after
  · obtain ⟨hhalted, hblocking⟩ := (h.reached_iff round after).1 hreached
    have hstatus : (executeTask round.task (round.handlers.get? round.task.id)).status
        = round.outcome := executeTask_status _ _
    have hover : (round.over stopOnFailure before after).completed
        = decide (round.outcome = .completed) := by simp [Round.over, hreached]
    simp only [runStep, hhalted, hblocking, Bool.false_eq_true, if_false]
    refine ⟨_, rfl, ⟨iff_of_false (executeTask_status_ne_skipped _ _) (not_not_intro hreached), ?_⟩,
      paired_concat h.finished ⟨(executeTask_frame _ _).1, ?_⟩, ?_⟩
    · rw [executeTask_explained_iff]
      exact ⟨fun hheard _ => hheard, fun hheard => hheard hreached⟩
    · rw [hstatus, hover, decide_eq_true_iff]
    · rw [← Bool.not_eq_true, h.halted] at hhalted
      simp only [hstatus, Bool.and_eq_true, decide_eq_true_eq, List.mem_append, List.mem_singleton,
        or_and_right, exists_or, exists_eq_left, hover, decide_eq_false_iff_not]
      constructor
      · rintro ⟨hfailed, hstop⟩
        exact ⟨hstop, .inr hfailed⟩
      · rintro ⟨hstop, hfailed⟩
        exact ⟨hfailed.resolve_left fun hearlier => hhalted ⟨hstop, hearlier⟩, hstop⟩
  · have hskipped : ∃ reason, reason ≠ "" ∧ ∃ halted, (halted = true ↔ stopOnFailure = true)
        ∧ runStep stopOnFailure round.handlers state round.task (after.map Round.task)
          = { state with finished := state.finished ++ [round.task.skip reason], halted } := by
      rw [h.reached_iff, not_and_or, Bool.not_eq_false] at hreached
      unfold runStep
      dsimp only
      split
      · rename_i hhalted
        refine ⟨_, ?_, true, iff_of_true rfl (h.halted.1 hhalted).1, by rw [← hhalted]⟩
        split
        · exact dependencyFailed_ne_empty _
        · decide
      · rename_i hrunning
        split
        · exact ⟨_, dependencyFailed_ne_empty _, stopOnFailure, Iff.rfl, rfl⟩
        · rename_i hnone
          exact absurd hnone (hreached.resolve_left hrunning)
    have hover : (round.over stopOnFailure before after).completed = false := by
      simp [Round.over, hreached]
    obtain ⟨reason, hreason, halted, hhalted, hstep⟩ := hskipped
    rw [hstep]
    refine ⟨_, rfl, ⟨iff_of_true rfl hreached, ?_⟩, paired_concat h.finished ⟨rfl, ?_⟩, ?_⟩
    · exact iff_of_true (skip_explained _ hreason) fun h => absurd h hreached
    · rw [hover]
      exact iff_of_false (fun h => by cases h) (fun h => by cases h)
    · exact hhalted.trans (iff_self_and.2 fun _ =>
        ⟨_, List.mem_append_right _ (List.mem_singleton_self _), hover⟩)

/-! ### The run -/

/-- What the rounds leave of their tasks, one after the other. -/
inductive EachLeaves (stopOnFailure : Bool) : List Past → List Round → List ExecutionTask → Prop
  | nil {before : List Past} : EachLeaves stopOnFailure before [] []
  | cons {before : List Past} {round : Round} {after : List Round} {task : ExecutionTask}
      {tasks : List ExecutionTask} (hround : round.Leaves stopOnFailure before after task)
      (hrest : EachLeaves stopOnFailure (before ++ [round.over stopOnFailure before after]) after
        tasks) :
      EachLeaves stopOnFailure before (round :: after) (task :: tasks)

/-- **What the rest of a run leaves.** -/
theorem Follows.run (h : Follows stopOnFailure before state) (handlers : ℕ → Dict String TaskHandler)
    (nodes : List TaskNode) :
    ∃ tasks, (runTasksAnswering stopOnFailure handlers state
        (nodes.map taskNodeToExecutionTask)).finished = state.finished ++ tasks
      ∧ EachLeaves stopOnFailure before (roundsFrom handlers before.length nodes) tasks := by
  induction nodes generalizing before state with
  | nil => exact ⟨[], (List.append_nil _).symm, .nil⟩
  | cons node rest ih =>
      let after := roundsFrom handlers (before.length + 1) rest
      obtain ⟨task, hfinished, hleaves, hnext⟩ := h.step ⟨node, handlers before.length⟩ after
      obtain ⟨tasks, hrun, hrest⟩ := ih hnext
      rw [List.length_append, List.length_singleton] at hrest
      refine ⟨task :: tasks, ?_, .cons hleaves hrest⟩
      rw [hfinished, List.append_assoc, List.singleton_append] at hrun
      rw [List.map_cons, runTasksAnswering, h.finished.length_eq, ← hrun, map_task_roundsFrom]
      rfl

theorem eachLeaves_run (stopOnFailure : Bool) (handlers : ℕ → Dict String TaskHandler)
    (plan : ExecutionPlan) :
    EachLeaves stopOnFailure [] (roundsFrom handlers 0 plan.orderedTasks)
      (runAnswering stopOnFailure handlers plan).report.tasks := by
  obtain ⟨tasks, hrun, hleaves⟩ := (follows_initial stopOnFailure).run handlers plan.orderedTasks
  have htasks : (runAnswering stopOnFailure handlers plan).report.tasks = tasks := hrun
  exact htasks ▸ hleaves

end PersonalDevin.Execution
