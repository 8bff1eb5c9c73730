import PersonalDevin.Execution.Progress

/-!
# A run that continues after failures

Without `stop_on_failure` the runner only looks at the direct dependencies of a task, as the loop has
left them. Along the dependency relation, which has no cycles, this adds up: a task is skipped
exactly when a failed task lies somewhere below it, and the reasons of the skipped tasks lead there.
-/

namespace PersonalDevin.Execution

open Lib Relation
open Planning (TaskNode ExecutionPlan DependsOn buildExecutionPlan)

/-- Why a finished task has the status it has: an unfinished dependency, which its reason names, or
dependencies that are all COMPLETED. -/
def Justified (tasks : List ExecutionTask) (task : ExecutionTask) : Prop :=
  (task.status = .skipped ∧ ∃ dep ∈ task.dependencies, Unfinished tasks dep
      ∧ task.skipReason = some (dependencyFailed dep))
    ∨ (task.status ≠ .skipped ∧ ∀ dep ∈ task.dependencies,
      ∃ other ∈ tasks, other.id = dep ∧ other.status = .completed)

theorem Justified.append {tasks : List ExecutionTask} {task : ExecutionTask}
    (h : Justified tasks task) (later : List ExecutionTask) : Justified (tasks ++ later) task := by
  rcases h with ⟨hskipped, dep, hdep, ⟨other, hmem, hother⟩, hreason⟩ | ⟨hstatus, hcompleted⟩
  · exact .inl ⟨hskipped, dep, hdep, ⟨other, List.mem_append_left later hmem, hother⟩, hreason⟩
  · refine .inr ⟨hstatus, fun dep hdep => ?_⟩
    obtain ⟨other, hmem, hother⟩ := hcompleted dep hdep
    exact ⟨other, List.mem_append_left later hmem, hother⟩

structure Continuing (handlers : Dict String TaskHandler) (nodes : List TaskNode)
    (state : RunState) (waiting : List ExecutionTask) : Prop where
  progress : ∃ before after, Progress handlers nodes state waiting before after
  not_halted : state.halted = false
  justified : ∀ task ∈ state.finished, Justified state.finished task

section Run

variable {handlers : Dict String TaskHandler} {nodes : List TaskNode}

theorem Continuing.concat {state next : RunState} {waiting : List ExecutionTask}
    {result : ExecutionTask} (hjustified : ∀ task ∈ state.finished, Justified state.finished task)
    (hprogress : ∃ before after, Progress handlers nodes next waiting before after)
    (hhalted : next.halted = false) (hfinished : next.finished = state.finished ++ [result])
    (hresult : Justified state.finished result) : Continuing handlers nodes next waiting where
  progress := hprogress
  not_halted := hhalted
  justified task hmem := by
    rw [hfinished] at hmem ⊢
    rcases List.mem_append.1 hmem with hold | hnew
    · exact (hjustified task hold).append [result]
    · rw [List.mem_singleton.1 hnew]
      exact hresult.append [result]

theorem Continuing.step (hnodes : Ordered nodes) {state : RunState} {task : ExecutionTask}
    {waiting : List ExecutionTask} (h : Continuing handlers nodes state (task :: waiting)) :
    Continuing handlers nodes (runStep false handlers state task waiting) waiting := by
  obtain ⟨before, after, hprogress⟩ := h.progress
  have hnext := hprogress.step false hnodes
  rcases hprogress.step_cases false hnodes with
    ⟨hhalted, _⟩ | ⟨_, dep, hfirst, hstep⟩ | ⟨_, hfirst, hstep⟩
  · rw [h.not_halted] at hhalted
    cases hhalted
  · rw [hstep] at hnext ⊢
    refine .concat h.justified hnext rfl rfl (.inl ⟨rfl, dep, ?_, ?_, rfl⟩)
    · exact List.mem_of_find?_eq_some hfirst
    · simpa using List.find?_some hfirst
  · rw [hstep] at hnext ⊢
    refine .concat h.justified hnext (Bool.and_false _) rfl (.inr ?_)
    refine ⟨executeTask_status_ne_skipped task _, fun dep hdep => ?_⟩
    rw [(executeTask_frame task _).2] at hdep
    obtain ⟨other, hmem, hid⟩ := List.mem_map.1 (hprogress.dependencies_finished hnodes dep hdep)
    refine ⟨other, hmem, hid, ?_⟩
    by_contra hstatus
    have hnone := List.find?_eq_none.1 hfirst dep hdep
    exact hnone (decide_eq_true ⟨other, hmem, hid, hstatus⟩)

variable (handlers) in
theorem continuing_run {plan : ExecutionPlan} (hnodes : Ordered plan.orderedTasks) :
    Continuing handlers plan.orderedTasks (runTasks false handlers ⟨[], false, []⟩
      (plan.orderedTasks.map taskNodeToExecutionTask)) [] :=
  runTasks_induction false handlers (fun _ _ _ h => h.step hnodes)
    { progress := ⟨[], _, progress_initial handlers plan.orderedTasks⟩
      not_halted := rfl
      justified := fun _ hmem => absurd hmem List.not_mem_nil }

end Run

/-! ### Transitive dependencies -/

/-- Following the reasons `dependency_failed:<id>` from a skipped task, through skipped tasks, ends
at a failed task. -/
inductive SkipChain (tasks : List ExecutionTask) : ExecutionTask → Prop
  | failed {task dep : ExecutionTask} (hskipped : task.status = .skipped)
      (hreason : task.skipReason = some (dependencyFailed dep.id)) (hmem : dep ∈ tasks)
      (hfailed : dep.status = .failed) : SkipChain tasks task
  | skipped {task dep : ExecutionTask} (hskipped : task.status = .skipped)
      (hreason : task.skipReason = some (dependencyFailed dep.id)) (hmem : dep ∈ tasks)
      (rest : SkipChain tasks dep) : SkipChain tasks task

section Transitive

variable {handlers : Dict String TaskHandler} {nodes : List TaskNode} {tasks : List ExecutionTask}
  (hnodes : Ordered nodes) (hsettled : List.Forall₂ (Settled handlers) tasks nodes)
  (hjustified : ∀ task ∈ tasks, Justified tasks task)
include hnodes hsettled hjustified

theorem skipped_of_unfinished {task other : ExecutionTask} (hmem : task ∈ tasks)
    (hother : other ∈ tasks) (hdep : DependsOn nodes task.id other.id)
    (hstatus : other.status ≠ .completed) : task.status = .skipped := by
  rcases hjustified task hmem with ⟨hskipped, _⟩ | ⟨_, hcompleted⟩
  · exact hskipped
  · obtain ⟨twin, htwin, hid, hdone⟩ :=
      hcompleted other.id ((dependsOn_iff hnodes hsettled hmem).1 hdep)
    rw [eq_of_id hnodes hsettled htwin hother hid] at hdone
    exact absurd hdone hstatus

/-- A failed task below skips everything above. -/
theorem skipped_of_failed {id : String} {failed : ExecutionTask} (hfailed : failed ∈ tasks)
    (hstatus : failed.status = .failed) (hpath : TransGen (DependsOn nodes) id failed.id) :
    ∀ task ∈ tasks, task.id = id → task.status = .skipped := by
  induction hpath using TransGen.head_induction_on with
  | single hdep =>
      rintro task hmem rfl
      apply skipped_of_unfinished hnodes hsettled hjustified hmem hfailed hdep
      rw [hstatus]
      decide
  | head hdep _ ih =>
      rintro task hmem rfl
      obtain ⟨other, hother, rfl⟩ := exists_dependency hnodes hsettled hdep
      apply skipped_of_unfinished hnodes hsettled hjustified hmem hother hdep
      rw [ih other hother rfl]
      decide

/-- A skipped task has a failed task below, and its reasons lead to one. The induction is along the
dependencies. -/
theorem failed_below_of_skipped (hacyclic : Acyclic (DependsOn nodes)) {task : ExecutionTask}
    (hmem : task ∈ tasks) (hskipped : task.status = .skipped) :
    SkipChain tasks task ∧ ∃ failed ∈ tasks, failed.status = .failed
      ∧ TransGen (DependsOn nodes) task.id failed.id := by
  have hwf := hacyclic.wellFoundedOn (List.finite_toSet (tasks.map ExecutionTask.id))
  have hall : ∀ task ∈ tasks, task.id ∈ {id | id ∈ tasks.map ExecutionTask.id} :=
    fun _ hmem => List.mem_map_of_mem hmem
  suffices h : ∀ other ∈ tasks, other.id = task.id → other.status = .skipped →
      SkipChain tasks other ∧ ∃ failed ∈ tasks, failed.status = .failed
        ∧ TransGen (DependsOn nodes) other.id failed.id from h task hmem rfl hskipped
  refine hwf.induction (P := fun id => ∀ other ∈ tasks, other.id = id → other.status = .skipped →
    SkipChain tasks other ∧ ∃ failed ∈ tasks, failed.status = .failed
      ∧ TransGen (DependsOn nodes) other.id failed.id) (hall task hmem) ?_
  rintro _ - ih other hother rfl hskipped
  rcases hjustified other hother with
    ⟨_, dep, hdep, ⟨below, hbelow, rfl, hstatus⟩, hreason⟩ | ⟨hnot, _⟩
  · have hedge := (dependsOn_iff hnodes hsettled hother).2 hdep
    rcases status_of_settled hsettled hbelow with hbelowSkipped | hcompleted | hfailed
    · obtain ⟨hchain, failed, hfailed, hfailedStatus, hpath⟩ :=
        ih below.id (hall below hbelow) (.single hedge) below hbelow rfl hbelowSkipped
      exact ⟨.skipped hskipped hreason hbelow hchain, failed, hfailed, hfailedStatus,
        .head hedge hpath⟩
    · exact absurd hcompleted hstatus
    · exact ⟨.failed hskipped hreason hbelow hfailed, below, hbelow, hfailed, .single hedge⟩
  · exact absurd hskipped hnot

end Transitive

/-! ### The outcome of a run -/

/-- What a run without `stop_on_failure` promises about its final tasks and its handler calls. -/
structure ContinueOutcome (handlers : Dict String TaskHandler) (plan : ExecutionPlan)
    (tasks : List ExecutionTask) (invoked : List String) : Prop where
  ids : tasks.map ExecutionTask.id = plan.orderedTasks.map TaskNode.id
  invoked_once : invoked.Nodup
  invoked_in_order : invoked.Sublist (plan.orderedTasks.map TaskNode.id)
  invoked_iff : ∀ task ∈ tasks, task.id ∈ invoked
    ↔ task.status ≠ .skipped ∧ (handlers.get? task.id).isSome
  skipped_iff : ∀ task ∈ tasks, task.status = .skipped
    ↔ ∃ failed ∈ tasks, failed.status = .failed
      ∧ TransGen (DependsOn plan.orderedTasks) task.id failed.id
  executed : ∀ task ∈ tasks, task.status ≠ .skipped →
    ∃ node ∈ plan.orderedTasks, task.id = node.id
      ∧ task.status = verdict (taskNodeToExecutionTask node).start (handlers.get? node.id)
      ∧ (task.status = .completed ∨ task.status = .failed)
  skip_chain : ∀ task ∈ tasks, task.status = .skipped → SkipChain tasks task

theorem executed_of_settled {handlers : Dict String TaskHandler} {nodes : List TaskNode}
    {tasks : List ExecutionTask} (h : List.Forall₂ (Settled handlers) tasks nodes)
    {task : ExecutionTask} (hmem : task ∈ tasks) (hstatus : task.status ≠ .skipped) :
    ∃ node ∈ nodes, task.id = node.id
      ∧ task.status = verdict (taskNodeToExecutionTask node).start (handlers.get? node.id)
      ∧ (task.status = .completed ∨ task.status = .failed) := by
  obtain ⟨node, hnode, hsettled⟩ := exists_of_mem_left h hmem
  have hverdict : task.status
      = verdict (taskNodeToExecutionTask node).start (handlers.get? node.id) := by
    rw [hsettled.outcome.resolve_left hstatus, executeTask_status]
  exact ⟨node, hnode, hsettled.id_eq, hverdict, hverdict ▸ verdict_eq _ _⟩

/-- **A run that continues after failures skips exactly what lies above a failed task.** -/
theorem run_continue {rawTasks : List Value} {plan : ExecutionPlan}
    (h : buildExecutionPlan rawTasks = .ok plan) (handlers : Dict String TaskHandler) :
    ContinueOutcome handlers plan (run false handlers plan).report.tasks
      (run false handlers plan).invoked := by
  obtain ⟨tasks, _, hplanned⟩ := Planning.planned_of_buildExecutionPlan h
  have hnodes := Ordered.of_planned hplanned
  have hacyclic : Acyclic (DependsOn plan.orderedTasks) := by
    have heq : DependsOn plan.orderedTasks = DependsOn tasks := by
      funext a b
      exact propext (Planning.dependsOn_of_perm hplanned.perm)
    exact heq ▸ hplanned.acyclic
  obtain ⟨⟨before, after, hprogress⟩, _, hjustified⟩ :=
    continuing_run handlers hnodes
  have hsettled := hprogress.settled_all
  have hinvoked : (run false handlers plan).invoked
      = handledIds handlers (run false handlers plan).report.tasks := hprogress.invoked_eq
  have hsublist := handledIds_sublist hsettled
  constructor
  · exact map_eq_of_paired hsettled fun _ _ h => h.id_eq
  · rw [hinvoked]
    exact hsublist.nodup hnodes.nodup
  · rw [hinvoked]
    exact hsublist
  · intro task hmem
    rw [hinvoked]
    exact mem_handledIds_iff hnodes hsettled hmem
  · intro task hmem
    constructor
    · exact fun hskipped =>
        (failed_below_of_skipped hnodes hsettled hjustified hacyclic hmem hskipped).2
    · rintro ⟨failed, hfailed, hstatus, hpath⟩
      exact skipped_of_failed hnodes hsettled hjustified hfailed hstatus hpath task hmem rfl
  · exact fun task hmem hstatus => executed_of_settled hsettled hmem hstatus
  · exact fun task hmem hskipped =>
      (failed_below_of_skipped hnodes hsettled hjustified hacyclic hmem hskipped).1

/-- In `c` after `b` after `a`, a failing `a` skips both others, and no handler of theirs runs. -/
theorem run_continue_chain :
    ContinueOutcome ⟨[("a", fun _ => .raised (.ok "boom"))], by decide⟩
      ⟨[Planning.plainTask "a" [], Planning.plainTask "b" ["a"], Planning.plainTask "c" ["b"]],
        [⟨0, ["a"]⟩, ⟨1, ["b"]⟩, ⟨2, ["c"]⟩], ⟨3, false⟩⟩
      [⟨"a", "step", [], .failed, none, some "boom", none⟩,
        ⟨"b", "step", ["a"], .skipped, none, some "dependency_failed:a",
          some "dependency_failed:a"⟩,
        ⟨"c", "step", ["b"], .skipped, none, some "dependency_failed:b",
          some "dependency_failed:b"⟩] ["a"] :=
  run_continue (show buildExecutionPlan [Planning.rawTask "a" [], Planning.rawTask "b" ["a"],
    Planning.rawTask "c" ["b"]] = .ok _ by rfl) _

end PersonalDevin.Execution
