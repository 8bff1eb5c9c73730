import PersonalDevin.Execution.Progress

/-!
# A run that stops at the first failure

With `stop_on_failure` the flag `halted` is raised by the first failed task and by nothing else: as
long as it is down, everything finished is COMPLETED, so no dependency can block. After it, every
task is skipped, and its reason is read off the tasks finished by then, which are all it depends on.
-/

namespace PersonalDevin.Execution

open Lib
open Planning (TaskNode ExecutionPlan buildExecutionPlan)

/-- One task failed, the tasks before it are COMPLETED and those after it were skipped. -/
def HaltedAt (tasks : List ExecutionTask) : Prop :=
  ∃ before failed after, tasks = before ++ failed :: after
    ∧ (∀ task ∈ before, task.status = .completed)
    ∧ failed.status = .failed
    ∧ ∀ task ∈ after, task.status = .skipped ∧ task.skipReason = some (haltReason tasks task)
      ∧ task.error = some (haltReason tasks task)

/-- The invariant of the loop. -/
structure Halting (handlers : Dict String TaskHandler) (nodes : List TaskNode)
    (state : RunState) (waiting : List ExecutionTask) : Prop where
  progress : ∃ before after, Progress handlers nodes state waiting before after
  shape : (state.halted = false ∧ ∀ task ∈ state.finished, task.status = .completed)
    ∨ (state.halted = true ∧ HaltedAt state.finished)

variable {handlers : Dict String TaskHandler} {nodes : List TaskNode}

theorem haltReason_append {tasks later : List ExecutionTask}
    (hnodup : ((tasks ++ later).map ExecutionTask.id).Nodup) (task : ExecutionTask)
    (hdeps : ∀ dep ∈ task.dependencies, dep ∈ tasks.map ExecutionTask.id) :
    haltReason (tasks ++ later) task = haltReason tasks task := by
  rw [haltReason, haltReason, firstUnfinished_append hnodup hdeps]

theorem HaltedAt.concat {tasks : List ExecutionTask} (h : HaltedAt tasks) {task : ExecutionTask}
    (hnodup : ((tasks ++ [task]).map ExecutionTask.id).Nodup)
    (hclosed : ∀ other ∈ tasks, ∀ dep ∈ other.dependencies, dep ∈ tasks.map ExecutionTask.id)
    (hdeps : ∀ dep ∈ task.dependencies, dep ∈ tasks.map ExecutionTask.id) :
    HaltedAt (tasks ++ [task.skip (haltReason tasks task)]) := by
  obtain ⟨before, failed, after, hsplit, hbefore, hfailed, hafter⟩ := h
  have hnodup' : ((tasks ++ [task.skip (haltReason tasks task)]).map ExecutionTask.id).Nodup := by
    rw [List.map_append] at hnodup ⊢
    exact hnodup
  refine ⟨before, failed, after ++ [task.skip (haltReason tasks task)], ?_, hbefore, hfailed, ?_⟩
  · rw [hsplit, List.append_assoc, List.cons_append]
  · intro other hother
    rcases List.mem_append.1 hother with hold | hnew
    · have hmem : other ∈ tasks := hsplit ▸ List.mem_append_right before (.tail failed hold)
      rw [haltReason_append hnodup' other (hclosed other hmem)]
      exact hafter other hold
    · obtain rfl := List.mem_singleton.1 hnew
      rw [haltReason_append hnodup' (task.skip _) hdeps]
      exact ⟨rfl, rfl, rfl⟩

theorem Halting.step (hnodes : Ordered nodes) {state : RunState} {task : ExecutionTask}
    {waiting : List ExecutionTask} (h : Halting handlers nodes state (task :: waiting)) :
    Halting handlers nodes (runStep true handlers state task waiting) waiting := by
  obtain ⟨before, after, hprogress⟩ := h.progress
  refine ⟨hprogress.step true hnodes, ?_⟩
  rcases hprogress.step_cases true hnodes with
    ⟨hhalted, hstep⟩ | ⟨hhalted, dep, hfirst, _⟩ | ⟨hhalted, _, hstep⟩
  · rcases h.shape with ⟨hrunning, _⟩ | ⟨_, hat⟩
    · rw [hhalted] at hrunning
      cases hrunning
    · rw [hstep]
      have hnodup : ((state.finished ++ task :: waiting).map ExecutionTask.id).Nodup := by
        rw [hprogress.map_id_append]
        exact hnodes.nodup
      refine .inr ⟨hhalted, hat.concat ?_ (hprogress.finished_closed hnodes)
        (hprogress.dependencies_finished hnodes)⟩
      refine hnodup.sublist (List.Sublist.map _ ?_)
      exact (List.Sublist.refl _).append (List.singleton_sublist.2 List.mem_cons_self)
  · -- a blocking dependency would be a finished task that is not COMPLETED
    rcases h.shape with ⟨_, hcompleted⟩ | ⟨hrunning, _⟩
    · have hunfinished : Unfinished state.finished dep := by simpa using List.find?_some hfirst
      obtain ⟨other, hmem, _, hstatus⟩ := hunfinished
      exact absurd (hcompleted other hmem) hstatus
    · rw [hhalted] at hrunning
      cases hrunning
  · rcases h.shape with ⟨_, hcompleted⟩ | ⟨hrunning, _⟩
    · rw [hstep]
      rcases verdict_eq task.start (handlers.get? task.id) with hverdict | hverdict
      · refine .inl ⟨by simp [executeTask_status, hverdict], fun other hother => ?_⟩
        rcases List.mem_append.1 hother with hold | hnew
        · exact hcompleted other hold
        · rw [List.mem_singleton.1 hnew, executeTask_status, hverdict]
      · refine .inr ⟨by simp [executeTask_status, hverdict], state.finished, _, [], rfl, hcompleted,
          ?_, fun _ hmem => absurd hmem List.not_mem_nil⟩
        rw [executeTask_status, hverdict]
    · rw [hhalted] at hrunning
      cases hrunning

/-- What a run with `stop_on_failure` promises about its final tasks and its handler calls. -/
structure HaltOutcome (plan : ExecutionPlan) (tasks : List ExecutionTask) (invoked : List String) :
    Prop where
  ids : tasks.map ExecutionTask.id = plan.orderedTasks.map TaskNode.id
  outcome : (∀ task ∈ tasks, task.status = .completed)
    ∨ ∃ before failed after, tasks = before ++ failed :: after
      ∧ (∀ task ∈ before, task.status = .completed)
      ∧ failed.status = .failed
      ∧ ∀ task ∈ after, task.status = .skipped ∧ task.id ∉ invoked
        ∧ task.skipReason = some (haltReason tasks task)
        ∧ task.error = some (haltReason tasks task)

/-- **A run that stops on failure completes everything, or everything before one failed task and
skips the rest.** -/
theorem run_halt {rawTasks : List Value} {plan : ExecutionPlan}
    (h : buildExecutionPlan rawTasks = .ok plan) (handlers : Dict String TaskHandler) :
    HaltOutcome plan (run true handlers plan).report.tasks (run true handlers plan).invoked := by
  obtain ⟨tasks, _, hplanned⟩ := Planning.planned_of_buildExecutionPlan h
  have hnodes := Ordered.of_planned hplanned
  obtain ⟨⟨before, after, hprogress⟩, hshape⟩ := runTasks_induction true handlers
    (fun _ _ _ hhalting => Halting.step hnodes hhalting)
    ⟨⟨[], _, progress_initial handlers plan.orderedTasks⟩,
      .inl ⟨rfl, fun _ hmem => absurd hmem List.not_mem_nil⟩⟩
  have hsettled := hprogress.settled_all
  refine ⟨map_eq_of_paired hsettled fun _ _ h => h.id_eq, ?_⟩
  rcases hshape with ⟨_, hcompleted⟩ | ⟨_, before, failed, after, hsplit, hbefore, hfailed, hafter⟩
  · exact .inl hcompleted
  · refine .inr ⟨before, failed, after, hsplit, hbefore, hfailed, fun task hmem => ?_⟩
    obtain ⟨hskipped, hreason, herror⟩ := hafter task hmem
    refine ⟨hskipped, fun hinvoked => ?_, hreason, herror⟩
    have hin : task ∈ (run true handlers plan).report.tasks := by
      show task ∈ (runTasks true handlers ⟨[], false, []⟩ _).finished
      rw [hsplit]
      exact List.mem_append_right before (.tail failed hmem)
    have heq : (run true handlers plan).invoked
        = handledIds handlers (run true handlers plan).report.tasks := hprogress.invoked_eq
    rw [heq] at hinvoked
    exact ((mem_handledIds_iff hnodes hsettled hin).1 hinvoked).1 hskipped

/-- After the failing `a`, `b` depends on it and `c` does not. -/
theorem run_halt_chain :
    HaltOutcome
      ⟨[Planning.plainTask "a" [], Planning.plainTask "c" [], Planning.plainTask "b" ["a"]],
        [⟨0, ["a", "c"]⟩, ⟨1, ["b"]⟩], ⟨3, false⟩⟩
      [⟨"a", "step", [], .failed, none, some "boom", none⟩,
        ⟨"c", "step", [], .skipped, none, some "run_halted_after_failure",
          some "run_halted_after_failure"⟩,
        ⟨"b", "step", ["a"], .skipped, none, some "dependency_failed:a",
          some "dependency_failed:a"⟩] ["a"] :=
  run_halt (show buildExecutionPlan [Planning.rawTask "a" [], Planning.rawTask "b" ["a"],
    Planning.rawTask "c" []] = .ok _ by rfl) ⟨[("a", fun _ => .raised (.ok "boom"))], by decide⟩

end PersonalDevin.Execution
