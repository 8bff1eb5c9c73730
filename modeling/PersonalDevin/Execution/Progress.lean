import PersonalDevin.Lib.Paired
import PersonalDevin.Execution.Runner
import PersonalDevin.Planning.Stability

/-!
# The loop of the runner, in either mode

Because every dependency of a task stands before it, the runner looks at finished tasks only, and a
round does one of three things. What it leaves behind is settled: a skipped task, or what the
executor made of the node. Both stopping modes build on these facts.
-/

namespace PersonalDevin.Execution

open Lib
open Planning (TaskNode ExecutionPlan DependsOn)

/-- The nodes of a plan: distinct ids, and every dependency before its dependents. -/
structure Ordered (nodes : List TaskNode) : Prop where
  nodup : (nodes.map TaskNode.id).Nodup
  dependency_before : ∀ before node after, nodes = before ++ node :: after →
    ∀ dep ∈ node.dependencies, dep ∈ before.map TaskNode.id

/-- What the loop makes of a node: a task with its id and dependencies that was skipped, or that the
executor ran. -/
structure Settled (handlers : Dict String TaskHandler) (task : ExecutionTask) (node : TaskNode) :
    Prop where
  id_eq : task.id = node.id
  dependencies_eq : task.dependencies = node.dependencies
  outcome : task.status = .skipped
    ∨ task = executeTask (taskNodeToExecutionTask node) (handlers.get? node.id)

/-- The ids of the tasks that were executed by a handler. -/
def handledIds (handlers : Dict String TaskHandler) (tasks : List ExecutionTask) : List String :=
  (tasks.filter fun task => task.status ≠ .skipped ∧ (handlers.get? task.id).isSome).map
    ExecutionTask.id

/-- The head of the loop: the nodes `before` are finished, the nodes `after` wait. -/
structure Progress (handlers : Dict String TaskHandler) (nodes : List TaskNode) (state : RunState)
    (waiting : List ExecutionTask) (before after : List TaskNode) : Prop where
  nodes_eq : nodes = before ++ after
  waiting_eq : waiting = after.map taskNodeToExecutionTask
  settled : List.Forall₂ (Settled handlers) state.finished before
  invoked_eq : state.invoked = handledIds handlers state.finished

/-- The reason a halted run gives for skipping a task. -/
def haltReason (tasks : List ExecutionTask) (task : ExecutionTask) : String :=
  match firstUnfinished tasks task with
  | some dep => dependencyFailed dep
  | none => runHalted

section Progress

variable {stopOnFailure : Bool} {handlers : Dict String TaskHandler} {nodes before after : List TaskNode}
  {state : RunState} {task : ExecutionTask} {waiting : List ExecutionTask}

theorem progress_initial (handlers : Dict String TaskHandler) (nodes : List TaskNode) :
    Progress handlers nodes ⟨[], false, []⟩ (nodes.map taskNodeToExecutionTask) [] nodes :=
  ⟨rfl, rfl, .nil, rfl⟩

theorem Progress.settled_all (h : Progress handlers nodes state [] before after) :
    List.Forall₂ (Settled handlers) state.finished nodes := by
  have hafter : after = [] := List.map_eq_nil_iff.1 h.waiting_eq.symm
  have hbefore : nodes = before := by rw [h.nodes_eq, hafter, List.append_nil]
  exact hbefore ▸ h.settled

theorem Progress.map_id (h : Progress handlers nodes state waiting before after) :
    state.finished.map ExecutionTask.id = before.map TaskNode.id :=
  map_eq_of_paired h.settled fun _ _ hsettled => hsettled.id_eq

theorem Progress.map_id_append (h : Progress handlers nodes state waiting before after) :
    (state.finished ++ waiting).map ExecutionTask.id = nodes.map TaskNode.id := by
  rw [List.map_append, h.map_id, h.waiting_eq, h.nodes_eq, List.map_append, List.map_map]
  rfl

theorem Progress.dependencies_finished (hnodes : Ordered nodes)
    (h : Progress handlers nodes state (task :: waiting) before after) :
    ∀ dep ∈ task.dependencies, dep ∈ state.finished.map ExecutionTask.id := by
  intro dep hdep
  obtain ⟨node, rest, hafter, rfl, rfl⟩ := List.map_eq_cons_iff.1 h.waiting_eq.symm
  rw [h.map_id]
  exact hnodes.dependency_before before node rest (hafter ▸ h.nodes_eq) dep hdep

theorem Progress.finished_closed (hnodes : Ordered nodes)
    (h : Progress handlers nodes state waiting before after) :
    ∀ other ∈ state.finished, ∀ dep ∈ other.dependencies,
      dep ∈ state.finished.map ExecutionTask.id := by
  intro other hother dep hdep
  obtain ⟨node, hnode, hsettled⟩ := exists_of_mem_left h.settled hother
  rw [hsettled.dependencies_eq] at hdep
  obtain ⟨first, rest, hsplit⟩ := List.append_of_mem hnode
  have hnodes_eq : nodes = first ++ node :: (rest ++ after) := by
    rw [h.nodes_eq, hsplit, List.append_assoc, List.cons_append]
  rw [h.map_id, hsplit, List.map_append]
  exact List.mem_append_left _ (hnodes.dependency_before _ _ _ hnodes_eq dep hdep)

variable (stopOnFailure) in
/-- **What one round can do**: skip a task of a halted run, skip a task behind an unfinished
dependency, or execute a task whose dependencies are all COMPLETED. -/
theorem Progress.step_cases (hnodes : Ordered nodes)
    (h : Progress handlers nodes state (task :: waiting) before after) :
    (state.halted = true
        ∧ runStep stopOnFailure handlers state task waiting = { state with
          finished := state.finished ++ [task.skip (haltReason state.finished task)] })
      ∨ (state.halted = false ∧ ∃ dep, firstUnfinished state.finished task = some dep
        ∧ runStep stopOnFailure handlers state task waiting = { state with
          finished := state.finished ++ [task.skip (dependencyFailed dep)]
          halted := stopOnFailure })
      ∨ (state.halted = false ∧ firstUnfinished state.finished task = none
        ∧ runStep stopOnFailure handlers state task waiting =
          { finished := state.finished ++ [executeTask task (handlers.get? task.id)]
            halted := (executeTask task (handlers.get? task.id)).status ≠ .completed && stopOnFailure
            invoked := if (handlers.get? task.id).isSome then state.invoked ++ [task.id]
              else state.invoked }) := by
  have hblocking : findBlockingDependency (state.finished ++ task :: waiting) task
      = firstUnfinished state.finished task := by
    refine findBlockingDependency_eq ?_ (h.dependencies_finished hnodes)
    rw [h.map_id_append]
    exact hnodes.nodup
  unfold runStep
  rw [hblocking]
  rcases hhalted : state.halted with _ | _
  · rcases hfirst : firstUnfinished state.finished task with _ | dep
    · exact .inr (.inr ⟨rfl, rfl, rfl⟩)
    · exact .inr (.inl ⟨rfl, dep, rfl, rfl⟩)
  · refine .inl ⟨rfl, ?_⟩
    unfold haltReason
    rfl

theorem handledIds_append (handlers : Dict String TaskHandler) (tasks later : List ExecutionTask) :
    handledIds handlers (tasks ++ later) = handledIds handlers tasks ++ handledIds handlers later := by
  rw [handledIds, List.filter_append, List.map_append]
  rfl

/-- A round that adds one settled task, and its id if a handler ran, is progress. -/
theorem Progress.concat (h : Progress handlers nodes state (task :: waiting) before after)
    {next : RunState} {result : ExecutionTask}
    (hfinished : next.finished = state.finished ++ [result])
    (hinvoked : next.invoked = state.invoked ++ handledIds handlers [result])
    (hresult : ∀ node, task = taskNodeToExecutionTask node → Settled handlers result node) :
    ∃ before' after', Progress handlers nodes next waiting before' after' := by
  obtain ⟨node, rest, hafter, htask, hwaiting⟩ := List.map_eq_cons_iff.1 h.waiting_eq.symm
  refine ⟨before ++ [node], rest, ?_, hwaiting.symm, ?_, ?_⟩
  · rw [h.nodes_eq, hafter, List.append_assoc, List.singleton_append]
  · rw [hfinished]
    exact paired_concat h.settled (hresult node htask.symm)
  · rw [hinvoked, hfinished, handledIds_append, h.invoked_eq]

theorem settled_skip (node : TaskNode) (reason : String) :
    Settled handlers ((taskNodeToExecutionTask node).skip reason) node :=
  ⟨rfl, rfl, .inl rfl⟩

theorem settled_executeTask (node : TaskNode) :
    Settled handlers (executeTask (taskNodeToExecutionTask node) (handlers.get? node.id)) node :=
  ⟨(executeTask_frame _ _).1, (executeTask_frame _ _).2, .inr rfl⟩

theorem handledIds_skip (task : ExecutionTask) (reason : String) :
    handledIds handlers [task.skip reason] = [] := by
  simp [handledIds, ExecutionTask.skip]

theorem handledIds_executeTask (task : ExecutionTask) :
    handledIds handlers [executeTask task (handlers.get? task.id)]
      = if (handlers.get? task.id).isSome then [task.id] else [] := by
  have hstatus := executeTask_status_ne_skipped task (handlers.get? task.id)
  by_cases hhandler : (handlers.get? task.id).isSome
  · simp [handledIds, hstatus, (executeTask_frame task _).1, hhandler]
  · simp [handledIds, hstatus, (executeTask_frame task _).1, hhandler]

variable (stopOnFailure) in
theorem Progress.step (hnodes : Ordered nodes)
    (h : Progress handlers nodes state (task :: waiting) before after) :
    ∃ before' after', Progress handlers nodes (runStep stopOnFailure handlers state task waiting)
      waiting before' after' := by
  rcases h.step_cases stopOnFailure hnodes with
    ⟨_, hnext⟩ | ⟨_, dep, _, hnext⟩ | ⟨_, _, hnext⟩
  · rw [hnext]
    refine h.concat rfl ?_ fun node htask => htask ▸ settled_skip node _
    rw [handledIds_skip, List.append_nil]
  · rw [hnext]
    refine h.concat rfl ?_ fun node htask => htask ▸ settled_skip node _
    rw [handledIds_skip, List.append_nil]
  · rw [hnext]
    refine h.concat rfl ?_ fun node htask => htask ▸ settled_executeTask node
    rw [handledIds_executeTask]
    split
    · rfl
    · rw [List.append_nil]

end Progress

/-! ### The finished tasks of a plan -/

section Finished

variable {handlers : Dict String TaskHandler} {nodes : List TaskNode} {tasks : List ExecutionTask}

theorem Ordered.of_planned {tasks : List TaskNode} {plan : ExecutionPlan}
    (h : Planning.Planned tasks plan) : Ordered plan.orderedTasks where
  nodup := ((h.perm.map TaskNode.id).nodup_iff).2 h.valid.nodup
  dependency_before _ _ _ hsplit _ hdep := h.dependency_before hsplit hdep

theorem status_of_settled (h : List.Forall₂ (Settled handlers) tasks nodes) {task : ExecutionTask}
    (hmem : task ∈ tasks) :
    task.status = .skipped ∨ task.status = .completed ∨ task.status = .failed := by
  obtain ⟨node, _, hsettled⟩ := exists_of_mem_left h hmem
  rcases hsettled.outcome with hskipped | hexecuted
  · exact .inl hskipped
  · rw [hexecuted, executeTask_status]
    exact .inr (verdict_eq _ _)

theorem eq_of_id (hnodes : Ordered nodes) (h : List.Forall₂ (Settled handlers) tasks nodes)
    {s t : ExecutionTask} (hs : s ∈ tasks) (ht : t ∈ tasks) (hid : s.id = t.id) : s = t := by
  apply List.inj_on_of_nodup_map _ hs ht hid
  rw [map_eq_of_paired h fun _ _ hsettled => hsettled.id_eq]
  exact hnodes.nodup

theorem dependsOn_iff (hnodes : Ordered nodes) (h : List.Forall₂ (Settled handlers) tasks nodes)
    {task : ExecutionTask} (hmem : task ∈ tasks) {dep : String} :
    DependsOn nodes task.id dep ↔ dep ∈ task.dependencies := by
  obtain ⟨node, hnode, hsettled⟩ := exists_of_mem_left h hmem
  rw [hsettled.id_eq, hsettled.dependencies_eq]
  constructor
  · rintro ⟨other, hother, hid, hdep⟩
    rwa [List.inj_on_of_nodup_map hnodes.nodup hother hnode hid] at hdep
  · exact fun hdep => ⟨node, hnode, rfl, hdep⟩

theorem handledIds_sublist (h : List.Forall₂ (Settled handlers) tasks nodes) :
    (handledIds handlers tasks).Sublist (nodes.map TaskNode.id) := by
  rw [← map_eq_of_paired h fun _ _ hsettled => hsettled.id_eq]
  exact List.filter_sublist.map ExecutionTask.id

theorem mem_handledIds_iff (hnodes : Ordered nodes)
    (h : List.Forall₂ (Settled handlers) tasks nodes) {task : ExecutionTask} (hmem : task ∈ tasks) :
    task.id ∈ handledIds handlers tasks
      ↔ task.status ≠ .skipped ∧ (handlers.get? task.id).isSome := by
  simp only [handledIds, List.mem_map, List.mem_filter, decide_eq_true_eq]
  constructor
  · rintro ⟨other, ⟨hother, hhandled⟩, hid⟩
    rwa [eq_of_id hnodes h hother hmem hid] at hhandled
  · exact fun hhandled => ⟨task, ⟨hmem, hhandled⟩, rfl⟩

theorem exists_dependency (hnodes : Ordered nodes)
    (h : List.Forall₂ (Settled handlers) tasks nodes) {id dep : String}
    (hdep : DependsOn nodes id dep) : ∃ task ∈ tasks, task.id = dep := by
  obtain ⟨node, hnode, _, hin⟩ := hdep
  obtain ⟨before, after, hsplit⟩ := List.append_of_mem hnode
  obtain ⟨other, hother, hid⟩ := List.mem_map.1 (hnodes.dependency_before _ _ _ hsplit dep hin)
  obtain ⟨task, htask, hsettled⟩ :=
    exists_of_mem_right h (hsplit ▸ List.mem_append_left (node :: after) hother)
  exact ⟨task, htask, hsettled.id_eq.trans hid⟩

end Finished

end PersonalDevin.Execution
