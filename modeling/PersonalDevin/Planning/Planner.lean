import PersonalDevin.Planning.Levels
import Mathlib.Data.List.Perm.Basic

/-!
# The planner

`_PlanningEngine.build_plan` and `build_execution_plan`, the public entry point, without an
environment context: the injection of environment metadata touches neither ids nor dependencies. The
planner accepts a validated list exactly when its dependency relation has no cycle and no dependency
list repeats an id, and what it returns are the levels of the relation.
-/

namespace PersonalDevin.Planning

open Lib

structure ExecutionGroup where
  groupId : ℕ
  taskIds : List String

structure PlanMetadata where
  totalTasks : ℕ
  hasCycles : Bool

structure ExecutionPlan where
  orderedTasks : List TaskNode
  executionGroups : List ExecutionGroup
  metadata : PlanMetadata

/-- `[graph.nodes[task_id] for task_id in ordered_ids]`. -/
def nodesOf (nodes : Dict String TaskNode) : List String → Except PlanError (List TaskNode)
  | [] => .ok []
  | id :: rest =>
      match nodes.get? id with
      | none => .error (.missingKey id)
      | some node =>
          match nodesOf nodes rest with
          | .error e => .error e
          | .ok tail => .ok (node :: tail)

/-- `[ExecutionGroup(group_id=index, task_ids=task_ids) for index, task_ids in enumerate(...)]`. -/
def groupsOf (groupedIds : List (List String)) : List ExecutionGroup :=
  groupedIds.mapIdx fun index taskIds => ⟨index, taskIds⟩

theorem map_taskIds_groupsOf (groups : List (List String)) :
    (groupsOf groups).map ExecutionGroup.taskIds = groups := by
  apply List.ext_getElem?
  intro k
  rw [groupsOf, List.getElem?_map, List.getElem?_mapIdx, Option.map_map]
  exact Option.map_id_apply

def buildPlan (tasks : List TaskNode) : Except PlanError ExecutionPlan := do
  validate tasks
  let graph ← DependencyGraph.build tasks
  let (orderedIds, groupedIds) ← graph.traverseLevels
  let orderedTasks ← nodesOf graph.nodes orderedIds
  return { orderedTasks
           executionGroups := groupsOf groupedIds
           metadata := { totalTasks := tasks.length, hasCycles := false } }

def buildExecutionPlan (rawTasks : List Value) : Except PlanError ExecutionPlan := do
  let nodes ← normalizeTasks rawTasks
  buildPlan nodes

/-! ### What a plan is -/

/-- The plan of a task list: its tasks in the order of the levels, and the levels as groups. -/
structure Planned (tasks : List TaskNode) (plan : ExecutionPlan) : Prop where
  valid : ValidTasks tasks
  acyclic : Acyclic (DependsOn tasks)
  duplicateFree : DuplicateFree tasks
  perm : plan.orderedTasks.Perm tasks
  leveled : ∃ groups, Leveled tasks (plan.orderedTasks.map TaskNode.id) groups
    ∧ plan.executionGroups = groupsOf groups
  metadata : plan.metadata = { totalTasks := tasks.length, hasCycles := false }

theorem nodesOf_eq_ok {nodes : Dict String TaskNode} {ids : List String}
    (h : ∀ id ∈ ids, ∃ task, nodes.get? id = some task ∧ task.id = id) :
    ∃ found, nodesOf nodes ids = .ok found ∧ found.map TaskNode.id = ids
      ∧ ∀ task ∈ found, nodes.get? task.id = some task := by
  induction ids with
  | nil => exact ⟨[], rfl, rfl, fun _ hmem => absurd hmem List.not_mem_nil⟩
  | cons id rest ih =>
      obtain ⟨task, htask, rfl⟩ := h id List.mem_cons_self
      obtain ⟨found, hok, hids, hfound⟩ := ih fun other hmem => h other (List.mem_cons_of_mem _ hmem)
      refine ⟨task :: found, by simp only [nodesOf, htask, hok], by rw [List.map_cons, hids], ?_⟩
      exact List.forall_mem_cons.2 ⟨htask, hfound⟩

/-- The nodes of the graph, looked up in the order of the traversal, are the tasks again. -/
theorem DependencyGraph.Represents.nodesOf_eq_ok {tasks : List TaskNode} {graph : DependencyGraph}
    (hgraph : graph.Represents tasks) (hvalid : ValidTasks tasks) {ordered : List String}
    (hperm : ordered.Perm (tasks.map TaskNode.id)) :
    ∃ found, nodesOf graph.nodes ordered = .ok found ∧ found.map TaskNode.id = ordered
      ∧ found.Perm tasks := by
  obtain ⟨found, hok, hids, hfound⟩ := Planning.nodesOf_eq_ok fun id hid => by
    obtain ⟨task, hmem, hid⟩ := List.mem_map.1 (hperm.mem_iff.1 hid)
    exact ⟨task, hid ▸ hgraph.node_eq task hmem, hid⟩
  refine ⟨found, hok, hids, ?_⟩
  have hnodup : (found.map TaskNode.id).Nodup := by
    rw [hids, hperm.nodup_iff]
    exact hvalid.nodup
  apply (List.perm_ext_iff_of_nodup (.of_map _ hnodup) (.of_map _ hvalid.nodup)).2
  intro task
  have hother : task.id ∈ found.map TaskNode.id ↔ task.id ∈ tasks.map TaskNode.id := by
    rw [hids, hperm.mem_iff]
  constructor
  · intro hmem
    obtain ⟨twin, htwin, hid⟩ := List.mem_map.1 (hother.1 (List.mem_map_of_mem hmem))
    have hsame := hfound task hmem
    rw [← hid, hgraph.node_eq twin htwin, Option.some.injEq] at hsame
    exact hsame ▸ htwin
  · intro hmem
    obtain ⟨twin, htwin, hid⟩ := List.mem_map.1 (hother.2 (List.mem_map_of_mem hmem))
    have hsame := hfound twin htwin
    rw [hid, hgraph.node_eq task hmem, Option.some.injEq] at hsame
    exact hsame.symm ▸ htwin

/-- **The planner on a validated list.** -/
theorem buildPlan_spec {tasks : List TaskNode} (hvalid : ValidTasks tasks) :
    (∃ plan, buildPlan tasks = .ok plan ∧ Planned tasks plan)
      ∨ (¬ (Acyclic (DependsOn tasks) ∧ DuplicateFree tasks)
        ∧ buildPlan tasks = .error .cycle) := by
  have hvalidate := validate_eq_ok_iff.2 hvalid
  obtain ⟨graph, hbuild, hgraph⟩ := DependencyGraph.build_represents hvalid
  rcases hgraph.traverseLevels_spec hvalid with
    ⟨hacyclic, hfree, ordered, groups, hok, hleveled⟩ | ⟨hnot, herror⟩
  · obtain ⟨found, hfound, hids, hperm⟩ := hgraph.nodesOf_eq_ok hvalid hleveled.perm
    refine .inl ⟨⟨found, groupsOf groups, ⟨tasks.length, false⟩⟩, ?_, ?_⟩
    · simp only [buildPlan, hvalidate, hbuild, hok, hfound, bind, Except.bind, pure, Except.pure]
    · exact ⟨hvalid, hacyclic, hfree, hperm, ⟨groups, hids.symm ▸ hleveled, rfl⟩, rfl⟩
  · refine .inr ⟨hnot, ?_⟩
    simp only [buildPlan, hvalidate, hbuild, herror, bind, Except.bind]

theorem planned_of_buildPlan {tasks : List TaskNode} {plan : ExecutionPlan}
    (h : buildPlan tasks = .ok plan) : Planned tasks plan := by
  have hvalid : ValidTasks tasks := by
    apply validate_eq_ok_iff.1
    rcases hvalidate : validate tasks with e | ⟨⟩
    · simp [buildPlan, hvalidate, bind, Except.bind] at h
    · rfl
  rcases buildPlan_spec hvalid with ⟨plan', hok, hplanned⟩ | ⟨_, herror⟩
  · rw [h, Except.ok.injEq] at hok
    exact hok ▸ hplanned
  · rw [h] at herror
    cases herror

theorem buildExecutionPlan_of_describes {rawTasks : List Value} {tasks : List TaskNode}
    (h : List.Forall₂ Describes rawTasks tasks) :
    buildExecutionPlan rawTasks = buildPlan tasks := by
  simp only [buildExecutionPlan, normalizeTasks_eq_ok_iff.2 h, bind, Except.bind]

/-- **Every plan is the plan of the tasks that were read.** -/
theorem planned_of_buildExecutionPlan {rawTasks : List Value} {plan : ExecutionPlan}
    (h : buildExecutionPlan rawTasks = .ok plan) :
    ∃ tasks, List.Forall₂ Describes rawTasks tasks ∧ Planned tasks plan := by
  rcases hnormalize : normalizeTasks rawTasks with e | tasks
  · simp [buildExecutionPlan, hnormalize, bind, Except.bind] at h
  · have hraw := normalizeTasks_eq_ok_iff.1 hnormalize
    rw [buildExecutionPlan_of_describes hraw] at h
    exact ⟨tasks, hraw, planned_of_buildPlan h⟩

end PersonalDevin.Planning
