import PersonalDevin.Lib.Paired
import PersonalDevin.Planning.Acceptance

/-!
# The order of a plan does not depend on the order of its input

Permuting the task list, or the dependency list of any task, keeps the ids and the dependency
relation. A plan is the levels of that relation, so it comes out with the same order of ids and the
same groups. With it the description of a plan by longest chains is complete.
-/

namespace PersonalDevin.Planning

open Lib

/-! ### Rearranged inputs -/

/-- Two values of a `dependencies` entry that list the same ids in another order. -/
inductive SameDependencies : Option Value → Option Value → Prop
  | list {items items' : List Value} (h : items.Perm items') :
      SameDependencies (some (.list items)) (some (.list items'))
  | tuple {items items' : List Value} (h : items.Perm items') :
      SameDependencies (some (.tuple items)) (some (.tuple items'))

/-- The task dictionaries agree but for the order of their dependency lists. -/
def Rearranged (raw raw' : Value) : Prop :=
  ∃ task task' : Fields, raw = .dict task ∧ raw' = .dict task'
    ∧ (∀ key, key ≠ "dependencies" → task'.get? key = task.get? key)
    ∧ SameDependencies (task.get? "dependencies") (task'.get? "dependencies")

/-- The same node, with its dependencies in another order. -/
def SameNode (node node' : TaskNode) : Prop :=
  node'.id = node.id ∧ node.dependencies.Perm node'.dependencies

theorem mapM_strItem_of_perm {items items' : List Value} {texts : List String}
    (h : items.mapM strItem = some texts) (hperm : items.Perm items') :
    ∃ texts', items'.mapM strItem = some texts' ∧ texts.Perm texts' := by
  obtain ⟨texts', hitems, htexts⟩ :=
    List.perm_comp_forall₂ hperm.symm (mapM_strItem_eq_some_iff.1 h)
  exact ⟨texts', mapM_strItem_eq_some_iff.2 hitems, htexts.symm⟩

theorem SameDependencies.strList {deps deps' : Option Value} (h : SameDependencies deps deps')
    {ids : List String} (hids : strList deps = some ids) :
    ∃ ids', PersonalDevin.strList deps' = some ids' ∧ ids.Perm ids' := by
  cases h with
  | list hperm => exact mapM_strItem_of_perm hids hperm
  | tuple hperm => exact mapM_strItem_of_perm hids hperm

theorem Describes.rearranged {raw raw' : Value} {node : TaskNode} (h : Describes raw node)
    (hraw : Rearranged raw raw') : ∃ node', Describes raw' node' ∧ SameNode node node' := by
  obtain ⟨task, task', rfl, rfl, hsame, hdeps⟩ := hraw
  obtain ⟨_, htask, hnode⟩ := h
  obtain rfl := Value.dict.inj htask
  simp only [TaskNode.fromDict, Option.bind_eq_bind, Option.bind_eq_some_iff, Option.pure_def,
    Option.some.injEq] at hnode
  obtain ⟨id, hid, description, hdescription, ids, hids, metadata, hmetadata, rfl⟩ := hnode
  obtain ⟨ids', hids', hperm⟩ := hdeps.strList hids
  refine ⟨⟨id, description, ids', metadata⟩, ⟨task', rfl, ?_⟩, rfl, hperm⟩
  rw [← hsame _ (by decide)] at hid hdescription hmetadata
  simp [TaskNode.fromDict, hid, hdescription, hids', hmetadata]

/-- The nodes of a rearranged input: the nodes of the input, permuted, each with its dependencies
permuted. -/
theorem describes_rearranged {rawTasks middle rawTasks' : List Value} {tasks : List TaskNode}
    (h : List.Forall₂ Describes rawTasks tasks) (hperm : rawTasks.Perm middle)
    (hraw : List.Forall₂ Rearranged middle rawTasks') :
    ∃ nodes tasks', tasks.Perm nodes ∧ List.Forall₂ SameNode nodes tasks'
      ∧ List.Forall₂ Describes rawTasks' tasks' := by
  obtain ⟨nodes, hnodes, hpermNodes⟩ := List.perm_comp_forall₂ hperm.symm h
  clear h hperm
  suffices hboth : ∃ tasks', List.Forall₂ SameNode nodes tasks'
      ∧ List.Forall₂ Describes rawTasks' tasks' by
    obtain ⟨tasks', hsame, hdescribes⟩ := hboth
    exact ⟨nodes, tasks', hpermNodes.symm, hsame, hdescribes⟩
  clear hpermNodes
  induction hraw generalizing nodes with
  | nil => exact ⟨[], by cases hnodes; exact .nil, .nil⟩
  | cons hfirst _ ih =>
      obtain ⟨node, rest, hnode, hrest, rfl⟩ := List.forall₂_cons_left_iff.1 hnodes
      obtain ⟨node', hnode', hsame⟩ := hnode.rearranged hfirst
      obtain ⟨rest', hsameRest, hrest'⟩ := ih rest hrest
      exact ⟨node' :: rest', .cons hsame hsameRest, .cons hnode' hrest'⟩

/-! ### What a rearrangement keeps -/

section Reordered

variable {tasks nodes tasks' : List TaskNode}

theorem dependsOn_of_sameNode (h : List.Forall₂ SameNode nodes tasks') {a b : String} :
    DependsOn nodes a b ↔ DependsOn tasks' a b := by
  induction h with
  | nil => exact Iff.rfl
  | @cons node node' rest rest' hfirst _ ih =>
      simp only [DependsOn, List.exists_mem_cons_iff] at ih ⊢
      rw [ih, hfirst.1, hfirst.2.mem_iff]

theorem dependsOn_of_perm (hperm : tasks.Perm nodes) {a b : String} :
    DependsOn tasks a b ↔ DependsOn nodes a b :=
  exists_congr fun _ => and_congr_left' hperm.mem_iff

variable (hperm : tasks.Perm nodes) (hsame : List.Forall₂ SameNode nodes tasks')
include hperm hsame

theorem ids_perm_of_rearranged : (tasks.map TaskNode.id).Perm (tasks'.map TaskNode.id) := by
  rw [← map_eq_of_paired hsame fun _ _ h => h.1.symm]
  exact hperm.map TaskNode.id

theorem dependsOn_eq_of_rearranged : DependsOn tasks = DependsOn tasks' := by
  funext a b
  exact propext ((dependsOn_of_perm hperm).trans (dependsOn_of_sameNode hsame))

theorem ValidTasks.rearranged (hvalid : ValidTasks tasks) : ValidTasks tasks' := by
  have hids := ids_perm_of_rearranged hperm hsame
  refine ⟨hids.nodup_iff.1 hvalid.nodup, fun task' hmem dep hdep => ?_⟩
  have hdepends : DependsOn tasks task'.id dep := by
    rw [dependsOn_eq_of_rearranged hperm hsame]
    exact ⟨task', hmem, rfl, hdep⟩
  exact hids.mem_iff.1 (hvalid.dependsOn_closed hdepends)

theorem DuplicateFree.rearranged (hfree : DuplicateFree tasks) : DuplicateFree tasks' := by
  intro task' hmem
  obtain ⟨task, hin, _, hdeps⟩ := exists_of_mem_right hsame hmem
  exact hdeps.nodup_iff.1 (hfree task (hperm.mem_iff.2 hin))

/-- **The plan of a rearranged list has the same order and the same groups.** -/
theorem Planned.rearranged {plan : ExecutionPlan} (h : Planned tasks plan) :
    ∃ plan', buildPlan tasks' = .ok plan'
      ∧ plan'.orderedTasks.map TaskNode.id = plan.orderedTasks.map TaskNode.id
      ∧ plan'.executionGroups = plan.executionGroups := by
  have hdeps := dependsOn_eq_of_rearranged hperm hsame
  rcases buildPlan_spec (h.valid.rearranged hperm hsame) with ⟨plan', hok, h'⟩ | ⟨hnot, _⟩
  · obtain ⟨groups, hleveled, hgroups⟩ := h.leveled
    obtain ⟨groups', hleveled', hgroups'⟩ := h'.leveled
    obtain ⟨hordered, hsameGroups⟩ := hleveled.unique hleveled'
      (fun _ => (ids_perm_of_rearranged hperm hsame).mem_iff) hdeps
    exact ⟨plan', hok, hordered.symm, by rw [hgroups, hgroups', hsameGroups]⟩
  · exact absurd ⟨hdeps ▸ h.acyclic, h.duplicateFree.rearranged hperm hsame⟩ hnot

end Reordered

/-! ### The groups of a plan -/

theorem flatMap_groupsOf (groups : List (List String)) :
    (groupsOf groups).flatMap ExecutionGroup.taskIds = groups.flatten := by
  rw [List.flatMap, map_taskIds_groupsOf]

theorem map_groupId_groupsOf (groups : List (List String)) :
    (groupsOf groups).map ExecutionGroup.groupId = List.range (groupsOf groups).length := by
  apply List.ext_getElem (by simp)
  intro k _ _
  simp [groupsOf]

theorem mem_groupsOf {groups : List (List String)} {group : ExecutionGroup} :
    group ∈ groupsOf groups ↔ groups[group.groupId]? = some group.taskIds := by
  rw [List.mem_iff_getElem?]
  simp only [groupsOf, List.getElem?_mapIdx, Option.map_eq_some_iff]
  constructor
  · rintro ⟨k, taskIds, hk, rfl⟩
    exact hk
  · exact fun h => ⟨group.groupId, group.taskIds, h, rfl⟩

theorem Planned.mem_group_iff {tasks : List TaskNode} {plan : ExecutionPlan}
    (h : Planned tasks plan) {task : TaskNode} (hmem : task ∈ tasks) {k : ℕ} :
    (∃ group ∈ plan.executionGroups, group.groupId = k ∧ task.id ∈ group.taskIds)
      ↔ IsGreatest {n | Chain (DependsOn tasks) task.id n} k := by
  obtain ⟨groups, hleveled, hgroups⟩ := h.leveled
  rw [← hleveled.mem_group_iff (List.mem_map_of_mem hmem), hgroups]
  constructor
  · rintro ⟨group, hgroup, rfl, hin⟩
    exact ⟨group.taskIds, mem_groupsOf.1 hgroup, hin⟩
  · rintro ⟨taskIds, hk, hin⟩
    exact ⟨⟨k, taskIds⟩, mem_groupsOf.2 hk, rfl, hin⟩

theorem Planned.dependency_before {tasks : List TaskNode} {plan : ExecutionPlan}
    (h : Planned tasks plan) {before after : List TaskNode} {task : TaskNode}
    (hsplit : plan.orderedTasks = before ++ task :: after) {dep : String}
    (hdep : dep ∈ task.dependencies) : dep ∈ before.map TaskNode.id := by
  obtain ⟨groups, hleveled, _⟩ := h.leveled
  have hmem : task ∈ tasks := h.perm.mem_iff.1 (hsplit ▸ by simp)
  have hids : plan.orderedTasks.map TaskNode.id
      = before.map TaskNode.id ++ task.id :: after.map TaskNode.id := by
    rw [hsplit, List.map_append, List.map_cons]
  exact hleveled.dependency_before h.valid hids ⟨task, hmem, rfl, hdep⟩

/-- What the plan of an input promises about the tasks that were read from it. -/
structure Layered (rawTasks : List Value) (tasks : List TaskNode) (plan : ExecutionPlan) :
    Prop where
  tasks_eq : normalizeTasks rawTasks = .ok tasks
  perm : plan.orderedTasks.Perm tasks
  dependency_before : ∀ before task after, plan.orderedTasks = before ++ task :: after →
    ∀ dep ∈ task.dependencies, dep ∈ before.map TaskNode.id
  flatMap_groups : plan.executionGroups.flatMap ExecutionGroup.taskIds
    = plan.orderedTasks.map TaskNode.id
  group_ids : plan.executionGroups.map ExecutionGroup.groupId
    = List.range plan.executionGroups.length
  mem_group_iff : ∀ task ∈ tasks, ∀ k,
    (∃ group ∈ plan.executionGroups, group.groupId = k ∧ task.id ∈ group.taskIds)
      ↔ IsGreatest {n | Chain (DependsOn tasks) task.id n} k
  group_sorted : ∀ group ∈ plan.executionGroups, group.taskIds.Pairwise (· < ·)
  rearranged : ∀ middle rawTasks', rawTasks.Perm middle →
    List.Forall₂ Rearranged middle rawTasks' →
      ∃ plan', buildExecutionPlan rawTasks' = .ok plan'
        ∧ plan'.orderedTasks.map TaskNode.id = plan.orderedTasks.map TaskNode.id
        ∧ plan'.executionGroups = plan.executionGroups

/-- **A plan is a topological order of its tasks, cut into the levels of longest chains, and it is
the same for every arrangement of the input.** -/
theorem buildExecutionPlan_layered {rawTasks : List Value} {plan : ExecutionPlan}
    (h : buildExecutionPlan rawTasks = .ok plan) : ∃ tasks, Layered rawTasks tasks plan := by
  obtain ⟨tasks, hraw, hplanned⟩ := planned_of_buildExecutionPlan h
  obtain ⟨groups, hleveled, hgroups⟩ := hplanned.leveled
  refine ⟨tasks, normalizeTasks_eq_ok_iff.2 hraw, hplanned.perm,
    fun _ _ _ hsplit _ hdep => hplanned.dependency_before hsplit hdep, ?_, ?_,
    fun _ hmem _ => hplanned.mem_group_iff hmem, fun group hgroup => ?_,
    fun middle rawTasks' hperm hrearranged => ?_⟩
  · rw [hgroups, flatMap_groupsOf, hleveled.flatten]
  · rw [hgroups, map_groupId_groupsOf]
  · rw [hgroups] at hgroup
    exact (hleveled.mem_group _ _ (mem_groupsOf.1 hgroup)).2.1
  · obtain ⟨nodes, tasks', hpermNodes, hsame, hdescribes⟩ :=
      describes_rearranged hraw hperm hrearranged
    rw [buildExecutionPlan_of_describes hdescribes]
    exact hplanned.rearranged hpermNodes hsame

theorem buildExecutionPlan_layered_chain :
    ∃ tasks, Layered [rawTask "b" ["a"], rawTask "a" []] tasks
      ⟨[plainTask "a" [], plainTask "b" ["a"]], [⟨0, ["a"]⟩, ⟨1, ["b"]⟩], ⟨2, false⟩⟩ :=
  buildExecutionPlan_layered (by rfl)

end PersonalDevin.Planning
