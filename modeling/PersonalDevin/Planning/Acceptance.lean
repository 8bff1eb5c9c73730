import PersonalDevin.Planning.Planner

/-!
# Which inputs the planner accepts

On task dictionaries with distinct ids and known dependencies the planner is meant to accept the acyclic
lists and to raise `PlanningCycleError` on the cyclic ones. It does so only if every dictionary makes a
task node: a list is turned away for `dependencies`, which are called optional and must be there, or for
a `metadata` that is `None`. The in-degree counts the entries of a dependency list, the
adjacency holds distinct dependents, so a repeated dependency is never fully released: an acyclic list
with one is turned away by the final length check, as if it had a cycle.
-/

namespace PersonalDevin.Planning

open Lib

/-! ### What task dictionaries say -/

def idOf (task : Fields) : String := ((task.get? "id").bind strItem).getD ""

/-- The ids a task dictionary lists as its dependencies. -/
def dependenciesOf (task : Fields) : List String :=
  match task.get? "dependencies" with
  | some (.list items) => items.filterMap strItem
  | some (.tuple items) => items.filterMap strItem
  | _ => []

/-- Task dictionaries with an id and a description each, distinct ids and known dependencies. -/
structure TaskDicts (rawTasks : List Fields) : Prop where
  texts : ∀ task ∈ rawTasks, ∀ key ∈ ["id", "description"],
    ∃ text, task.get? key = some (.str text) ∧ text ≠ ""
  nodup : (rawTasks.map idOf).Nodup
  known : ∀ task ∈ rawTasks, ∀ dep ∈ dependenciesOf task, dep ∈ rawTasks.map idOf

/-- The task `a` lists `b` among its dependencies. -/
def Lists (rawTasks : List Fields) (a b : String) : Prop :=
  ∃ task ∈ rawTasks, idOf task = a ∧ b ∈ dependenciesOf task

theorem filterMap_strItem {items : List Value} {texts : List String}
    (h : items.mapM strItem = some texts) : items.filterMap strItem = texts := by
  have hitems := mapM_strItem_eq_some_iff.1 h
  clear h
  induction hitems with
  | nil => rfl
  | cons hitem _ ih => simp only [hitem, List.filterMap_cons, strItem, ih]

/-- A node has the id and the dependencies of its dictionary. -/
theorem fromDict_spec {task : Fields} {node : TaskNode} (h : TaskNode.fromDict task = some node) :
    node.id = idOf task ∧ node.dependencies = dependenciesOf task := by
  simp only [TaskNode.fromDict, Option.bind_eq_bind, Option.bind_eq_some_iff, Option.pure_def,
    Option.some.injEq] at h
  obtain ⟨id, hid, _, _, dependencies, hdependencies, _, _, rfl⟩ := h
  constructor
  · rw [nonEmptyStr.eq_def] at hid
    split at hid
    · rename_i text htext
      split at hid
      · cases hid
      · rw [idOf, htext]
        exact (Option.some.inj hid).symm
    · cases hid
  · rw [strList.eq_def] at hdependencies
    split at hdependencies
    · rename_i items hitems
      rw [dependenciesOf, hitems]
      exact (filterMap_strItem hdependencies).symm
    · rename_i items hitems
      rw [dependenciesOf, hitems]
      exact (filterMap_strItem hdependencies).symm
    · cases hdependencies

theorem describes_dict_iff {task : Fields} {node : TaskNode} :
    Describes (.dict task) node ↔ TaskNode.fromDict task = some node := by
  constructor
  · rintro ⟨_, heq, hnode⟩
    cases heq
    exact hnode
  · exact fun hnode => ⟨task, rfl, hnode⟩

theorem exists_describes {rawTasks : List Fields}
    (h : ∀ task ∈ rawTasks, (TaskNode.fromDict task).isSome = true) :
    ∃ nodes, List.Forall₂ Describes (rawTasks.map .dict) nodes := by
  induction rawTasks with
  | nil => exact ⟨[], .nil⟩
  | cons task rest ih =>
      rw [List.forall_mem_cons] at h
      obtain ⟨node, hnode⟩ := Option.isSome_iff_exists.1 h.1
      obtain ⟨nodes, hnodes⟩ := ih h.2
      exact ⟨node :: nodes, .cons (describes_dict_iff.2 hnode) hnodes⟩

/-- A list with a dictionary that makes no node is turned away with a `ValueError`. -/
theorem buildExecutionPlan_of_refused {rawTasks : List Fields}
    (h : ¬ ∀ task ∈ rawTasks, (TaskNode.fromDict task).isSome = true) :
    ∃ index, buildExecutionPlan (rawTasks.map .dict) = .error (.invalidTask index) := by
  have hnormalize : ∀ index, ∃ found,
      normalizeFrom index (rawTasks.map .dict) = .error (.invalidTask found) := by
    induction rawTasks with
    | nil => exact absurd (fun _ hmem => absurd hmem List.not_mem_nil) h
    | cons task rest ih =>
        intro index
        rcases hnode : TaskNode.fromDict task with _ | node
        · exact ⟨index, by simp only [List.map_cons, normalizeFrom, hnode]⟩
        · have hrest : ¬ ∀ other ∈ rest, (TaskNode.fromDict other).isSome = true := fun hall =>
            h (List.forall_mem_cons.2 ⟨by rw [hnode]; rfl, hall⟩)
          obtain ⟨found, hfound⟩ := ih hrest (index + 1)
          exact ⟨found, by simp only [List.map_cons, normalizeFrom, hnode, hfound]⟩
  obtain ⟨index, hindex⟩ := hnormalize 0
  exact ⟨index, by simp only [buildExecutionPlan, normalizeTasks, hindex, bind, Except.bind]⟩


section Nodes

variable {rawTasks : List Fields} {nodes : List TaskNode}

theorem exists_node (h : List.Forall₂ Describes (rawTasks.map .dict) nodes) {task : Fields}
    (hmem : task ∈ rawTasks) :
    ∃ node ∈ nodes, node.id = idOf task ∧ node.dependencies = dependenciesOf task := by
  obtain ⟨node, hnode, hdescribes⟩ := exists_of_mem_left h (List.mem_map_of_mem hmem)
  exact ⟨node, hnode, fromDict_spec (describes_dict_iff.1 hdescribes)⟩

theorem exists_dict (h : List.Forall₂ Describes (rawTasks.map .dict) nodes) {node : TaskNode}
    (hmem : node ∈ nodes) :
    ∃ task ∈ rawTasks, node.id = idOf task ∧ node.dependencies = dependenciesOf task := by
  obtain ⟨_, hraw, hdescribes⟩ := exists_of_mem_right h hmem
  obtain ⟨task, htask, rfl⟩ := List.mem_map.1 hraw
  exact ⟨task, htask, fromDict_spec (describes_dict_iff.1 hdescribes)⟩

theorem dependsOn_eq_lists (h : List.Forall₂ Describes (rawTasks.map .dict) nodes) :
    DependsOn nodes = Lists rawTasks := by
  funext a b
  apply propext
  constructor
  · rintro ⟨node, hmem, rfl, hdep⟩
    obtain ⟨task, htask, hid, hdependencies⟩ := exists_dict h hmem
    exact ⟨task, htask, hid.symm, hdependencies ▸ hdep⟩
  · rintro ⟨task, hmem, rfl, hdep⟩
    obtain ⟨node, hnode, hid, hdependencies⟩ := exists_node h hmem
    exact ⟨node, hnode, hid, hdependencies.symm ▸ hdep⟩

theorem duplicateFree_iff (h : List.Forall₂ Describes (rawTasks.map .dict) nodes) :
    DuplicateFree nodes ↔ ∀ task ∈ rawTasks, (dependenciesOf task).Nodup := by
  constructor
  · intro hfree task hmem
    obtain ⟨node, hnode, _, hdependencies⟩ := exists_node h hmem
    exact hdependencies ▸ hfree node hnode
  · intro hfree node hmem
    obtain ⟨task, htask, _, hdependencies⟩ := exists_dict h hmem
    exact hdependencies ▸ hfree task htask

theorem TaskDicts.valid (hraw : TaskDicts rawTasks)
    (h : List.Forall₂ Describes (rawTasks.map .dict) nodes) : ValidTasks nodes := by
  have hids : nodes.map TaskNode.id = rawTasks.map idOf := by
    rw [List.forall₂_map_left_iff] at h
    exact (map_eq_of_paired h fun task node hdescribes =>
      (fromDict_spec (describes_dict_iff.1 hdescribes)).1.symm).symm
  refine ⟨hids ▸ hraw.nodup, fun node hmem => ?_⟩
  obtain ⟨task, htask, _, hdependencies⟩ := exists_dict h hmem
  rw [hids, hdependencies]
  exact hraw.known task htask

/-! ### Acceptance -/

/-- **The planner tells cyclic from acyclic inputs exactly when every dictionary makes a task node, and
no dependency is repeated or there is a cycle to be found anyway.** -/
theorem buildExecutionPlan_separates_iff (hraw : TaskDicts rawTasks) :
    (((∃ plan, buildExecutionPlan (rawTasks.map .dict) = .ok plan) ↔ Acyclic (Lists rawTasks))
        ∧ (buildExecutionPlan (rawTasks.map .dict) = .error .cycle ↔ ¬ Acyclic (Lists rawTasks)))
      ↔ (∀ task ∈ rawTasks, (TaskNode.fromDict task).isSome = true)
        ∧ (¬ Acyclic (Lists rawTasks) ∨ ∀ task ∈ rawTasks, (dependenciesOf task).Nodup) := by
  by_cases haccepted : ∀ task ∈ rawTasks, (TaskNode.fromDict task).isSome = true
  · obtain ⟨nodes, hnodes⟩ := exists_describes haccepted
    rw [buildExecutionPlan_of_describes hnodes, ← dependsOn_eq_lists hnodes,
      ← duplicateFree_iff hnodes, and_iff_right haccepted]
    rcases buildPlan_spec (hraw.valid hnodes) with ⟨plan, hok, hplanned⟩ | ⟨hnot, herror⟩
    · have hacyclic := hplanned.acyclic
      rw [hok]
      exact iff_of_true ⟨iff_of_true ⟨plan, rfl⟩ hacyclic,
        iff_of_false (fun heq => nomatch heq) fun hnot => hnot hacyclic⟩ (.inr hplanned.duplicateFree)
    · by_cases hacyclic : Acyclic (DependsOn nodes)
      · have hfree : ¬ DuplicateFree nodes := fun hfree => hnot ⟨hacyclic, hfree⟩
        simp [herror, hacyclic, hfree]
      · simp [herror, hacyclic]
  · obtain ⟨index, hrefused⟩ := buildExecutionPlan_of_refused haccepted
    refine iff_of_false ?_ fun h => haccepted h.1
    rw [hrefused]
    simp

end Nodes

/-! ### Task dictionaries to compute with -/

/-- The dictionary of a task with the three required fields. -/
def plainFields (id : String) (dependencies : List String) : Fields :=
  [("id", .str id), ("description", .str "step"), ("dependencies", .list (dependencies.map .str))]

def rawTask (id : String) (dependencies : List String) : Value := .dict (plainFields id dependencies)

def plainTask (id : String) (dependencies : List String) : TaskNode :=
  ⟨id, "step", dependencies, []⟩

theorem texts_plainFields {id : String} (hid : id ≠ "") (dependencies : List String) :
    ∀ key ∈ ["id", "description"],
      ∃ text, (plainFields id dependencies).get? key = some (.str text) ∧ text ≠ "" := by
  intro key hkey
  rcases List.mem_cons.1 hkey with rfl | hkey
  · exact ⟨id, rfl, hid⟩
  · obtain rfl := List.mem_singleton.1 hkey
    exact ⟨"step", rfl, by decide⟩

theorem acyclic_lists_of_rank {rawTasks : List Fields} (rank : String → ℕ)
    (h : ∀ task ∈ rawTasks, ∀ dep ∈ dependenciesOf task, rank dep < rank (idOf task)) :
    Acyclic (Lists rawTasks) := by
  refine acyclic_of_rank rank fun a b => ?_
  rintro ⟨task, hmem, rfl, hdep⟩
  exact h task hmem b hdep

theorem buildExecutionPlan_separates_chain :
    (((∃ plan, buildExecutionPlan ([plainFields "a" [], plainFields "b" ["a"]].map .dict) = .ok plan)
          ↔ Acyclic (Lists [plainFields "a" [], plainFields "b" ["a"]]))
        ∧ (buildExecutionPlan ([plainFields "a" [], plainFields "b" ["a"]].map .dict) = .error .cycle
          ↔ ¬ Acyclic (Lists [plainFields "a" [], plainFields "b" ["a"]])))
      ↔ (∀ task ∈ [plainFields "a" [], plainFields "b" ["a"]],
          (TaskNode.fromDict task).isSome = true)
        ∧ (¬ Acyclic (Lists [plainFields "a" [], plainFields "b" ["a"]])
          ∨ ∀ task ∈ [plainFields "a" [], plainFields "b" ["a"]], (dependenciesOf task).Nodup) :=
  buildExecutionPlan_separates_iff
    ⟨List.forall_mem_cons.2 ⟨texts_plainFields (by decide) _,
      List.forall_mem_singleton.2 (texts_plainFields (by decide) _)⟩, by decide, by decide⟩

/-- Two lists without a cycle that are rejected: `b` names its only dependency twice, and a task leaves
the optional dependencies out. -/
theorem acyclic_rejected :
    TaskDicts [plainFields "a" [], plainFields "b" ["a", "a"]]
      ∧ Acyclic (Lists [plainFields "a" [], plainFields "b" ["a", "a"]])
      ∧ buildExecutionPlan ([plainFields "a" [], plainFields "b" ["a", "a"]].map .dict)
        = .error .cycle
      ∧ TaskDicts [[("id", .str "a"), ("description", .str "step")]]
      ∧ Acyclic (Lists [[("id", .str "a"), ("description", .str "step")]])
      ∧ buildExecutionPlan ([[("id", .str "a"), ("description", .str "step")]].map .dict)
        = .error (.invalidTask 0) := by
  refine ⟨⟨?_, by decide, by decide⟩, ?_, by rfl, ⟨?_, by decide, by decide⟩, ?_, by rfl⟩
  · exact List.forall_mem_cons.2 ⟨texts_plainFields (by decide) _,
      List.forall_mem_singleton.2 (texts_plainFields (by decide) _)⟩
  · exact acyclic_lists_of_rank (fun id => if id = "b" then 1 else 0) (by decide)
  · rw [List.forall_mem_singleton]
    intro key hkey
    rcases List.mem_cons.1 hkey with rfl | hkey
    · exact ⟨"a", rfl, by decide⟩
    · obtain rfl := List.mem_singleton.1 hkey
      exact ⟨"step", rfl, by decide⟩
  · exact acyclic_lists_of_rank (fun _ => 0) (by decide)

end PersonalDevin.Planning
