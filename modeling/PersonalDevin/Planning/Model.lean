import PersonalDevin.Field
import Mathlib.Data.List.Nodup

/-!
# Task dictionaries, task nodes and their validation

`TaskNode.from_dict`, the normalisation of the raw input of `build_execution_plan`, and
`PlanValidator`. A raw task is a dynamic value; a node is what the declared fields of `TaskNode`
accept of it. Which error is raised is kept together with the data its text names.
-/

namespace PersonalDevin.Planning

/-- Why `build_execution_plan` raises. `cycle` is `PlanningCycleError`, `missingKey` a `KeyError`,
`diverged` stands for a loop that never ends; the others are a `ValueError`. -/
inductive PlanError where
  | notADict (index : Nat)
  | invalidTask (index : Nat)
  | duplicateId (id : String)
  | unknownDependency (task dep : String)
  | cycle
  | missingKey (key : String)
  | diverged
  deriving DecidableEq

structure TaskNode where
  id : String
  description : String
  dependencies : List String
  metadata : Fields

/-! ### Reading a task dictionary -/

def TaskNode.fromDict (task : Fields) : Option TaskNode := do
  let id ← nonEmptyStr (task.get? "id")
  let description ← nonEmptyStr (task.get? "description")
  let dependencies ← strList (task.get? "dependencies")
  let metadata ← dictOrEmpty (task.get? "metadata")
  return { id, description, dependencies, metadata }

def normalizeFrom (index : Nat) : List Value → Except PlanError (List TaskNode)
  | [] => .ok []
  | .dict task :: rest =>
      match TaskNode.fromDict task with
      | none => .error (.invalidTask index)
      | some node =>
          match normalizeFrom (index + 1) rest with
          | .error e => .error e
          | .ok nodes => .ok (node :: nodes)
  | _ :: _ => .error (.notADict index)

def normalizeTasks (rawTasks : List Value) : Except PlanError (List TaskNode) :=
  normalizeFrom 0 rawTasks

def Describes (raw : Value) (node : TaskNode) : Prop :=
  ∃ task, raw = .dict task ∧ TaskNode.fromDict task = some node

theorem normalizeFrom_eq_ok_iff {index : Nat} {rawTasks : List Value} {nodes : List TaskNode} :
    normalizeFrom index rawTasks = .ok nodes ↔ List.Forall₂ Describes rawTasks nodes := by
  induction rawTasks generalizing index nodes with
  | nil =>
      rw [List.forall₂_nil_left_iff, normalizeFrom, Except.ok.injEq]
      exact eq_comm
  | cons raw rest ih =>
      rw [List.forall₂_cons_left_iff]
      cases raw with
      | dict task =>
          rcases hnode : TaskNode.fromDict task with _ | node
          · simp [normalizeFrom, hnode, Describes]
          · rcases hrest : normalizeFrom (index + 1) rest with e | nodes'
            · have hnone : ∀ nodes'', ¬ List.Forall₂ Describes rest nodes'' := fun nodes'' h => by
                rw [← @ih (index + 1), hrest] at h
                cases h
              simp [normalizeFrom, hnode, hrest, hnone]
            · have hfirst : ∀ b, Describes (.dict task) b ↔ b = node := fun b => by
                simp [Describes, hnode, eq_comm]
              have hothers : ∀ l, List.Forall₂ Describes rest l ↔ l = nodes' := fun l => by
                rw [← @ih (index + 1), hrest, Except.ok.injEq, eq_comm]
              simp [normalizeFrom, hnode, hrest, hfirst, hothers, eq_comm]
      | _ => simp [normalizeFrom, Describes]

theorem normalizeTasks_eq_ok_iff {rawTasks : List Value} {nodes : List TaskNode} :
    normalizeTasks rawTasks = .ok nodes ↔ List.Forall₂ Describes rawTasks nodes :=
  normalizeFrom_eq_ok_iff

/-! ### The validator -/

def checkNoDuplicateIds (seen : List String) : List TaskNode → Except PlanError Unit
  | [] => .ok ()
  | task :: rest =>
      if task.id ∈ seen then .error (.duplicateId task.id)
      else checkNoDuplicateIds (task.id :: seen) rest

def checkDependencies (knownIds : List String) (taskId : String) :
    List String → Except PlanError Unit
  | [] => .ok ()
  | dep :: rest =>
      if dep ∈ knownIds then checkDependencies knownIds taskId rest
      else .error (.unknownDependency taskId dep)

def checkDependenciesExist (knownIds : List String) : List TaskNode → Except PlanError Unit
  | [] => .ok ()
  | task :: rest =>
      match checkDependencies knownIds task.id task.dependencies with
      | .error e => .error e
      | .ok () => checkDependenciesExist knownIds rest

def validate (tasks : List TaskNode) : Except PlanError Unit :=
  match checkNoDuplicateIds [] tasks with
  | .error e => .error e
  | .ok () => checkDependenciesExist (tasks.map TaskNode.id) tasks

/-- What the validator establishes: distinct ids, and dependencies that are ids of the list. -/
structure ValidTasks (tasks : List TaskNode) : Prop where
  nodup : (tasks.map TaskNode.id).Nodup
  known : ∀ task ∈ tasks, ∀ dep ∈ task.dependencies, dep ∈ tasks.map TaskNode.id

theorem checkNoDuplicateIds_eq_ok_iff {seen : List String} {tasks : List TaskNode} :
    checkNoDuplicateIds seen tasks = .ok ()
      ↔ (tasks.map TaskNode.id).Nodup ∧ ∀ task ∈ tasks, task.id ∉ seen := by
  induction tasks generalizing seen with
  | nil => simp [checkNoDuplicateIds]
  | cons task rest ih =>
      by_cases hseen : task.id ∈ seen
      · simp [checkNoDuplicateIds, hseen]
      · rw [checkNoDuplicateIds, if_neg hseen, ih, List.map_cons, List.nodup_cons,
          List.forall_mem_cons]
        simp only [List.mem_map, List.mem_cons, not_or]
        constructor
        · rintro ⟨hnodup, hfresh⟩
          exact ⟨⟨fun ⟨other, hmem, heq⟩ => (hfresh other hmem).1 heq, hnodup⟩, hseen,
            fun other hmem => (hfresh other hmem).2⟩
        · rintro ⟨⟨hnot, hnodup⟩, _, hfresh⟩
          exact ⟨hnodup, fun other hmem => ⟨fun heq => hnot ⟨other, hmem, heq⟩, hfresh other hmem⟩⟩

theorem checkDependencies_eq_ok_iff {knownIds deps : List String} {taskId : String} :
    checkDependencies knownIds taskId deps = .ok () ↔ ∀ dep ∈ deps, dep ∈ knownIds := by
  induction deps with
  | nil => simp [checkDependencies]
  | cons dep rest ih =>
      by_cases hknown : dep ∈ knownIds
      · simp [checkDependencies, hknown, ih]
      · simp [checkDependencies, hknown]

theorem checkDependenciesExist_eq_ok_iff {knownIds : List String} {tasks : List TaskNode} :
    checkDependenciesExist knownIds tasks = .ok ()
      ↔ ∀ task ∈ tasks, ∀ dep ∈ task.dependencies, dep ∈ knownIds := by
  induction tasks with
  | nil => simp [checkDependenciesExist]
  | cons task rest ih =>
      rw [List.forall_mem_cons, ← @checkDependencies_eq_ok_iff _ _ task.id, ← ih]
      rcases hfirst : checkDependencies knownIds task.id task.dependencies with e | ⟨⟩
      · simp [checkDependenciesExist, hfirst]
      · simp [checkDependenciesExist, hfirst]

theorem validate_eq_ok_iff {tasks : List TaskNode} : validate tasks = .ok () ↔ ValidTasks tasks := by
  rcases hids : checkNoDuplicateIds [] tasks with e | ⟨⟩
  · have hdup : ¬ (tasks.map TaskNode.id).Nodup := fun h => by
      have hok := (@checkNoDuplicateIds_eq_ok_iff [] tasks).2 ⟨h, fun _ _ => List.not_mem_nil⟩
      rw [hids] at hok
      cases hok
    simp only [validate, hids, reduceCtorEq, false_iff]
    exact fun h => hdup h.nodup
  · have hnodup := (checkNoDuplicateIds_eq_ok_iff.1 hids).1
    simp only [validate, hids, checkDependenciesExist_eq_ok_iff]
    exact ⟨fun h => ⟨hnodup, h⟩, fun h => h.known⟩

/-! ### The dependency relation -/

/-- The task `a` lists `b` among its dependencies. -/
def DependsOn (tasks : List TaskNode) (a b : String) : Prop :=
  ∃ task ∈ tasks, task.id = a ∧ b ∈ task.dependencies

theorem ValidTasks.dependsOn_closed {tasks : List TaskNode} (hvalid : ValidTasks tasks)
    {a b : String} (h : DependsOn tasks a b) : b ∈ tasks.map TaskNode.id := by
  obtain ⟨task, hmem, _, hdep⟩ := h
  exact hvalid.known task hmem b hdep

def depsOf (tasks : List TaskNode) (id : String) : List String :=
  ((tasks.find? (·.id = id)).map TaskNode.dependencies).getD []

theorem ValidTasks.eq_of_id {tasks : List TaskNode} (hvalid : ValidTasks tasks) {s t : TaskNode}
    (hs : s ∈ tasks) (ht : t ∈ tasks) (hid : s.id = t.id) : s = t :=
  List.inj_on_of_nodup_map hvalid.nodup hs ht hid

theorem ValidTasks.depsOf_eq {tasks : List TaskNode} (hvalid : ValidTasks tasks) {task : TaskNode}
    (htask : task ∈ tasks) : depsOf tasks task.id = task.dependencies := by
  rcases hfind : tasks.find? (·.id = task.id) with _ | found
  · have hnot := List.find?_eq_none.1 hfind task htask
    simp at hnot
  · have hid : found.id = task.id := by simpa using List.find?_some hfind
    rw [hvalid.eq_of_id (List.mem_of_find?_eq_some hfind) htask hid] at hfind
    rw [depsOf, hfind]
    rfl

theorem depsOf_eq_nil {tasks : List TaskNode} {id : String} (h : id ∉ tasks.map TaskNode.id) :
    depsOf tasks id = [] := by
  have hnone : tasks.find? (·.id = id) = none := List.find?_eq_none.2 fun task hmem => by
    simpa using fun heq => h (List.mem_map.2 ⟨task, hmem, heq⟩)
  rw [depsOf, hnone]
  rfl

theorem ValidTasks.dependsOn_iff {tasks : List TaskNode} (hvalid : ValidTasks tasks)
    {a b : String} : DependsOn tasks a b ↔ b ∈ depsOf tasks a := by
  constructor
  · rintro ⟨task, hmem, rfl, hdep⟩
    rwa [hvalid.depsOf_eq hmem]
  · intro hdep
    by_cases ha : a ∈ tasks.map TaskNode.id
    · obtain ⟨task, hmem, rfl⟩ := List.mem_map.1 ha
      exact ⟨task, hmem, rfl, hvalid.depsOf_eq hmem ▸ hdep⟩
    · rw [depsOf_eq_nil ha] at hdep
      cases hdep

end PersonalDevin.Planning
