import PersonalDevin.Lib.Countdown
import PersonalDevin.Lib.Search
import Mathlib.Data.Prod.Lex
import Mathlib.Data.String.Basic

/-!
# The task graph

`TaskGraph` of the planner, filled one call after the other. A call gives its outcome and the graph it
leaves, also where it raises between two assignments. A set of ids is a duplicate-free list, which the
code only reads through `sorted` and membership; a heap is kept as the ascending list of its elements.
The search and the loop of the sort carry fuel, and running out of it is `diverged`. The interpreter's
limit on the recursion depth is not modelled.

An edge is kept three times: in the adjacency of the task depended on, in the counter of the dependent
task and in the dependencies of its task object. `Consistent` says that the three agree.
-/

namespace PersonalDevin.Planning

open Lib

/-- The fields of a task the graph reads; `id` is the text of the UUID. -/
structure Task where
  id : String
  name : String
  priority : ℤ
  dependencies : List String

inductive GraphError
  | alreadyExists (id : String)
  | notFound (id : String)
  | dependencyNotFound (id : String)
  | dependsOnItself
  | containsCycles
  | unreachable
  /-- A `KeyError` of one of the three dictionaries. -/
  | missingKey (id : String)
  | diverged

/-- The text of a `ValueError`. -/
def GraphError.message : GraphError → Option String
  | .alreadyExists id => some ("Task " ++ id ++ " already exists")
  | .notFound id => some ("Task " ++ id ++ " not found")
  | .dependencyNotFound id => some ("Dependency task " ++ id ++ " not found")
  | .dependsOnItself => some "Task cannot depend on itself"
  | .containsCycles => some "Graph contains cycles"
  | .unreachable => some "Topological sort failed: unreachable tasks or cycles"
  | .missingKey _ => none
  | .diverged => none

structure TaskGraph where
  tasks : Dict String Task
  adjacency : Dict String (List String)
  inDegree : Dict String ℤ

namespace TaskGraph

def empty : TaskGraph := ⟨.empty, .empty, .empty⟩

/-- `self.adjacency[id]`. -/
def neighbors (graph : TaskGraph) (id : String) : List String := graph.adjacency.getD id []

/-! ### Filling the graph -/

def addTask (graph : TaskGraph) (task : Task) : Except GraphError Unit × TaskGraph :=
  if task.id ∉ graph.tasks.keys then
    (.ok (), { tasks := graph.tasks.set task.id task
               adjacency := graph.adjacency.set task.id []
               inDegree := graph.inDegree.set task.id 0 })
  else (.error (.alreadyExists task.id), graph)

/-- The last lines of `add_dependency`: the dependency is listed at the task, unless it is already. -/
def listDependency (graph : TaskGraph) (taskId dependsOnId : String) :
    Except GraphError Unit × TaskGraph :=
  match graph.tasks.get? taskId with
  | none => (.error (.missingKey taskId), graph)
  | some task =>
      if dependsOnId ∉ task.dependencies then
        (.ok (), { graph with
          tasks := graph.tasks.set taskId
            { task with dependencies := task.dependencies ++ [dependsOnId] } })
      else (.ok (), graph)

/-- The counter of the task is raised. -/
def countDependency (graph : TaskGraph) (taskId dependsOnId : String) :
    Except GraphError Unit × TaskGraph :=
  match graph.inDegree.get? taskId with
  | none => (.error (.missingKey taskId), graph)
  | some degree =>
      { graph with inDegree := graph.inDegree.set taskId (degree + 1) }.listDependency taskId dependsOnId

def addDependency (graph : TaskGraph) (taskId dependsOnId : String) :
    Except GraphError Unit × TaskGraph :=
  if taskId ∉ graph.tasks.keys then (.error (.notFound taskId), graph)
  else if dependsOnId ∉ graph.tasks.keys then (.error (.dependencyNotFound dependsOnId), graph)
  else if taskId = dependsOnId then (.error .dependsOnItself, graph)
  else
    match graph.adjacency.get? dependsOnId with
    | none => (.error (.missingKey dependsOnId), graph)
    | some dependents =>
        if taskId ∉ dependents then
          { graph with adjacency := graph.adjacency.set dependsOnId (dependents ++ [taskId]) }
            |>.countDependency taskId dependsOnId
        else (.ok (), graph)

/-- A call that fills the graph. A task object is new, and its list of dependencies empty. -/
inductive Call
  | addTask (id name : String) (priority : ℤ)
  | addDependency (taskId dependsOnId : String)

def exec (graph : TaskGraph) : Call → Except GraphError Unit × TaskGraph
  | .addTask id name priority => graph.addTask ⟨id, name, priority, []⟩
  | .addDependency taskId dependsOnId => graph.addDependency taskId dependsOnId

/-- The graph after some calls, each of which may have raised. -/
def run (calls : List Call) : TaskGraph := calls.foldl (fun graph call => (graph.exec call).2) empty

/-! ### The sort -/

variable (lower : String → String)

/-- `TaskGraph._task_sort_key`; `lower` is the method of strings. The code raises a `KeyError` on an id
without a task and only asks for ids that have one. -/
def sortKey (graph : TaskGraph) (id : String) : ℤ ×ₗ String ×ₗ String :=
  match graph.tasks.get? id with
  | some task => toLex (-task.priority, toLex (lower task.name, id))
  | none => toLex (0, toLex ("", id))

/-- `sorted(ids, key=self._task_sort_key)`. -/
def sortedIds (graph : TaskGraph) (ids : List String) : List String :=
  ids.insertionSort fun a b => graph.sortKey lower a ≤ graph.sortKey lower b

/-- `TaskGraph.validate_no_cycles`: the nested `has_cycle_dfs` from each task that is not visited yet. -/
def validateNoCycles (graph : TaskGraph) : Except GraphError Bool :=
  match Search.findsCycle (fun id => graph.sortedIds lower (graph.neighbors id))
      graph.tasks.keys.length (graph.sortedIds lower graph.tasks.keys) with
  | some found => .ok (!found)
  | none => .error .diverged

/-- The `while queue` loop, to `fuel` rounds. The counters and the heap change together: a counter that
drops to zero pushes its task. -/
def drain (graph : TaskGraph) : ℕ → Countdown String → List String → Except GraphError (List String)
  | 0, _, _ => .error .diverged
  | fuel + 1, state, result =>
      match state.ready with
      | [] => .ok result
      | node :: queue =>
          graph.drain fuel
            ((graph.sortedIds lower (graph.neighbors node)).foldl
              (Countdown.release (graph.sortKey lower)) ⟨state.count, queue⟩)
            (result ++ [node])

/-- The copy of the counters and the heap of the tasks without dependencies. -/
def initialCountdown (graph : TaskGraph) : Countdown String where
  count := graph.inDegree
  ready := graph.sortedIds lower (graph.tasks.keys.filter fun id => graph.inDegree.getD id 0 = 0)

def topologicalSort (graph : TaskGraph) : Except GraphError (List String) :=
  match graph.validateNoCycles lower with
  | .error e => .error e
  | .ok false => .error .containsCycles
  | .ok true =>
      match graph.drain lower (graph.tasks.keys.length + 1) (graph.initialCountdown lower) [] with
      | .error e => .error e
      | .ok result =>
          if result.length ≠ graph.tasks.keys.length then .error .unreachable else .ok result

/-! ### The three records of an edge -/

/-- The task waits for `d`. -/
def DependsOn (graph : TaskGraph) (t d : String) : Prop := t ∈ graph.neighbors d

/-- Adjacency, counters and the lists of the task objects tell the same edges. -/
structure Consistent (graph : TaskGraph) : Prop where
  adjacency_keys : graph.adjacency.keys = graph.tasks.keys
  degree_keys : graph.inDegree.keys = graph.tasks.keys
  neighbors_nodup : ∀ d, (graph.neighbors d).Nodup
  edge : ∀ t d, graph.DependsOn t d → t ∈ graph.tasks.keys ∧ d ∈ graph.tasks.keys ∧ t ≠ d
  dependencies : ∀ t task, graph.tasks.get? t = some task →
    task.dependencies.Nodup ∧ (∀ d, d ∈ task.dependencies ↔ graph.DependsOn t d)
      ∧ graph.inDegree.get? t = some (task.dependencies.length : ℤ)

variable {graph : TaskGraph}

theorem neighbors_of_get? {id : String} {ids : List String} (h : graph.adjacency.get? id = some ids) :
    graph.neighbors id = ids := by
  rw [neighbors, Dict.getD, h]
  rfl

theorem neighbors_set (graph : TaskGraph) (id : String) (ids : List String) (d : String) :
    ({ graph with adjacency := graph.adjacency.set id ids } : TaskGraph).neighbors d
      = if d = id then ids else graph.neighbors d := by
  simp only [neighbors, Dict.getD, Dict.get?_set]
  split <;> rfl

theorem consistent_empty : Consistent empty where
  adjacency_keys := rfl
  degree_keys := rfl
  neighbors_nodup _ := List.nodup_nil
  edge _ _ h := absurd h List.not_mem_nil
  dependencies _ _ h := by cases h

/-- A task that is new to the graph has no edges. -/
theorem Consistent.not_dependsOn (h : graph.Consistent) {id : String} (hnew : id ∉ graph.tasks.keys)
    (d : String) : ¬ graph.DependsOn id d ∧ ¬ graph.DependsOn d id :=
  ⟨fun hedge => hnew (h.edge id d hedge).1, fun hedge => hnew (h.edge d id hedge).2.1⟩

theorem Consistent.insert (h : graph.Consistent) {task : Task} (hnew : task.id ∉ graph.tasks.keys)
    (hnil : task.dependencies = []) : (graph.addTask task).2.Consistent := by
  have hadjacency : task.id ∉ graph.adjacency.keys := h.adjacency_keys ▸ hnew
  have hdegree : task.id ∉ graph.inDegree.keys := h.degree_keys ▸ hnew
  have hneighbors : ∀ d, (graph.addTask task).2.neighbors d = graph.neighbors d := by
    intro d
    rw [addTask, if_pos hnew]
    refine (neighbors_set graph task.id [] d).trans ?_
    split
    · rename_i hd
      have hnone := (graph.adjacency.get?_eq_none_iff d).2 (hd ▸ hadjacency)
      rw [neighbors, Dict.getD, hnone]
      rfl
    · rfl
  have hedge : ∀ t d, (graph.addTask task).2.DependsOn t d ↔ graph.DependsOn t d := fun t d => by
    rw [DependsOn, DependsOn, hneighbors]
  have hkeys : (graph.addTask task).2.tasks.keys = graph.tasks.keys ++ [task.id] := by
    rw [addTask, if_pos hnew]
    exact Dict.keys_set_of_not_mem hnew task
  constructor
  · rw [hkeys, addTask, if_pos hnew]
    exact (Dict.keys_set_of_not_mem hadjacency []).trans (by rw [h.adjacency_keys])
  · rw [hkeys, addTask, if_pos hnew]
    exact (Dict.keys_set_of_not_mem hdegree 0).trans (by rw [h.degree_keys])
  · exact fun d => hneighbors d ▸ h.neighbors_nodup d
  · intro t d htd
    obtain ⟨ht, hd, hne⟩ := h.edge t d ((hedge t d).1 htd)
    rw [hkeys]
    exact ⟨List.mem_append_left _ ht, List.mem_append_left _ hd, hne⟩
  · intro t other hother
    simp only [hedge]
    rw [addTask, if_pos hnew] at hother ⊢
    simp only [Dict.get?_set] at hother ⊢
    split at hother
    · rename_i ht
      obtain rfl := Option.some.inj hother
      rw [if_pos ht, hnil, ht]
      exact ⟨List.nodup_nil, fun d => iff_of_false List.not_mem_nil (h.not_dependsOn hnew d).1, rfl⟩
    · rename_i ht
      rw [if_neg ht]
      exact h.dependencies t other hother

/-- The graph once `t` waits for `d` as well; `task` is the object of `t`, and `dependents` were waiting
for `d` before. -/
def withEdge (graph : TaskGraph) (t d : String) (task : Task) (dependents : List String) : TaskGraph where
  tasks := graph.tasks.set t { task with dependencies := task.dependencies ++ [d] }
  adjacency := graph.adjacency.set d (dependents ++ [t])
  inDegree := graph.inDegree.set t (task.dependencies.length + 1)

theorem neighbors_withEdge {t d : String} {task : Task} {dependents : List String} (x : String) :
    (graph.withEdge t d task dependents).neighbors x
      = if x = d then dependents ++ [t] else graph.neighbors x :=
  neighbors_set graph d (dependents ++ [t]) x

theorem dependsOn_withEdge {t d : String} {task : Task} {dependents : List String}
    (hdependents : graph.adjacency.get? d = some dependents) (x y : String) :
    (graph.withEdge t d task dependents).DependsOn x y
      ↔ graph.DependsOn x y ∨ (x = t ∧ y = d) := by
  rw [DependsOn, DependsOn, neighbors_withEdge]
  by_cases hy : y = d
  · rw [if_pos hy, hy, neighbors_of_get? hdependents, List.mem_append, List.mem_singleton]
    simp
  · simp [hy]

theorem Consistent.withEdge (h : graph.Consistent) {t d : String} {task : Task}
    {dependents : List String} (htask : graph.tasks.get? t = some task)
    (hdependents : graph.adjacency.get? d = some dependents) (hne : t ≠ d) (hnew : t ∉ dependents) :
    (graph.withEdge t d task dependents).Consistent := by
  have ht : t ∈ graph.tasks.keys := (graph.tasks.get?_isSome_iff t).1 (by rw [htask]; rfl)
  have hd : d ∈ graph.adjacency.keys :=
    (graph.adjacency.get?_isSome_iff d).1 (by rw [hdependents]; rfl)
  have hedge := @dependsOn_withEdge graph t d task dependents hdependents
  have hkeys : (graph.withEdge t d task dependents).tasks.keys = graph.tasks.keys :=
    Dict.keys_set_of_mem ht _
  constructor
  · exact (Dict.keys_set_of_mem hd _).trans (h.adjacency_keys.trans hkeys.symm)
  · exact (Dict.keys_set_of_mem (h.degree_keys ▸ ht) _).trans (h.degree_keys.trans hkeys.symm)
  · intro x
    rw [neighbors_withEdge]
    split
    · rw [← List.concat_eq_append]
      exact List.Nodup.concat hnew (neighbors_of_get? hdependents ▸ h.neighbors_nodup d)
    · exact h.neighbors_nodup x
  · intro x y hxy
    rw [hkeys]
    rcases (hedge x y).1 hxy with hold | ⟨rfl, rfl⟩
    · exact h.edge x y hold
    · exact ⟨ht, h.adjacency_keys ▸ hd, hne⟩
  · intro x other hother
    simp only [hedge]
    simp only [TaskGraph.withEdge, Dict.get?_set] at hother ⊢
    split at hother
    · rename_i hx
      obtain rfl := Option.some.inj hother
      obtain ⟨hnodup, hmem, -⟩ := h.dependencies t task htask
      have hlisted : d ∉ task.dependencies := fun hlisted =>
        hnew (neighbors_of_get? hdependents ▸ (hmem d).1 hlisted)
      refine ⟨?_, fun y => ?_, ?_⟩
      · rw [← List.concat_eq_append]
        exact List.Nodup.concat hlisted hnodup
      · rw [List.mem_append, List.mem_singleton, hmem, hx]
        simp
      · rw [if_pos hx, List.length_append, List.length_singleton]
        rfl
    · rename_i hx
      rw [if_neg hx]
      obtain ⟨hnodup, hmem, hdegree⟩ := h.dependencies x other hother
      exact ⟨hnodup, fun y => by simp [hmem y, hx], hdegree⟩

/-- **A new edge is entered in all three places.** -/
theorem Consistent.connect (h : graph.Consistent) {t d : String} (ht : t ∈ graph.tasks.keys)
    (hd : d ∈ graph.tasks.keys) (hne : t ≠ d) (hnew : t ∉ graph.neighbors d) :
    ∃ next, graph.addDependency t d = (.ok (), next) ∧ next.Consistent := by
  obtain ⟨task, htask⟩ := Option.isSome_iff_exists.1 ((graph.tasks.get?_isSome_iff t).2 ht)
  obtain ⟨dependents, hdependents⟩ := Option.isSome_iff_exists.1
    ((graph.adjacency.get?_isSome_iff d).2 (h.adjacency_keys ▸ hd))
  obtain ⟨-, hmem, hdegree⟩ := h.dependencies t task htask
  have hlisted : d ∉ task.dependencies := fun hlisted => hnew ((hmem d).1 hlisted)
  rw [neighbors_of_get? hdependents] at hnew
  refine ⟨graph.withEdge t d task dependents, ?_, h.withEdge htask hdependents hne hnew⟩
  rw [addDependency, if_neg (not_not.2 ht), if_neg (not_not.2 hd), if_neg hne, hdependents]
  simp only [if_pos hnew, countDependency, hdegree, listDependency, htask, if_pos hlisted,
    TaskGraph.withEdge]

/-- A call leaves the graph consistent, and as it was if it raises. -/
theorem Consistent.exec (h : graph.Consistent) (call : Call) :
    (graph.exec call).2.Consistent
      ∧ ∀ e, (graph.exec call).1 = .error e → (graph.exec call).2 = graph := by
  cases call with
  | addTask id name priority =>
      by_cases hnew : id ∉ graph.tasks.keys
      · refine ⟨h.insert hnew rfl, fun e he => ?_⟩
        rw [TaskGraph.exec, addTask, if_pos hnew] at he
        cases he
      · rw [TaskGraph.exec, addTask, if_neg hnew]
        exact ⟨h, fun _ _ => rfl⟩
  | addDependency t d =>
      by_cases ht : t ∉ graph.tasks.keys
      · rw [TaskGraph.exec, addDependency, if_pos ht]
        exact ⟨h, fun _ _ => rfl⟩
      by_cases hd : d ∉ graph.tasks.keys
      · rw [TaskGraph.exec, addDependency, if_neg ht, if_pos hd]
        exact ⟨h, fun _ _ => rfl⟩
      by_cases hne : t = d
      · rw [TaskGraph.exec, addDependency, if_neg ht, if_neg hd, if_pos hne]
        exact ⟨h, fun _ _ => rfl⟩
      by_cases hold : t ∈ graph.neighbors d
      · obtain ⟨dependents, hdependents⟩ := Option.isSome_iff_exists.1
          ((graph.adjacency.get?_isSome_iff d).2 (h.adjacency_keys ▸ not_not.1 hd))
        rw [neighbors_of_get? hdependents] at hold
        have hsame : graph.addDependency t d = (.ok (), graph) := by
          rw [addDependency, if_neg ht, if_neg hd, if_neg hne, hdependents]
          exact if_neg (not_not.2 hold)
        rw [TaskGraph.exec, hsame]
        exact ⟨h, fun _ _ => rfl⟩
      · obtain ⟨next, hok, hnext⟩ := h.connect (not_not.1 ht) (not_not.1 hd) hne hold
        rw [TaskGraph.exec, hok]
        exact ⟨hnext, fun _ he => by cases he⟩

theorem consistent_run (calls : List Call) : (run calls).Consistent :=
  List.foldlRecOn calls _ consistent_empty fun _ h call _ => (h.exec call).1

/-- The counter of a task counts the tasks whose adjacency names it. -/
theorem Consistent.degree_eq (h : graph.Consistent) {t : String} (ht : t ∈ graph.tasks.keys) :
    graph.inDegree.get? t
      = some ((graph.tasks.keys.filter fun d => t ∈ graph.neighbors d).length : ℤ) := by
  obtain ⟨task, htask⟩ := Option.isSome_iff_exists.1 ((graph.tasks.get?_isSome_iff t).2 ht)
  obtain ⟨hnodup, hmem, hdegree⟩ := h.dependencies t task htask
  have hperm : task.dependencies.Perm (graph.tasks.keys.filter fun d => t ∈ graph.neighbors d) := by
    refine (List.perm_ext_iff_of_nodup hnodup (graph.tasks.nodup.filter _)).2 fun d => ?_
    rw [hmem, List.mem_filter, decide_eq_true_iff]
    exact ⟨fun hedge => ⟨(h.edge t d hedge).2.1, hedge⟩, And.right⟩
  rw [hdegree, hperm.length_eq]

end TaskGraph

end PersonalDevin.Planning
