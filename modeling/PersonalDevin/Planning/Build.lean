import PersonalDevin.Planning.Graph
import Mathlib.Data.List.Dedup

/-!
# What `build` makes of a validated task list

The construction adds one edge after another, so its invariant names the edges added so far: the
neighbors of a node are the distinct dependents, the in-degree counts the edges with their
repetitions. The traversal rests on nothing else, so `Represents` is all it is given.
-/

namespace PersonalDevin.Planning

open Lib (Dict)

namespace DependencyGraph

/-- The graph after the edges `(task, dependency)` have been added between the ids. -/
structure Wired (ids : List String) (edges : List (String × String)) (graph : DependencyGraph) :
    Prop where
  adjacency_keys : graph.adjacency.keys = ids
  degree_keys : graph.inDegree.keys = ids
  neighbors_nodup : ∀ id, (graph.neighbors id).Nodup
  mem_neighbors : ∀ id x, x ∈ graph.neighbors id ↔ (x, id) ∈ edges
  degree_eq : ∀ x ∈ ids, graph.inDegree.get? x = some ((edges.countP (·.1 = x) : ℕ) : ℤ)

theorem neighbors_set (graph : DependencyGraph) (dep : String) (dependents : List String)
    (inDegree : Dict String Int) (id : String) :
    neighbors { graph with adjacency := graph.adjacency.set dep dependents, inDegree } id
      = if id = dep then dependents else graph.neighbors id := by
  simp only [neighbors, Dict.getD, Dict.get?_set]
  split <;> rfl

theorem Wired.addDependency {ids : List String} {edges : List (String × String)}
    {graph : DependencyGraph} (h : graph.Wired ids edges) {taskId dep : String}
    (htask : taskId ∈ ids) (hdep : dep ∈ ids) :
    ∃ next, graph.addDependency taskId dep = .ok next ∧ next.nodes = graph.nodes
      ∧ next.Wired ids (edges ++ [(taskId, dep)]) := by
  obtain ⟨dependents, hdependents⟩ : ∃ l, graph.adjacency.get? dep = some l :=
    Option.isSome_iff_exists.1 ((graph.adjacency.get?_isSome_iff dep).2 (h.adjacency_keys ▸ hdep))
  have hdegree := h.degree_eq taskId htask
  have hneighbors : graph.neighbors dep = dependents := by
    rw [neighbors, Dict.getD, hdependents]
    rfl
  have hok : graph.addDependency taskId dep = .ok { graph with
      adjacency := graph.adjacency.set dep (dependents.insert taskId)
      inDegree := graph.inDegree.set taskId (edges.countP (·.1 = taskId) + 1) } := by
    simp only [DependencyGraph.addDependency, hdependents, hdegree]
  refine ⟨_, hok, rfl, ?_⟩
  constructor
  · rw [Dict.keys_set_of_mem (h.adjacency_keys ▸ hdep)]
    exact h.adjacency_keys
  · rw [Dict.keys_set_of_mem (h.degree_keys ▸ htask)]
    exact h.degree_keys
  · intro id
    rw [neighbors_set]
    split
    · exact (hneighbors ▸ h.neighbors_nodup dep).insert
    · exact h.neighbors_nodup id
  · intro id x
    rw [neighbors_set, List.mem_append, List.mem_singleton, Prod.mk.injEq]
    split
    · rename_i hid
      subst hid
      rw [List.mem_insert_iff, ← hneighbors, h.mem_neighbors]
      simp [or_comm]
    · rename_i hid
      rw [h.mem_neighbors]
      simp [hid]
  · intro x hx
    rw [Dict.get?_set, List.countP_append]
    by_cases hxt : x = taskId
    · simp [hxt]
    · have hne : taskId ≠ x := fun heq => hxt heq.symm
      rw [if_neg hxt, h.degree_eq x hx]
      simp [hne]

theorem Wired.addDependencies {ids : List String} {edges : List (String × String)}
    {graph : DependencyGraph} (h : graph.Wired ids edges) {taskId : String} {deps : List String}
    (htask : taskId ∈ ids) (hdeps : ∀ dep ∈ deps, dep ∈ ids) :
    ∃ next, graph.addDependencies taskId deps = .ok next ∧ next.nodes = graph.nodes
      ∧ next.Wired ids (edges ++ deps.map fun dep => (taskId, dep)) := by
  induction deps generalizing graph edges with
  | nil => exact ⟨graph, rfl, rfl, by simpa using h⟩
  | cons dep rest ih =>
      obtain ⟨next, hok, hnodes, hwired⟩ := h.addDependency htask (hdeps dep List.mem_cons_self)
      obtain ⟨last, hrest, hnodes', hwired'⟩ :=
        ih hwired fun other hmem => hdeps other (List.mem_cons_of_mem dep hmem)
      refine ⟨last, by simp only [DependencyGraph.addDependencies, hok, hrest],
        hnodes'.trans hnodes, ?_⟩
      simpa using hwired'

/-- The edges of a task list, one for each entry of a dependency list. -/
def edgesOf (tasks : List TaskNode) : List (String × String) :=
  tasks.flatMap fun task => task.dependencies.map fun dep => (task.id, dep)

theorem Wired.addTasks {ids : List String} {edges : List (String × String)}
    {graph : DependencyGraph} (h : graph.Wired ids edges) {tasks : List TaskNode}
    (hids : ∀ task ∈ tasks, task.id ∈ ids)
    (hdeps : ∀ task ∈ tasks, ∀ dep ∈ task.dependencies, dep ∈ ids) :
    ∃ next, graph.addTasks tasks = .ok next ∧ next.nodes = graph.nodes
      ∧ next.Wired ids (edges ++ edgesOf tasks) := by
  induction tasks generalizing graph edges with
  | nil => exact ⟨graph, rfl, rfl, by simpa [edgesOf] using h⟩
  | cons task rest ih =>
      rw [List.forall_mem_cons] at hids hdeps
      obtain ⟨next, hok, hnodes, hwired⟩ := h.addDependencies hids.1 hdeps.1
      obtain ⟨last, hrest, hnodes', hwired'⟩ := ih hwired hids.2 hdeps.2
      refine ⟨last, by simp only [DependencyGraph.addTasks, hok, hrest], hnodes'.trans hnodes, ?_⟩
      simpa [edgesOf] using hwired'

/-! ### The first loop -/

/-- The graph after the first loop has seen the tasks `done`. -/
structure Seeded (done : List TaskNode) (graph : DependencyGraph) : Prop where
  node_keys : graph.nodes.keys = done.map TaskNode.id
  node_eq : ∀ task ∈ done, graph.nodes.get? task.id = some task
  adjacency_keys : graph.adjacency.keys = done.map TaskNode.id
  degree_keys : graph.inDegree.keys = done.map TaskNode.id
  neighbors_eq : ∀ id, graph.neighbors id = []
  degree_eq : ∀ task ∈ done, graph.inDegree.get? task.id = some 0

theorem seeded_empty : Seeded [] empty where
  node_keys := rfl
  node_eq _ h := absurd h List.not_mem_nil
  adjacency_keys := rfl
  degree_keys := rfl
  neighbors_eq _ := rfl
  degree_eq _ h := absurd h List.not_mem_nil

theorem Seeded.addNode {done : List TaskNode} {graph : DependencyGraph} (h : graph.Seeded done)
    {task : TaskNode} (hfresh : task.id ∉ done.map TaskNode.id) :
    (graph.addNode task).Seeded (done ++ [task]) := by
  have hne : ∀ other ∈ done, other.id ≠ task.id := fun other hmem heq =>
    hfresh (List.mem_map.2 ⟨other, hmem, heq⟩)
  constructor
  · rw [DependencyGraph.addNode, Dict.keys_set_of_not_mem (h.node_keys ▸ hfresh), h.node_keys]
    simp
  · intro other hmem
    rcases List.mem_append.1 hmem with hdone | hlast
    · rw [DependencyGraph.addNode, Dict.get?_set_of_ne _ (hne other hdone), h.node_eq other hdone]
    · rw [List.mem_singleton.1 hlast, DependencyGraph.addNode, Dict.get?_set_self]
  · rw [DependencyGraph.addNode, Dict.keys_set_of_not_mem (h.adjacency_keys ▸ hfresh),
      h.adjacency_keys]
    simp
  · rw [DependencyGraph.addNode, Dict.keys_set_of_not_mem (h.degree_keys ▸ hfresh), h.degree_keys]
    simp
  · intro id
    have hold := h.neighbors_eq id
    simp only [neighbors, DependencyGraph.addNode, Dict.getD, Dict.get?_set] at hold ⊢
    split
    · rfl
    · exact hold
  · intro other hmem
    rcases List.mem_append.1 hmem with hdone | hlast
    · rw [DependencyGraph.addNode, Dict.get?_set_of_ne _ (hne other hdone), h.degree_eq other hdone]
    · rw [List.mem_singleton.1 hlast, DependencyGraph.addNode, Dict.get?_set_self]

theorem Seeded.foldl {done tasks : List TaskNode} {graph : DependencyGraph} (h : graph.Seeded done)
    (hnodup : ((done ++ tasks).map TaskNode.id).Nodup) :
    (tasks.foldl DependencyGraph.addNode graph).Seeded (done ++ tasks) := by
  induction tasks generalizing done graph with
  | nil => simpa using h
  | cons task rest ih =>
      have hfresh : task.id ∉ done.map TaskNode.id := by
        rw [List.map_append, List.nodup_append] at hnodup
        exact fun hmem => hnodup.2.2 _ hmem _ (by simp) rfl
      have hstep := ih (h.addNode hfresh) (by simpa using hnodup)
      simpa using hstep

theorem Seeded.wired {done : List TaskNode} {graph : DependencyGraph} (h : graph.Seeded done) :
    graph.Wired (done.map TaskNode.id) [] where
  adjacency_keys := h.adjacency_keys
  degree_keys := h.degree_keys
  neighbors_nodup id := by
    rw [h.neighbors_eq id]
    exact List.nodup_nil
  mem_neighbors id x := by
    rw [h.neighbors_eq id]
    simp
  degree_eq x hx := by
    obtain ⟨task, hmem, rfl⟩ := List.mem_map.1 hx
    simpa using h.degree_eq task hmem

/-! ### The finished graph -/

/-- The graph of a task list: each node with its distinct dependents, and its in-degree the length
of its dependency list. -/
structure Represents (tasks : List TaskNode) (graph : DependencyGraph) : Prop where
  node_keys : graph.nodes.keys = tasks.map TaskNode.id
  node_eq : ∀ task ∈ tasks, graph.nodes.get? task.id = some task
  degree_keys : graph.inDegree.keys = tasks.map TaskNode.id
  neighbors_nodup : ∀ id, (graph.neighbors id).Nodup
  mem_neighbors : ∀ id x, x ∈ graph.neighbors id ↔ id ∈ depsOf tasks x
  degree_eq : ∀ x ∈ tasks.map TaskNode.id,
    graph.inDegree.get? x = some ((depsOf tasks x).length : ℤ)

theorem mem_edgesOf {tasks : List TaskNode} {x dep : String} :
    (x, dep) ∈ edgesOf tasks ↔ DependsOn tasks x dep := by
  simp only [edgesOf, List.mem_flatMap, List.mem_map, Prod.mk.injEq, DependsOn]
  constructor
  · rintro ⟨task, hmem, _, hdep, hid, rfl⟩
    exact ⟨task, hmem, hid, hdep⟩
  · rintro ⟨task, hmem, hid, hdep⟩
    exact ⟨task, hmem, dep, hdep, hid, rfl⟩

theorem countP_edgesOf_eq_zero {tasks : List TaskNode} {x : String}
    (hx : x ∉ tasks.map TaskNode.id) : (edgesOf tasks).countP (·.1 = x) = 0 := by
  rw [List.countP_eq_zero]
  rintro ⟨y, dep⟩ hedge
  obtain ⟨task, hmem, hid, _⟩ := mem_edgesOf.1 hedge
  simpa using fun heq : y = x => hx (heq ▸ List.mem_map.2 ⟨task, hmem, hid⟩)

theorem countP_edgesOf {tasks : List TaskNode} (hnodup : (tasks.map TaskNode.id).Nodup)
    {task : TaskNode} (htask : task ∈ tasks) :
    (edgesOf tasks).countP (·.1 = task.id) = task.dependencies.length := by
  induction tasks with
  | nil => cases htask
  | cons first rest ih =>
      have hsplit : edgesOf (first :: rest)
          = (first.dependencies.map fun dep => (first.id, dep)) ++ edgesOf rest := rfl
      rw [List.map_cons, List.nodup_cons] at hnodup
      rw [hsplit, List.countP_append, List.countP_map]
      rcases List.mem_cons.1 htask with rfl | hrest
      · rw [countP_edgesOf_eq_zero hnodup.1, Nat.add_zero]
        exact List.countP_eq_length.2 fun _ _ => by simp
      · have hne : first.id ≠ task.id := fun heq =>
          hnodup.1 (heq ▸ List.mem_map.2 ⟨task, hrest, rfl⟩)
        have hfirst : first.dependencies.countP ((fun edge : String × String =>
            decide (edge.1 = task.id)) ∘ fun dep => (first.id, dep)) = 0 :=
          List.countP_eq_zero.2 fun _ _ => by simpa using hne
        rw [hfirst, ih hnodup.2 hrest, Nat.zero_add]

/-- **`build` succeeds on a validated list and represents it.** -/
theorem build_represents {tasks : List TaskNode} (hvalid : ValidTasks tasks) :
    ∃ graph, build tasks = .ok graph ∧ graph.Represents tasks := by
  have hseeded : (tasks.foldl addNode empty).Seeded tasks := by
    have hnodup : (([] ++ tasks).map TaskNode.id).Nodup := hvalid.nodup
    exact seeded_empty.foldl hnodup
  obtain ⟨graph, hok, hnodes, hwired⟩ := hseeded.wired.addTasks
    (fun task hmem => List.mem_map.2 ⟨task, hmem, rfl⟩) hvalid.known
  refine ⟨graph, hok, ?_⟩
  constructor
  · rw [hnodes, hseeded.node_keys]
  · rw [hnodes]
    exact hseeded.node_eq
  · exact hwired.degree_keys
  · exact hwired.neighbors_nodup
  · intro id x
    rw [hwired.mem_neighbors, List.nil_append, mem_edgesOf, hvalid.dependsOn_iff]
  · intro x hx
    obtain ⟨task, hmem, rfl⟩ := List.mem_map.1 hx
    rw [hwired.degree_eq _ hx, List.nil_append, countP_edgesOf hvalid.nodup hmem,
      hvalid.depsOf_eq hmem]

end DependencyGraph

end PersonalDevin.Planning
