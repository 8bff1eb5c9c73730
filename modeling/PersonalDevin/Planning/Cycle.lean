import PersonalDevin.Lib.Search
import PersonalDevin.Planning.Build

/-!
# The cycle check

The check is the library's depth-first search with the neighbors of each node and the roots sorted.
The answer does not depend on the sorting: `hasCycleIn` is the same search with the nodes in any
order, and it answers whether the edges of the graph have a cycle.
-/

namespace PersonalDevin.Planning

open Lib Relation

namespace DependencyGraph

variable (graph : DependencyGraph)

/-- The forward edges: the dependents of a node. -/
def Edge (a b : String) : Prop := b ∈ graph.neighbors a

/-- `has_cycle` when the loop over the neighbors of a node runs in the given order, and the loop over
the nodes in the order of `roots`. -/
def hasCycleIn (order : String → List String) (roots : List String) : Except PlanError Bool :=
  match Lib.Search.findsCycle order graph.nodes.keys.length roots with
  | none => .error .diverged
  | some answer => .ok answer

/-- The check ended, and its answer is whether a path along the adjacency leads back to its start. -/
def DecidesCycle (result : Except PlanError Bool) : Prop :=
  ∃ answer, result = .ok answer ∧ (answer = true ↔ ∃ id, TransGen graph.Edge id id)

variable {graph}

theorem mem_sorted {ids : List String} {id : String} : id ∈ sorted ids ↔ id ∈ ids :=
  List.mem_insertionSort (· ≤ ·)

theorem sorted_perm (ids : List String) : (sorted ids).Perm ids :=
  List.perm_insertionSort (· ≤ ·) ids

/-! ### The check as an instance of the search -/

/-- The outcome of a call of the library's search, in the terms of `_dfs`. -/
def found : Option (Bool × Lib.Search String) → Except PlanError (Bool × Search)
  | none => .error .diverged
  | some (answer, search) => .ok (answer, ⟨search.visited, search.stack⟩)

theorem visitNeighbors_eq {dfs : String → Search → Except PlanError (Bool × Search)}
    {visit : String → Lib.Search String → Option (Bool × Lib.Search String)}
    (hdfs : ∀ id search, dfs id ⟨search.visited, search.stack⟩ = found (visit id search))
    (targets : List String) (search : Lib.Search String) :
    visitNeighbors dfs targets ⟨search.visited, search.stack⟩
      = found (Lib.Search.visitAll visit targets search) := by
  induction targets generalizing search with
  | nil => rfl
  | cons id rest ih =>
      rw [visitNeighbors, Lib.Search.visitAll, hdfs]
      split
      · rcases visit id search with _ | ⟨_ | _, next⟩
        · rfl
        · exact ih next
        · rfl
      · split
        · rfl
        · exact ih search

theorem dfs_eq (graph : DependencyGraph) (fuel : ℕ) (id : String) (search : Lib.Search String) :
    graph.dfs fuel id ⟨search.visited, search.stack⟩
      = found (Lib.Search.visit (fun id => sorted (graph.neighbors id)) fuel id search) := by
  induction fuel generalizing id search with
  | zero => rfl
  | succ fuel ih =>
      have hall := visitNeighbors_eq ih (sorted (graph.neighbors id))
        ⟨insert id search.visited, insert id search.stack⟩
      rw [dfs, Lib.Search.visit, hall]
      rcases Lib.Search.visitAll _ (sorted (graph.neighbors id)) _ with _ | ⟨_ | _, next⟩ <;> rfl

theorem visitRoots_eq (graph : DependencyGraph) (fuel : ℕ) (roots : List String)
    (search : Lib.Search String) :
    visitRoots (graph.dfs fuel) roots ⟨search.visited, search.stack⟩
      = match Lib.Search.visitRoots
          (Lib.Search.visit (fun id => sorted (graph.neighbors id)) fuel) roots search with
        | none => .error .diverged
        | some answer => .ok answer := by
  induction roots generalizing search with
  | nil => rfl
  | cons id rest ih =>
      rw [visitRoots, Lib.Search.visitRoots, dfs_eq]
      split
      · exact ih search
      · rcases Lib.Search.visit _ fuel id search with _ | ⟨_ | _, next⟩
        · rfl
        · exact ih next
        · rfl

/-- `has_cycle` visits in sorted order. -/
theorem hasCycle_eq (graph : DependencyGraph) :
    graph.hasCycle
      = graph.hasCycleIn (fun id => sorted (graph.neighbors id)) (sorted graph.nodes.keys) :=
  visitRoots_eq graph graph.nodes.keys.length (sorted graph.nodes.keys) ⟨∅, ∅⟩

/-! ### The check on a built graph -/

theorem Represents.edge_iff {tasks : List TaskNode} (h : graph.Represents tasks)
    (hvalid : ValidTasks tasks) {a b : String} : graph.Edge a b ↔ DependsOn tasks b a := by
  rw [Edge, h.mem_neighbors, hvalid.dependsOn_iff]

theorem Represents.acyclic_iff {tasks : List TaskNode} (h : graph.Represents tasks)
    (hvalid : ValidTasks tasks) : Acyclic graph.Edge ↔ Acyclic (DependsOn tasks) := by
  have hswap : graph.Edge = Function.swap (DependsOn tasks) := by
    funext a b
    exact propext (h.edge_iff hvalid)
  rw [hswap]
  exact acyclic_swap

theorem Represents.edge_closed {tasks : List TaskNode} (h : graph.Represents tasks)
    (hvalid : ValidTasks tasks) {a b : String} (hedge : graph.Edge a b) : b ∈ graph.nodes.keys := by
  obtain ⟨task, htask, hid, _⟩ := (h.edge_iff hvalid).1 hedge
  exact h.node_keys ▸ List.mem_map.2 ⟨task, htask, hid⟩

/-- The search in any order answers whether the edges have a cycle. -/
theorem Represents.hasCycleIn_spec {tasks : List TaskNode} (h : graph.Represents tasks)
    (hvalid : ValidTasks tasks) {order : String → List String} {roots : List String}
    (horder : ∀ id, (order id).Perm (graph.neighbors id)) (hroots : roots.Perm graph.nodes.keys) :
    (graph.hasCycleIn order roots = .ok false ∧ Acyclic graph.Edge)
      ∨ (graph.hasCycleIn order roots = .ok true ∧ ∃ id, TransGen graph.Edge id id) := by
  have hedge : Lib.Search.Edge order = graph.Edge := by
    funext a b
    exact propext (horder a).mem_iff
  have hclosed : ∀ a b, Lib.Search.Edge order a b → b ∈ roots := fun a b hab => by
    rw [hedge] at hab
    exact hroots.mem_iff.2 (h.edge_closed hvalid hab)
  have hfuel : roots.toFinset.card ≤ graph.nodes.keys.length :=
    (List.toFinset_card_le roots).trans hroots.length_eq.le
  rw [← hedge]
  rcases Lib.Search.findsCycle_spec hclosed hfuel with ⟨hok, hacyclic⟩ | ⟨hok, hcycle⟩
  · exact .inl ⟨by rw [hasCycleIn, hok], hacyclic⟩
  · exact .inr ⟨by rw [hasCycleIn, hok], hcycle⟩

/-- **`has_cycle` terminates and answers whether the dependency relation has a cycle.** -/
theorem Represents.hasCycle_spec {tasks : List TaskNode} (h : graph.Represents tasks)
    (hvalid : ValidTasks tasks) :
    (graph.hasCycle = .ok false ∧ Acyclic (DependsOn tasks))
      ∨ (graph.hasCycle = .ok true ∧ ¬ Acyclic (DependsOn tasks)) := by
  rw [hasCycle_eq, ← h.acyclic_iff hvalid]
  refine (h.hasCycleIn_spec hvalid (fun id => sorted_perm (graph.neighbors id))
    (sorted_perm graph.nodes.keys)).imp_right fun ⟨hok, id, hcycle⟩ => ⟨hok, ?_⟩
  exact fun hacyclic => hacyclic id hcycle

/-- **On the graph of tasks with distinct ids and known dependencies, `has_cycle` ends and is true
exactly when the adjacency relation has a directed cycle**, also when the neighbors of each node and
the roots are visited in any other order. -/
theorem build_decidesCycle (tasks : List TaskNode) (hids : (tasks.map TaskNode.id).Nodup)
    (hknown : ∀ task ∈ tasks, ∀ dep ∈ task.dependencies, dep ∈ tasks.map TaskNode.id) :
    ∃ graph, build tasks = .ok graph
      ∧ (∀ a b, graph.Edge a b ↔ DependsOn tasks b a)
      ∧ graph.DecidesCycle graph.hasCycle
      ∧ ∀ (order : String → List String) (roots : List String),
          (∀ id, (order id).Perm (graph.neighbors id)) → roots.Perm graph.nodes.keys →
            graph.DecidesCycle (graph.hasCycleIn order roots) := by
  have hvalid : ValidTasks tasks := ⟨hids, hknown⟩
  obtain ⟨graph, hbuild, hgraph⟩ := build_represents hvalid
  have hany : ∀ (order : String → List String) (roots : List String),
      (∀ id, (order id).Perm (graph.neighbors id)) → roots.Perm graph.nodes.keys →
        graph.DecidesCycle (graph.hasCycleIn order roots) := by
    intro order roots horder hroots
    rcases hgraph.hasCycleIn_spec hvalid horder hroots with ⟨hok, hacyclic⟩ | ⟨hok, hcycle⟩
    · have hnone : ¬ ∃ id, TransGen graph.Edge id id := fun ⟨id, hcycle⟩ => hacyclic id hcycle
      exact ⟨false, hok, iff_of_false Bool.false_ne_true hnone⟩
    · exact ⟨true, hok, iff_of_true rfl hcycle⟩
  refine ⟨graph, hbuild, fun _ _ => hgraph.edge_iff hvalid, ?_, hany⟩
  rw [hasCycle_eq]
  exact hany _ _ (fun id => sorted_perm (graph.neighbors id)) (sorted_perm graph.nodes.keys)

/-- Two tasks that wait for each other and one that waits for itself. -/
theorem build_decidesCycle_knot :
    let tasks : List TaskNode := [⟨"x", "x", ["y"], []⟩, ⟨"y", "y", ["x"], []⟩, ⟨"z", "z", ["z"], []⟩]
    ∃ graph, build tasks = .ok graph
      ∧ (∀ a b, graph.Edge a b ↔ DependsOn tasks b a)
      ∧ graph.DecidesCycle graph.hasCycle
      ∧ ∀ (order : String → List String) (roots : List String),
          (∀ id, (order id).Perm (graph.neighbors id)) → roots.Perm graph.nodes.keys →
            graph.DecidesCycle (graph.hasCycleIn order roots) :=
  build_decidesCycle [⟨"x", "x", ["y"], []⟩, ⟨"y", "y", ["x"], []⟩, ⟨"z", "z", ["z"], []⟩]
    (by decide) (by decide)

end DependencyGraph

end PersonalDevin.Planning
