import PersonalDevin.Lib.Dict
import PersonalDevin.Planning.Model
import Mathlib.Data.List.Sort
import Mathlib.Data.String.Basic
import Mathlib.Data.Finset.Card

/-!
# The dependency graph

`DependencyGraph` of the planner: construction from task nodes, the depth-first cycle check and the
level-by-level traversal. A set of ids is a duplicate-free list, which the code only reads through
`sorted` and membership; a heap is kept as the ascending list of its elements. The recursion and the
loop that the source leaves to run freely carry fuel, and running out of it is `diverged`. The
interpreter's limit on the recursion depth is not modelled.
-/

namespace PersonalDevin.Planning

open Lib (Dict)

structure DependencyGraph where
  nodes : Dict String TaskNode
  adjacency : Dict String (List String)
  inDegree : Dict String Int

namespace DependencyGraph

/-! ### Construction -/

def empty : DependencyGraph := ⟨.empty, .empty, .empty⟩

/-- The first loop of `build`: one node without edges. -/
def addNode (graph : DependencyGraph) (task : TaskNode) : DependencyGraph where
  nodes := graph.nodes.set task.id task
  adjacency := graph.adjacency.set task.id []
  inDegree := graph.inDegree.set task.id 0

/-- The body of the second loop of `build`: `dep` gets `taskId` as a dependent, and the in-degree of
`taskId` grows by one whether or not the edge is new. -/
def addDependency (graph : DependencyGraph) (taskId dep : String) :
    Except PlanError DependencyGraph :=
  match graph.adjacency.get? dep, graph.inDegree.get? taskId with
  | none, _ => .error (.missingKey dep)
  | some _, none => .error (.missingKey taskId)
  | some dependents, some degree =>
      .ok { graph with
        adjacency := graph.adjacency.set dep (dependents.insert taskId)
        inDegree := graph.inDegree.set taskId (degree + 1) }

def addDependencies (graph : DependencyGraph) (taskId : String) :
    List String → Except PlanError DependencyGraph
  | [] => .ok graph
  | dep :: rest =>
      match graph.addDependency taskId dep with
      | .error e => .error e
      | .ok graph => graph.addDependencies taskId rest

def addTasks (graph : DependencyGraph) : List TaskNode → Except PlanError DependencyGraph
  | [] => .ok graph
  | task :: rest =>
      match graph.addDependencies task.id task.dependencies with
      | .error e => .error e
      | .ok graph => graph.addTasks rest

def build (tasks : List TaskNode) : Except PlanError DependencyGraph :=
  (tasks.foldl addNode empty).addTasks tasks

/-- `self._adjacency[id]`. -/
def neighbors (graph : DependencyGraph) (id : String) : List String := graph.adjacency.getD id []

/-- `self._in_degree[id]`. -/
def degree (inDegree : Dict String Int) (id : String) : Int := inDegree.getD id 0

/-- `sorted(ids)`, and the order in which a heap of these ids is popped. -/
def sorted (ids : List String) : List String := ids.insertionSort (· ≤ ·)

/-! ### The cycle check -/

/-- The two sets the nested `_dfs` closes over. -/
structure Search where
  visited : Finset String
  recStack : Finset String

def visitNeighbors (dfs : String → Search → Except PlanError (Bool × Search)) :
    List String → Search → Except PlanError (Bool × Search)
  | [], search => .ok (false, search)
  | neighbor :: rest, search =>
      if neighbor ∉ search.visited then
        match dfs neighbor search with
        | .ok (false, search) => visitNeighbors dfs rest search
        | stop => stop
      else if neighbor ∈ search.recStack then .ok (true, search)
      else visitNeighbors dfs rest search

/-- `_dfs`, to a recursion depth of `fuel`. -/
def dfs (graph : DependencyGraph) : ℕ → String → Search → Except PlanError (Bool × Search)
  | 0, _, _ => .error .diverged
  | fuel + 1, id, search =>
      match visitNeighbors (graph.dfs fuel) (sorted (graph.neighbors id))
          ⟨insert id search.visited, insert id search.recStack⟩ with
      | .ok (false, search) => .ok (false, { search with recStack := search.recStack.erase id })
      | stop => stop

def visitRoots (dfs : String → Search → Except PlanError (Bool × Search)) :
    List String → Search → Except PlanError Bool
  | [], _ => .ok false
  | id :: rest, search =>
      if id ∈ search.visited then visitRoots dfs rest search
      else
        match dfs id search with
        | .ok (false, search) => visitRoots dfs rest search
        | .ok (true, _) => .ok true
        | .error e => .error e

def hasCycle (graph : DependencyGraph) : Except PlanError Bool :=
  visitRoots (graph.dfs graph.nodes.keys.length) (sorted graph.nodes.keys) ⟨∅, ∅⟩

/-! ### The level-order traversal -/

/-- `in_degree` and `next_ready` while a level is processed. -/
structure Frontier where
  inDegree : Dict String Int
  nextReady : List String

/-- One neighbor of a finished node: its in-degree drops, and at zero it joins the next level. -/
def release (frontier : Frontier) (neighbor : String) : Frontier :=
  let left := degree frontier.inDegree neighbor - 1
  { inDegree := frontier.inDegree.set neighbor left
    nextReady :=
      if left = 0 then frontier.nextReady.orderedInsert (· ≤ ·) neighbor
      else frontier.nextReady }

def finish (graph : DependencyGraph) (frontier : Frontier) (id : String) : Frontier :=
  (sorted (graph.neighbors id)).foldl release frontier

/-- The `while current_ready` loop, to `fuel` rounds. Popping a whole level off its heap appends the
ascending `currentReady` to the order and to the groups. -/
def traverse (graph : DependencyGraph) :
    ℕ → Dict String Int → List String → List String → List (List String) →
      Except PlanError (List String × List (List String))
  | 0, _, _, _, _ => .error .diverged
  | fuel + 1, inDegree, currentReady, ordered, groups =>
      if currentReady = [] then .ok (ordered, groups)
      else
        let frontier := currentReady.foldl graph.finish ⟨inDegree, []⟩
        graph.traverse fuel frontier.inDegree frontier.nextReady (ordered ++ currentReady)
          (groups ++ [currentReady])

/-- The ids without incoming edges, heapified. -/
def initialReady (graph : DependencyGraph) : List String :=
  sorted (graph.inDegree.keys.filter fun id => degree graph.inDegree id = 0)

def traverseLevels (graph : DependencyGraph) :
    Except PlanError (List String × List (List String)) :=
  match graph.hasCycle with
  | .error e => .error e
  | .ok true => .error .cycle
  | .ok false =>
      match graph.traverse (graph.nodes.keys.length + 1) graph.inDegree graph.initialReady [] [] with
      | .error e => .error e
      | .ok (ordered, groups) =>
          if ordered.length ≠ graph.nodes.keys.length then .error .cycle
          else .ok (ordered, groups)

end DependencyGraph

end PersonalDevin.Planning
