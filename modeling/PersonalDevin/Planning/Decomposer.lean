import PersonalDevin.Planning.Loading
import PersonalDevin.Text

/-!
# The task decomposer

`TaskDecomposer.decompose`: a template is chosen by the words of the goal, and its tasks get ids of
their own. The ids come from a supply, one for the plan and then one for each task; `lower` is the
method of strings. A template names tasks by their position, and all positions it names exist.
-/

namespace PersonalDevin.Planning

structure TaskData where
  name : String
  description : String
  priority : ℤ

/-- A value of `GOAL_PATTERNS`. -/
structure GoalPattern where
  tasks : List TaskData
  dependenciesGraph : List (ℕ × List ℕ)

def apiPattern : GoalPattern where
  tasks :=
    [⟨"Design API specification",
      "Define API endpoints, request/response schemas, and authentication", 90⟩,
     ⟨"Set up project structure",
      "Create directory structure and configure project dependencies", 85⟩,
     ⟨"Implement core endpoints", "Build main API endpoints with business logic", 80⟩,
     ⟨"Add authentication", "Implement user authentication and authorization", 75⟩,
     ⟨"Add error handling", "Implement comprehensive error handling and validation", 70⟩,
     ⟨"Write tests", "Create unit and integration tests", 65⟩,
     ⟨"Document API", "Create API documentation and usage examples", 60⟩]
  dependenciesGraph := [(0, []), (1, [0]), (2, [1]), (3, [2]), (4, [3]), (5, [2]), (6, [5])]

def databasePattern : GoalPattern where
  tasks :=
    [⟨"Design database schema", "Define tables, relationships, and constraints", 95⟩,
     ⟨"Set up database server", "Install and configure database", 90⟩,
     ⟨"Create database migrations", "Develop schema migration scripts", 85⟩,
     ⟨"Build data access layer", "Implement database queries and ORM", 80⟩,
     ⟨"Add indexing and optimization", "Add indexes and query optimization", 70⟩,
     ⟨"Test database operations", "Create database tests", 65⟩]
  dependenciesGraph := [(0, []), (1, [0]), (2, [1]), (3, [2]), (4, [3]), (5, [3])]

def frontendPattern : GoalPattern where
  tasks :=
    [⟨"Design UI mockups", "Create wireframes and visual designs", 85⟩,
     ⟨"Set up frontend project", "Initialize project structure and dependencies", 80⟩,
     ⟨"Build component library", "Create reusable UI components", 75⟩,
     ⟨"Implement main pages", "Build application pages and layouts", 70⟩,
     ⟨"Integrate with backend", "Connect frontend to API endpoints", 65⟩,
     ⟨"Add styling and responsive design", "Implement CSS and responsive layouts", 60⟩,
     ⟨"Test frontend", "Create unit and integration tests", 55⟩]
  dependenciesGraph := [(0, []), (1, [0]), (2, [1]), (3, [2]), (4, [3]), (5, [3]), (6, [4, 5])]

/-- `GOAL_PATTERNS`, in the order in which they are tried. -/
def goalPatterns : List (String × GoalPattern) :=
  [("api", apiPattern), ("database", databasePattern), ("frontend", frontendPattern)]

def taskStages (goal : String) : List TaskData :=
  [⟨"Analyze requirements", "Understand the requirements for: " ++ goal, 100⟩,
   ⟨"Design solution", "Create a design/architecture for the solution", 90⟩,
   ⟨"Implement solution", "Build the solution according to design", 80⟩,
   ⟨"Test solution", "Verify the solution works correctly", 70⟩,
   ⟨"Document solution", "Create documentation for the solution", 60⟩]

structure DecomposedTask extends Task where
  description : String

structure Plan where
  id : String
  goal : String
  tasks : List DecomposedTask

section

variable (newId : ℕ → String)

/-- The id of the task at a position; the plan itself has the first id of the supply. -/
def taskId (idx : ℕ) : String := newId (idx + 1)

def newTask (dependencies : ℕ → List String) (idx : ℕ) (data : TaskData) : DecomposedTask where
  id := taskId newId idx
  name := data.name
  priority := data.priority
  dependencies := dependencies idx
  description := data.description

/-- The second loop of `_build_plan_from_pattern`. -/
def setDependencies (tasks : List DecomposedTask) (dependenciesGraph : List (ℕ × List ℕ)) :
    List DecomposedTask :=
  dependenciesGraph.foldl (fun tasks (taskIdx, deps) =>
    tasks.modify taskIdx fun task => { task with dependencies := deps.map (taskId newId) }) tasks

def buildPlanFromPattern (goal : String) (pattern : GoalPattern) : Plan where
  id := newId 0
  goal := goal
  tasks := setDependencies newId (pattern.tasks.mapIdx (newTask newId fun _ => []))
    pattern.dependenciesGraph

/-- `_build_generic_plan`: each stage depends on the one before it. -/
def buildGenericPlan (goal : String) : Plan where
  id := newId 0
  goal := goal
  tasks := (taskStages goal).mapIdx
    (newTask newId fun idx => if 0 < idx then [taskId newId (idx - 1)] else [])

/-- `TaskDecomposer.decompose`; the model of a plan does not accept an empty goal. -/
def decompose (lower : String → String) (goal : String) : Option Plan :=
  if goal = "" then none
  else
    match goalPatterns.find? fun entry => isIn (lower entry.1).toList (lower goal).toList with
    | some (_, pattern) => some (buildPlanFromPattern newId goal pattern)
    | none => some (buildGenericPlan newId goal)

end

/-! ### Plans in stages -/

/-- The tasks of a template fall in priority and depend on tasks before them. -/
structure GoalPattern.Ordered (pattern : GoalPattern) : Prop where
  priority : pattern.tasks.Pairwise fun a b => b.priority < a.priority
  dependencies : ∀ entry ∈ pattern.dependenciesGraph, entry.2.Nodup ∧ ∀ dep ∈ entry.2, dep < entry.1

theorem goalPatterns_ordered : ∀ entry ∈ goalPatterns, entry.2.Ordered := by
  intro entry hentry
  simp only [goalPatterns, List.mem_cons, List.not_mem_nil, or_false] at hentry
  rcases hentry with rfl | rfl | rfl
  · exact ⟨by decide, by decide⟩
  · exact ⟨by decide, by decide⟩
  · exact ⟨by decide, by decide⟩

/-- The task stands at its position with dependencies on positions before it. -/
def Placed (newId : ℕ → String) (idx : ℕ) (task : DecomposedTask) : Prop :=
  task.id = taskId newId idx ∧
    ∃ deps : List ℕ, deps.Nodup ∧ (∀ dep ∈ deps, dep < idx) ∧
      task.dependencies = deps.map (taskId newId)

variable {newId : ℕ → String}

theorem staged_of_placed (hnew : Function.Injective newId) {tasks : List DecomposedTask}
    (hpriority : tasks.Pairwise fun a b => b.priority < a.priority)
    (hplaced : ∀ idx task, tasks[idx]? = some task → Placed newId idx task) :
    TaskGraph.Staged (tasks.map DecomposedTask.toTask) := by
  have hinjective : Function.Injective (taskId newId) := fun i j h => Nat.succ_injective (hnew h)
  have hids : (tasks.map DecomposedTask.toTask).map Task.id
      = (List.range tasks.length).map (taskId newId) := by
    rw [List.map_map]
    refine List.ext_getElem (by simp) fun idx hidx _ => ?_
    rw [List.length_map] at hidx
    rw [List.getElem_map, List.getElem_map, List.getElem_range]
    exact (hplaced idx tasks[idx] (List.getElem?_eq_getElem hidx)).1
  constructor
  · rw [hids]
    exact List.nodup_range.map hinjective
  · exact List.pairwise_map.2 hpriority
  · intro before task after hsplit
    obtain ⟨front, back, rfl, rfl, hback⟩ := List.map_eq_append_iff.1 hsplit
    obtain ⟨task, rest, rfl, rfl, -⟩ := List.map_eq_cons_iff.1 hback
    have htask : (front ++ task :: rest)[front.length]? = some task := by simp
    obtain ⟨-, deps, hnodup, hearlier, hdeps⟩ := hplaced front.length task htask
    rw [hdeps]
    refine ⟨hnodup.map hinjective, fun d hd => ?_⟩
    obtain ⟨dep, hdep, rfl⟩ := List.mem_map.1 hd
    have hlt := hearlier dep hdep
    have hearly : (front ++ task :: rest)[dep]? = some front[dep] := by
      rw [List.getElem?_append_left hlt, List.getElem?_eq_getElem hlt]
    rw [← (hplaced dep front[dep] hearly).1, List.map_map]
    exact List.mem_map_of_mem (List.getElem_mem hlt)

theorem pairwise_priority_mapIdx {data : List TaskData} (dependencies : ℕ → List String)
    (h : data.Pairwise fun a b => b.priority < a.priority) :
    (data.mapIdx (newTask newId dependencies)).Pairwise fun a b => b.priority < a.priority := by
  have hpriorities : (data.mapIdx (newTask newId dependencies)).map (·.priority)
      = data.map TaskData.priority := by
    refine List.ext_getElem (by simp) fun idx _ _ => ?_
    rw [List.getElem_map, List.getElem_mapIdx, List.getElem_map]
    rfl
  have hsorted : (data.map TaskData.priority).Pairwise (· > ·) := List.pairwise_map.2 h
  rw [← hpriorities] at hsorted
  exact List.pairwise_map.1 hsorted

/-- The loop over the dependencies keeps the priorities and the places. -/
theorem setDependencies_placed {dependenciesGraph : List (ℕ × List ℕ)}
    (hdeps : ∀ entry ∈ dependenciesGraph, entry.2.Nodup ∧ ∀ dep ∈ entry.2, dep < entry.1)
    {tasks : List DecomposedTask}
    (hplaced : ∀ idx task, tasks[idx]? = some task → Placed newId idx task) :
    (∀ idx task, (setDependencies newId tasks dependenciesGraph)[idx]? = some task →
      Placed newId idx task)
    ∧ (setDependencies newId tasks dependenciesGraph).map (·.priority) = tasks.map (·.priority) := by
  induction dependenciesGraph generalizing tasks with
  | nil => exact ⟨hplaced, rfl⟩
  | cons entry rest ih =>
      obtain ⟨taskIdx, deps⟩ := entry
      obtain ⟨hnodup, hearlier⟩ := hdeps (taskIdx, deps) List.mem_cons_self
      have hnext : ∀ idx task, (tasks.modify taskIdx fun task =>
          { task with dependencies := deps.map (taskId newId) })[idx]? = some task →
          Placed newId idx task := by
        intro idx task htask
        rw [List.getElem?_modify] at htask
        obtain ⟨old, hold, hnew⟩ := Option.map_eq_some_iff.1 htask
        split at hnew
        · rename_i hidx
          obtain rfl := hnew
          exact ⟨(hplaced idx old hold).1, deps, hnodup, hidx ▸ hearlier, rfl⟩
        · exact hnew ▸ hplaced idx old hold
      obtain ⟨hrest, hpriorities⟩ :=
        ih (fun entry hmem => hdeps entry (List.mem_cons_of_mem _ hmem)) hnext
      refine ⟨hrest, hpriorities.trans ?_⟩
      apply List.ext_getElem?
      intro idx
      rw [List.getElem?_map, List.getElem?_map, List.getElem?_modify]
      split
      · cases tasks[idx]? <;> rfl
      · cases tasks[idx]? <;> rfl

theorem placed_mapIdx {data : List TaskData} {dependencies : ℕ → List String}
    (hdeps : ∀ idx, ∃ deps : List ℕ, deps.Nodup ∧ (∀ dep ∈ deps, dep < idx) ∧
      dependencies idx = deps.map (taskId newId)) (idx : ℕ) (task : DecomposedTask)
    (htask : (data.mapIdx (newTask newId dependencies))[idx]? = some task) : Placed newId idx task := by
  rw [List.getElem?_mapIdx] at htask
  obtain ⟨entry, -, rfl⟩ := Option.map_eq_some_iff.1 htask
  exact ⟨rfl, hdeps idx⟩

theorem GoalPattern.Ordered.staged {pattern : GoalPattern} (h : pattern.Ordered)
    (hnew : Function.Injective newId) (goal : String) :
    TaskGraph.Staged ((buildPlanFromPattern newId goal pattern).tasks.map DecomposedTask.toTask) := by
  have hplaced : ∀ idx task, (pattern.tasks.mapIdx (newTask newId fun _ => []))[idx]? = some task →
      Placed newId idx task :=
    placed_mapIdx fun _ => ⟨[], List.nodup_nil, (fun _ hmem => by cases hmem), rfl⟩
  obtain ⟨hset, hpriorities⟩ := setDependencies_placed h.dependencies hplaced
  refine staged_of_placed hnew ?_ hset
  have hsorted : ((pattern.tasks.mapIdx (newTask newId fun _ => [])).map (·.priority)).Pairwise
      (· > ·) := List.pairwise_map.2 (pairwise_priority_mapIdx _ h.priority)
  rw [← hpriorities] at hsorted
  exact List.pairwise_map.1 hsorted

theorem staged_generic (hnew : Function.Injective newId) (goal : String) :
    TaskGraph.Staged ((buildGenericPlan newId goal).tasks.map DecomposedTask.toTask) := by
  have hpriority : (taskStages goal).Pairwise fun a b => b.priority < a.priority := by
    simp [taskStages]
  refine staged_of_placed hnew (pairwise_priority_mapIdx _ hpriority) (placed_mapIdx fun idx => ?_)
  cases idx with
  | zero => exact ⟨[], List.nodup_nil, (fun _ hmem => by cases hmem), rfl⟩
  | succ idx => exact ⟨[idx], List.nodup_singleton idx, by simp, rfl⟩

/-- **Whatever the goal, the plan lists its tasks in the order in which the task graph executes them**,
when the ids are told apart. -/
theorem decompose_executionOrder (lower : String → String) (hnew : Function.Injective newId)
    {goal : String} (hgoal : goal ≠ "") :
    ∃ plan graph, decompose newId lower goal = some plan ∧ plan.goal = goal
      ∧ TaskGraph.load (plan.tasks.map DecomposedTask.toTask) = (.ok (), graph)
      ∧ graph.getExecutionOrder lower = .ok (plan.tasks.map DecomposedTask.toTask) := by
  rw [decompose, if_neg hgoal]
  split
  · rename_i pattern hfind
    have hordered := goalPatterns_ordered _ (List.mem_of_find?_eq_some hfind)
    obtain ⟨graph, hload, horder⟩ := (hordered.staged hnew goal).executionOrder lower
    exact ⟨_, graph, rfl, rfl, hload, horder⟩
  · obtain ⟨graph, hload, horder⟩ := (staged_generic hnew goal).executionOrder lower
    exact ⟨_, graph, rfl, rfl, hload, horder⟩

theorem decompose_executionOrder_digits :
    ∃ plan graph, decompose (fun n => String.ofList (List.replicate n 'a')) id "build a database"
        = some plan
      ∧ plan.goal = "build a database"
      ∧ TaskGraph.load (plan.tasks.map DecomposedTask.toTask) = (.ok (), graph)
      ∧ graph.getExecutionOrder id = .ok (plan.tasks.map DecomposedTask.toTask) := by
  refine decompose_executionOrder id (fun m n h => ?_) (by decide)
  have hlength := congrArg (fun s : String => s.toList.length) h
  simpa using hlength

end PersonalDevin.Planning
