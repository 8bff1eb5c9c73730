import PersonalDevin.Planning.TaskOrder

/-!
# Loading a plan into the task graph

A plan whose tasks carry their dependencies already is loaded by adding all tasks and then all
dependencies. Each edge is then in the task's own list before it is in the other two records, so that
the graph is only consistent again at the end: until then it mirrors a consistent one whose lists grow
with the edges.
-/

namespace PersonalDevin.Planning

open Lib Relation

namespace TaskGraph

/-- `add_task` for each task. -/
def addTasks (graph : TaskGraph) : List Task → Except GraphError Unit × TaskGraph
  | [] => (.ok (), graph)
  | task :: rest =>
      match graph.addTask task with
      | (.error e, graph) => (.error e, graph)
      | (.ok (), graph) => graph.addTasks rest

/-- `add_dependency` for each dependency of a task. -/
def addDependencies (graph : TaskGraph) (taskId : String) :
    List String → Except GraphError Unit × TaskGraph
  | [] => (.ok (), graph)
  | dependsOnId :: rest =>
      match graph.addDependency taskId dependsOnId with
      | (.error e, graph) => (.error e, graph)
      | (.ok (), graph) => graph.addDependencies taskId rest

def addAllDependencies (graph : TaskGraph) : List Task → Except GraphError Unit × TaskGraph
  | [] => (.ok (), graph)
  | task :: rest =>
      match graph.addDependencies task.id task.dependencies with
      | (.error e, graph) => (.error e, graph)
      | (.ok (), graph) => graph.addAllDependencies rest

def load (tasks : List Task) : Except GraphError Unit × TaskGraph :=
  match empty.addTasks tasks with
  | (.error e, graph) => (.error e, graph)
  | (.ok (), graph) => graph.addAllDependencies tasks

/-- `[self.tasks[task_id] for task_id in sorted_ids]`. -/
def tasksOf (graph : TaskGraph) : List String → Except GraphError (List Task)
  | [] => .ok []
  | id :: rest =>
      match graph.tasks.get? id with
      | none => .error (.missingKey id)
      | some task =>
          match graph.tasksOf rest with
          | .error e => .error e
          | .ok tasks => .ok (task :: tasks)

def getExecutionOrder (lower : String → String) (graph : TaskGraph) :
    Except GraphError (List Task) :=
  match graph.topologicalSort lower with
  | .error e => .error e
  | .ok sortedIds => graph.tasksOf sortedIds

/-! ### While the edges are added -/

/-- But for the lists of its task objects, which say more, the graph is a consistent one, in which the
task with an id lists `listed id`. -/
structure Mirrors (graph bare : TaskGraph) (listed : String → List String) : Prop where
  consistent : bare.Consistent
  adjacency : graph.adjacency = bare.adjacency
  inDegree : graph.inDegree = bare.inDegree
  keys : graph.tasks.keys = bare.tasks.keys
  task : ∀ id task, graph.tasks.get? id = some task →
    bare.tasks.get? id = some { task with dependencies := listed id }

variable {graph bare : TaskGraph} {listed : String → List String}

theorem Mirrors.addTask (h : graph.Mirrors bare listed) {task : Task}
    (hnew : task.id ∉ graph.tasks.keys) (hlisted : listed task.id = []) :
    (graph.addTask task).1 = .ok ()
      ∧ (graph.addTask task).2.tasks = graph.tasks.set task.id task
      ∧ ∃ bare', (graph.addTask task).2.Mirrors bare' listed := by
  have hnew' : task.id ∉ bare.tasks.keys := h.keys ▸ hnew
  have hconsistent : (bare.addTask { task with dependencies := [] }).2.Consistent :=
    h.consistent.insert hnew' rfl
  rw [TaskGraph.addTask, if_pos hnew'] at hconsistent
  rw [TaskGraph.addTask, if_pos hnew]
  refine ⟨rfl, rfl, _, hconsistent, ?_, ?_, ?_, ?_⟩
  · exact congrArg (fun adjacency => adjacency.set task.id []) h.adjacency
  · exact congrArg (fun inDegree => inDegree.set task.id 0) h.inDegree
  · rw [Dict.keys_set_of_not_mem hnew, Dict.keys_set_of_not_mem hnew', h.keys]
  · intro id other hother
    simp only [Dict.get?_set] at hother ⊢
    split at hother
    · rename_i hid
      obtain rfl := Option.some.inj hother
      rw [if_pos hid, hid, hlisted]
    · rename_i hid
      rw [if_neg hid]
      exact h.task id other hother

theorem Mirrors.addTasks (h : graph.Mirrors bare listed) {tasks : List Task}
    (hnodup : (graph.tasks.keys ++ tasks.map Task.id).Nodup)
    (hlisted : ∀ task ∈ tasks, listed task.id = []) :
    ∃ graph', graph.addTasks tasks = (.ok (), graph')
      ∧ graph'.tasks = Dict.setAll Task.id id graph.tasks tasks
      ∧ graph'.tasks.keys = graph.tasks.keys ++ tasks.map Task.id
      ∧ ∃ bare', graph'.Mirrors bare' listed := by
  induction tasks generalizing graph bare with
  | nil => exact ⟨graph, rfl, rfl, (List.append_nil _).symm, bare, h⟩
  | cons task rest ih =>
      have hnew : task.id ∉ graph.tasks.keys := by
        rw [List.nodup_append] at hnodup
        exact fun hmem => hnodup.2.2 _ hmem _ List.mem_cons_self rfl
      obtain ⟨hok, htasks, bare', hbare⟩ := h.addTask hnew (hlisted task List.mem_cons_self)
      have hkeys : (graph.addTask task).2.tasks.keys = graph.tasks.keys ++ [task.id] := by
        rw [htasks, Dict.keys_set_of_not_mem hnew]
      have hsplit : (graph.addTask task).2.tasks.keys ++ rest.map Task.id
          = graph.tasks.keys ++ (task :: rest).map Task.id := by
        rw [hkeys, List.append_assoc]
        rfl
      obtain ⟨graph', hrest, htasks', hkeys', hmirrors⟩ := ih hbare (hsplit ▸ hnodup)
        fun other hmem => hlisted other (List.mem_cons_of_mem task hmem)
      refine ⟨graph', ?_, ?_, hkeys'.trans hsplit, hmirrors⟩
      · rw [TaskGraph.addTasks]
        generalize graph.addTask task = added at hok hrest
        obtain ⟨result, next⟩ := added
        obtain rfl := hok
        exact hrest
      · rw [htasks', htasks]
        rfl

/-- An edge that the task lists already is added to the other two records. -/
theorem Mirrors.addDependency (h : graph.Mirrors bare listed) {task : Task} {id d : String}
    (htask : graph.tasks.get? id = some task) (hd : d ∈ graph.tasks.keys) (hne : id ≠ d)
    (hdep : d ∈ task.dependencies) (hnew : d ∉ listed id) :
    ∃ graph' bare', graph.addDependency id d = (.ok (), graph') ∧ graph'.tasks = graph.tasks
      ∧ graph'.Mirrors bare' (Function.update listed id (listed id ++ [d])) := by
  have hid : id ∈ graph.tasks.keys := (graph.tasks.get?_isSome_iff id).1 (by rw [htask]; rfl)
  have hbare := h.task id task htask
  obtain ⟨dependents, hdependents⟩ := Option.isSome_iff_exists.1
    ((bare.adjacency.get?_isSome_iff d).2 (h.consistent.adjacency_keys ▸ h.keys ▸ hd))
  obtain ⟨-, hedge, hdegree⟩ := h.consistent.dependencies id _ hbare
  have hwaits : id ∉ dependents := by
    rw [← neighbors_of_get? hdependents]
    exact fun hmem => hnew ((hedge d).2 hmem)
  refine ⟨{ graph with
      adjacency := graph.adjacency.set d (dependents ++ [id])
      inDegree := graph.inDegree.set id ((listed id).length + 1) },
    bare.withEdge id d { task with dependencies := listed id } dependents, ?_, rfl,
    h.consistent.withEdge hbare hdependents hne hwaits, ?_, ?_, ?_, ?_⟩
  · rw [TaskGraph.addDependency, if_neg (not_not.2 hid), if_neg (not_not.2 hd), if_neg hne,
      h.adjacency, hdependents]
    simp only [if_pos hwaits, countDependency, h.inDegree, hdegree, listDependency, htask,
      if_neg (not_not.2 hdep)]
  · exact congrArg (fun adjacency => adjacency.set d (dependents ++ [id])) h.adjacency
  · exact congrArg (fun inDegree => inDegree.set id (((listed id).length : ℤ) + 1)) h.inDegree
  · rw [withEdge, Dict.keys_set_of_mem (h.keys ▸ hid), h.keys]
  · intro other otherTask hother
    rw [withEdge, Dict.get?_set]
    split
    · rename_i heq
      obtain rfl : task = otherTask := Option.some.inj (htask.symm.trans (heq ▸ hother))
      rw [heq, Function.update_self]
    · rename_i hother'
      rw [Function.update_of_ne hother']
      exact h.task other otherTask hother

theorem Mirrors.addDependencies {task : Task} {id : String} {done rest : List String}
    (h : graph.Mirrors bare listed) (htask : graph.tasks.get? id = some task)
    (hsplit : task.dependencies = done ++ rest) (hnodup : task.dependencies.Nodup)
    (hlisted : listed id = done) (hmem : ∀ d ∈ rest, d ∈ graph.tasks.keys ∧ id ≠ d) :
    ∃ graph' bare', graph.addDependencies id rest = (.ok (), graph') ∧ graph'.tasks = graph.tasks
      ∧ graph'.Mirrors bare' (Function.update listed id task.dependencies) := by
  induction rest generalizing graph bare listed done with
  | nil =>
      rw [List.append_nil] at hsplit
      rw [hsplit, ← hlisted, Function.update_eq_self]
      exact ⟨graph, bare, rfl, rfl, h⟩
  | cons d rest ih =>
      obtain ⟨hd, hne⟩ := hmem d List.mem_cons_self
      have hnew : d ∉ done := by
        rw [hsplit, List.nodup_append] at hnodup
        exact fun hdone => hnodup.2.2 d hdone d List.mem_cons_self rfl
      have hdep : d ∈ task.dependencies := hsplit ▸ List.mem_append_right done List.mem_cons_self
      obtain ⟨next, bare', hok, htasks, hmirrors⟩ :=
        h.addDependency htask hd hne hdep (hlisted ▸ hnew)
      obtain ⟨graph', bare'', hrest, htasks', hmirrors'⟩ := ih hmirrors (htasks ▸ htask)
        (show task.dependencies = (done ++ [d]) ++ rest from
          hsplit.trans (List.append_cons done d rest))
        (by rw [Function.update_self, hlisted])
        (fun other hother => htasks ▸ hmem other (List.mem_cons_of_mem d hother))
      rw [Function.update_idem] at hmirrors'
      refine ⟨graph', bare'', ?_, htasks'.trans htasks, hmirrors'⟩
      rw [TaskGraph.addDependencies, hok]
      exact hrest

/-- Tasks with ids of their own whose dependencies name other tasks of the plan, each once. -/
structure Loadable (tasks : List Task) : Prop where
  ids : (tasks.map Task.id).Nodup
  dependencies : ∀ task ∈ tasks, task.dependencies.Nodup
    ∧ ∀ d ∈ task.dependencies, d ∈ tasks.map Task.id ∧ task.id ≠ d

theorem Mirrors.addAllDependencies {tasks : List Task} (h : graph.Mirrors bare listed)
    (hids : (tasks.map Task.id).Nodup) (htasks : ∀ task ∈ tasks, graph.tasks.get? task.id = some task)
    (hdeps : ∀ task ∈ tasks, task.dependencies.Nodup
      ∧ ∀ d ∈ task.dependencies, d ∈ graph.tasks.keys ∧ task.id ≠ d)
    (hlisted : ∀ task ∈ tasks, listed task.id = []) :
    ∃ graph' bare' listed', graph.addAllDependencies tasks = (.ok (), graph')
      ∧ graph'.tasks = graph.tasks ∧ graph'.Mirrors bare' listed'
      ∧ (∀ id, id ∉ tasks.map Task.id → listed' id = listed id)
      ∧ ∀ task ∈ tasks, listed' task.id = task.dependencies := by
  induction tasks generalizing graph bare listed with
  | nil => exact ⟨graph, bare, listed, rfl, rfl, h, fun _ _ => rfl, fun _ hmem => by cases hmem⟩
  | cons task rest ih =>
      rw [List.map_cons, List.nodup_cons] at hids
      obtain ⟨hnodup, hmem⟩ := hdeps task List.mem_cons_self
      obtain ⟨next, bare', hok, hsame, hnext⟩ := h.addDependencies (htasks task List.mem_cons_self)
        (List.nil_append _).symm hnodup (hlisted task List.mem_cons_self) hmem
      have hother : ∀ other ∈ rest, other.id ≠ task.id := fun other hmem heq =>
        hids.1 (heq ▸ List.mem_map_of_mem hmem)
      obtain ⟨graph', bare'', listed', hrest, hsame', hmirrors, hold, hnew⟩ := ih hnext hids.2
        (fun other hmem => hsame ▸ htasks other (List.mem_cons_of_mem task hmem))
        (fun other hmem => hsame ▸ hdeps other (List.mem_cons_of_mem task hmem))
        (fun other hmem => by
          rw [Function.update_of_ne (hother other hmem)]
          exact hlisted other (List.mem_cons_of_mem task hmem))
      refine ⟨graph', bare'', listed', ?_, hsame'.trans hsame, hmirrors, fun id hid => ?_,
        fun other hmem => ?_⟩
      · rw [TaskGraph.addAllDependencies, hok]
        exact hrest
      · rw [List.map_cons, List.mem_cons, not_or] at hid
        rw [hold id hid.2, Function.update_of_ne hid.1]
      · rcases List.mem_cons.1 hmem with rfl | hmem
        · rw [hold other.id hids.1, Function.update_self]
        · exact hnew other hmem

/-- When every task lists its own edges the graph is the one it mirrors. -/
theorem Mirrors.consistent_of_listed (h : graph.Mirrors bare listed)
    (hlisted : ∀ id task, graph.tasks.get? id = some task → listed id = task.dependencies) :
    graph.Consistent := by
  have hneighbors : ∀ d, graph.neighbors d = bare.neighbors d := fun d => by
    rw [neighbors, neighbors, h.adjacency]
  have hedge : ∀ t d, graph.DependsOn t d ↔ bare.DependsOn t d := fun t d => by
    rw [DependsOn, DependsOn, hneighbors]
  constructor
  · rw [h.adjacency, h.keys, h.consistent.adjacency_keys]
  · rw [h.inDegree, h.keys, h.consistent.degree_keys]
  · exact fun d => hneighbors d ▸ h.consistent.neighbors_nodup d
  · intro t d htd
    rw [h.keys]
    exact h.consistent.edge t d ((hedge t d).1 htd)
  · intro t task htask
    have hbare := h.task t task htask
    rw [hlisted t task htask] at hbare
    simp only [hedge, h.inDegree]
    exact h.consistent.dependencies t task hbare

/-- A loadable plan is loaded: the graph has its tasks, in its order, with their edges. -/
theorem load_spec {tasks : List Task} (h : Loadable tasks) :
    ∃ graph, load tasks = (.ok (), graph) ∧ graph.Consistent
      ∧ graph.tasks.keys = tasks.map Task.id
      ∧ ∀ task ∈ tasks, graph.tasks.get? task.id = some task := by
  have hempty : empty.Mirrors empty fun _ => [] :=
    ⟨consistent_empty, rfl, rfl, rfl, fun _ _ hget => by cases hget⟩
  obtain ⟨filled, hfilled, htasks, hkeys, bare, hmirrors⟩ := hempty.addTasks h.ids fun _ _ => rfl
  have hkeys' : filled.tasks.keys = tasks.map Task.id := hkeys
  have hget : ∀ task ∈ tasks, filled.tasks.get? task.id = some task := fun task hmem => by
    rw [htasks]
    exact Dict.get?_setAll h.ids hmem
  obtain ⟨graph, bare', listed, hall, hsame, hmirrors', -, hlisted⟩ :=
    hmirrors.addAllDependencies h.ids hget (fun task hmem => hkeys' ▸ h.dependencies task hmem)
      fun _ _ => rfl
  refine ⟨graph, ?_, hmirrors'.consistent_of_listed fun id task htask => ?_, hsame ▸ hkeys',
    fun task hmem => hsame ▸ hget task hmem⟩
  · rw [load, hfilled]
    exact hall
  · have hid : id ∈ graph.tasks.keys := (graph.tasks.get?_isSome_iff id).1 (by rw [htask]; rfl)
    rw [hsame, hkeys'] at hid
    obtain ⟨other, hmem, rfl⟩ := List.mem_map.1 hid
    obtain rfl : task = other := Option.some.inj (htask.symm.trans (hsame ▸ hget other hmem))
    exact hlisted task hmem

/-- A plan in the order of its stages: each task has a lower priority than those before it and depends
on these only. -/
structure Staged (tasks : List Task) : Prop where
  ids : (tasks.map Task.id).Nodup
  priority : tasks.Pairwise fun a b => b.priority < a.priority
  dependencies : ∀ before task after, tasks = before ++ task :: after →
    task.dependencies.Nodup ∧ ∀ d ∈ task.dependencies, d ∈ before.map Task.id

theorem Staged.loadable {tasks : List Task} (h : Staged tasks) : Loadable tasks where
  ids := h.ids
  dependencies task hmem := by
    obtain ⟨before, after, hsplit⟩ := List.mem_iff_append.1 hmem
    obtain ⟨hnodup, hdeps⟩ := h.dependencies before task after hsplit
    refine ⟨hnodup, fun d hd => ⟨?_, fun heq => ?_⟩⟩
    · rw [hsplit, List.map_append]
      exact List.mem_append_left _ (hdeps d hd)
    · have hids := h.ids
      rw [hsplit, List.map_append, List.nodup_append] at hids
      exact hids.2.2 d (hdeps d hd) task.id List.mem_cons_self heq.symm

theorem tasksOf_map {tasks : List Task} (h : ∀ task ∈ tasks, graph.tasks.get? task.id = some task) :
    graph.tasksOf (tasks.map Task.id) = .ok tasks := by
  induction tasks with
  | nil => rfl
  | cons task rest ih =>
      rw [List.map_cons, tasksOf, h task List.mem_cons_self,
        ih fun other hmem => h other (List.mem_cons_of_mem task hmem)]

/-- **A staged plan is executed in its own order.** -/
theorem Staged.executionOrder {tasks : List Task} (h : Staged tasks) (lower : String → String) :
    ∃ graph, load tasks = (.ok (), graph) ∧ graph.getExecutionOrder lower = .ok tasks := by
  obtain ⟨graph, hload, hconsistent, hkeys, hget⟩ := load_spec h.loadable
  have hkey : (tasks.map Task.id).Pairwise (graph.sortKey lower · < graph.sortKey lower ·) := by
    rw [List.pairwise_map]
    refine h.priority.imp_of_mem fun {a b} ha hb hpriority => ?_
    rw [sortKey, sortKey, hget a ha, hget b hb]
    exact Prod.Lex.left _ _ (neg_lt_neg hpriority)
  have hdeps : ∀ before a after, tasks.map Task.id = before ++ a :: after →
      ∀ d, graph.DependsOn a d → d ∈ before := by
    intro before a after hsplit d hedge
    obtain ⟨front, back, rfl, rfl, hback⟩ := List.map_eq_append_iff.1 hsplit
    obtain ⟨task, rest, rfl, rfl, -⟩ := List.map_eq_cons_iff.1 hback
    have htask := hget task (List.mem_append_right front List.mem_cons_self)
    exact (h.dependencies front task rest rfl).2 d
      (((hconsistent.dependencies task.id task htask).2.1 d).2 hedge)
  have horder : graph.IsOrder lower (tasks.map Task.id) :=
    ⟨hkeys ▸ List.Perm.refl _, greedy_of_pairwise (fun a => by rw [← hkeys]; rfl) hkey hdeps⟩
  refine ⟨graph, hload, ?_⟩
  rcases @Consistent.topologicalSort_spec lower graph hconsistent with
    ⟨-, order, hok, horder'⟩ | ⟨-, t, hcycle⟩
  · rw [getExecutionOrder, hok, ← horder'.unique horder]
    exact tasksOf_map hget
  · have hacyclic : Acyclic graph.DependsOn :=
      acyclic_of_order h.ids (fun a d hedge => hkeys ▸ (hconsistent.edge a d hedge).1) hdeps
    exact absurd hcycle (hacyclic t)

end TaskGraph

end PersonalDevin.Planning
