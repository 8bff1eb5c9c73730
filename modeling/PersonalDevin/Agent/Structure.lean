import PersonalDevin.Lib.Binary64
import PersonalDevin.Lib.Memo
import PersonalDevin.Agent.Strategy
import PersonalDevin.Planning.Graph

/-!
# The structure of a run

The structural metrics that the self-improvement engine takes of the tasks of a run: levels by a
memoised recursion over the dependencies, and the depth to which a failure was passed on. Nothing is
assumed of the dependencies: they may repeat, point outside the list or in a circle. Where a circle is
cut depends on the order of the calls. What holds anyway is that a level above the first stands on the
level below it. The interpreter's limit on the recursion depth is not modelled.
-/

namespace PersonalDevin.Agent

open Lib
open Planning.DependencyGraph (sorted)

/-- Why the metrics are not computed: a value that cannot be iterated or looked up, or a recursion
without end. -/
inductive MetricsError where
  | typeError
  | diverged
  deriving DecidableEq

/-! ### Reading the tasks -/

mutual

/-- Whether `x in d` may be asked for a dictionary `d`. -/
def hashable : Value → Bool
  | .list _ => false
  | .dict _ => false
  | .tuple items => hashableItems items
  | _ => true

def hashableItems : List Value → Bool
  | [] => true
  | item :: rest => hashable item && hashableItems rest

end

/-- `for dep in task.get("dependencies", [])`. -/
def iterated : Option Value → Except MetricsError (List Value)
  | none => .ok []
  | some (.list items) => .ok items
  | some (.tuple items) => .ok items
  | some (.str s) => .ok (s.toList.map fun c => .str (String.singleton c))
  | some (.dict entries) => .ok (entries.map fun entry => .str entry.1)
  | some _ => .error .typeError

def dependencies (task : Fields) : Except MetricsError (List Value) :=
  iterated (task.get? "dependencies")

/-- `str(task.get("id", "unknown"))`. -/
def taskId (task : Fields) : String := textField task "id" "unknown"

/-- `{str(task.get("id", "unknown")): task for task in tasks}`. -/
def taskMap (tasks : List Fields) : Dict String Fields := Dict.setAll taskId id .empty tasks

/-- `if dep in children: children[dep].append(task_id)`. -/
def addChild (taskId : String) (children : Dict String (List String)) (dep : Value) :
    Except MetricsError (Dict String (List String)) :=
  if hashable dep then
    match dep with
    | .str dep =>
        match children.get? dep with
        | some ids => .ok (children.set dep (ids ++ [taskId]))
        | none => .ok children
    | _ => .ok children
  else .error .typeError

def addChildren (children : Dict String (List String)) (entry : String × Fields) :
    Except MetricsError (Dict String (List String)) := do
  let deps ← dependencies entry.2
  deps.foldlM (addChild entry.1) children

/-- `children`, after the loop over `task_map`. -/
def childrenOf (map : Dict String Fields) : Except MetricsError (Dict String (List String)) :=
  map.entries.foldlM addChildren (Dict.setAll id (fun _ => []) .empty map.keys)

/-- The dependency, if it is the id of a task. -/
def knownDep (map : Dict String Fields) : Value → Option String
  | .str dep => if dep ∈ map.keys then some dep else none
  | _ => none

/-- `[dep for dep in task.get("dependencies", []) if isinstance(dep, str) and dep in task_map]`. The
loop that fills `children` has read every list before. -/
def knownDeps (map : Dict String Fields) (id : String) : List String :=
  match (map.get? id).map dependencies with
  | some (.ok deps) => deps.filterMap (knownDep map)
  | _ => []

/-! ### Levels -/

/-- `(max(dep_levels) + 1) if dep_levels else 1`. -/
def levelOf (depLevels : List ℕ) : ℕ :=
  match depLevels.max? with
  | some level => level + 1
  | none => 1

/-- `level_cache` after `level(task_id, set())` for each id in order; a task on the stack counts 0. -/
def levelCache (map : Dict String Fields) : Except MetricsError (Dict String ℕ) :=
  match Memo.evalAll (Memo.eval (knownDeps map) levelOf 0 (map.keys.length + 1) ∅) (sorted map.keys)
      .empty with
  | none => .error .diverged
  | some (_, cache) => .ok cache

def widthCounter (levels : List ℕ) : Dict ℕ ℕ := Dict.tally levels

/-- `max(values) if values else 0`. -/
def maxOrZero (values : List ℕ) : ℕ := values.max?.getD 0

structure StructuralMetrics where
  depth : ℕ
  width : ℕ
  branchingFactor : Binary64
  dependencyChains : ℕ

def branchingFactor (children : Dict String (List String)) : Binary64 :=
  let outDegrees := (sorted children.keys).map fun id => (children.getD id []).length
  let branchNodes := outDegrees.filter (0 < ·)
  if branchNodes = [] then 0 else Binary64.round 2 (Binary64.ratio branchNodes.sum branchNodes.length)

def dependencyChains (map : Dict String Fields) (children : Dict String (List String)) : ℕ :=
  let roots := (sorted map.keys).filter fun id => knownDeps map id = []
  let leaves := children.entries.filter fun entry => entry.2.length = 0
  if roots ≠ [] ∧ leaves ≠ [] then roots.length * leaves.length else 0

def computeStructuralMetrics (tasks : List Fields) : Except MetricsError StructuralMetrics := do
  if tasks.isEmpty then return ⟨0, 0, 0, 0⟩
  let map := taskMap tasks
  let children ← childrenOf map
  let cache ← levelCache map
  return { depth := maxOrZero cache.values
           width := maxOrZero (widthCounter cache.values).values
           branchingFactor := branchingFactor children
           dependencyChains := dependencyChains map children }

/-! ### Skipped tasks -/

/-- `skip_reason.split(":", 1)[1]`, for a reason that starts with `dependency_failed:`. -/
def failedDependency (skipReason : String) : Option String :=
  if "dependency_failed:".toList.isPrefixOf skipReason.toList then
    some (String.ofList ((skipReason.toList.dropWhile (· ≠ ':')).drop 1))
  else none

/-- One round of the loop that fills `skipped_by_id`. -/
def addSkipped (skipped : Dict String String) (task : Fields) : Dict String String :=
  match failedDependency (textOrEmpty (task.get? "skip_reason")) with
  | some parent =>
      if textField task "status" "" = "skipped" then skipped.set (taskId task) parent else skipped
  | none => skipped

def skippedById (tasks : List Fields) : Dict String String := tasks.foldl addSkipped .empty

/-- The parent that `depth` goes on to, unless it is missing or empty. -/
def parents (skipped : Dict String String) (id : String) : List String :=
  match skipped.get? id with
  | some parent => if parent = "" then [] else [parent]
  | none => []

/-- 1 for a task without a parent, else one more than the parent. -/
def depthOf : List ℕ → ℕ
  | [] => 1
  | depth :: _ => 1 + depth

/-- `_compute_skip_propagation_depth`: a task on the stack counts 1. -/
def computeSkipPropagationDepth (tasks : List Fields) : Except MetricsError ℕ :=
  let skipped := skippedById tasks
  if skipped.keys = [] then .ok 0
  else
    match Memo.evalAll (Memo.eval (parents skipped) depthOf 1 (2 * skipped.keys.length + 1) ∅)
        (sorted skipped.keys) .empty with
    | none => .error .diverged
    | some (depths, _) => .ok (maxOrZero depths)

/-! ### The tasks of a run -/

def normalizeDependencies : Option Value → List String
  | some (.list items) => sorted (items.map Value.pyStr)
  | _ => []

/-- What `_normalize_run_data` keeps of a task. -/
def normalizeTask (task : Fields) : Fields :=
  [("id", .str (textField task "id" "unknown")),
   ("status", .str (textField task "status" "unknown")),
   ("error", (task.get? "error").getD .none),
   ("skip_reason", (task.get? "skip_reason").getD .none),
   ("retry_count", (task.get? "retry_count").getD .none),
   ("retries", (task.get? "retries").getD .none),
   ("dependencies", .list ((normalizeDependencies (task.get? "dependencies")).map .str))]

def normalizeItem : Value → Option Fields
  | .dict task => some (normalizeTask task)
  | _ => none

/-- The tasks of `_normalize_run_data`. -/
def normalizeRunTasks : Option Value → List Fields
  | some (.list items) => items.filterMap normalizeItem
  | _ => []

/-! ### The largest of some numbers -/

theorem le_maxOrZero {values : List ℕ} {n : ℕ} (h : n ∈ values) : n ≤ maxOrZero values := by
  rcases hmax : values.max? with _ | m
  · rw [List.max?_eq_none_iff.1 hmax] at h
    cases h
  · rw [maxOrZero, hmax]
    exact (List.max?_eq_some_iff.1 hmax).2 n h

theorem maxOrZero_mem {values : List ℕ} (h : values ≠ []) : maxOrZero values ∈ values := by
  rcases hmax : values.max? with _ | m
  · exact absurd (List.max?_eq_none_iff.1 hmax) h
  · rw [maxOrZero, hmax]
    exact List.max?_mem hmax

theorem maxOrZero_le {values : List ℕ} {n : ℕ} (h : ∀ m ∈ values, m ≤ n) : maxOrZero values ≤ n := by
  by_cases hnil : values = []
  · rw [hnil]
    exact Nat.zero_le n
  · exact h _ (maxOrZero_mem hnil)

/-! ### The levels of any task list -/

variable {map : Dict String Fields} {tasks : List Fields}

theorem mem_taskMap_keys {id : String} : id ∈ (taskMap tasks).keys ↔ id ∈ tasks.map taskId := by
  rw [taskMap, Dict.mem_keys_setAll]
  exact or_iff_right List.not_mem_nil

theorem mem_of_get?_taskMap {id : String} {task : Fields} (h : (taskMap tasks).get? id = some task) :
    task ∈ tasks := by
  rcases Dict.exists_of_get?_setAll h with hempty | ⟨task', hmem, -, rfl⟩
  · cases hempty
  · exact hmem

theorem mem_keys_of_mem_knownDeps {id dep : String} (h : dep ∈ knownDeps map id) : dep ∈ map.keys := by
  unfold knownDeps at h
  split at h
  · obtain ⟨value, -, hvalue⟩ := List.mem_filterMap.1 h
    cases value with
    | str s =>
        simp only [knownDep] at hvalue
        split at hvalue
        · rename_i hmem
          exact Option.some.inj hvalue ▸ hmem
        · cases hvalue
    | _ => cases hvalue
  · cases h

/-- **A level above the first stands on the level below it**, however the table was filled. -/
theorem level_below {succ : String → List String} {entries : List (String × ℕ)}
    (h : Memo.Built succ levelOf 0 entries) :
    ∀ entry ∈ entries, 1 ≤ entry.2 ∧ (1 < entry.2 → ∃ id, (id, entry.2 - 1) ∈ entries) := by
  induction h with
  | nil => exact fun _ hmem => absurd hmem List.not_mem_nil
  | @snoc entries a values _ hsupplied ih =>
      intro entry hentry
      rcases List.mem_append.1 hentry with hbefore | hlast
      · obtain ⟨hpos, hbelow⟩ := ih entry hbefore
        refine ⟨hpos, fun hlt => ?_⟩
        obtain ⟨id, hid⟩ := hbelow hlt
        exact ⟨id, List.mem_append_left _ hid⟩
      · obtain rfl := List.mem_singleton.1 hlast
        rcases hmax : values.max? with _ | m
        · simp [levelOf, hmax]
        · simp only [levelOf, hmax, Nat.add_sub_cancel]
          refine ⟨Nat.le_add_left 1 m, fun hlt => ?_⟩
          -- the largest of the values is no cut-off, since a cut-off counts 0
          obtain ⟨b, -, hmem | ⟨-, hcut⟩⟩ := exists_of_mem_right hsupplied (List.max?_mem hmax)
          · exact ⟨b, List.mem_append_left _ hmem⟩
          · omega

theorem every_level {succ : String → List String} {entries : List (String × ℕ)}
    (h : Memo.Built succ levelOf 0 entries) {top : ℕ} (htop : ∃ id, (id, top) ∈ entries) {level : ℕ}
    (hpos : 1 ≤ level) (hle : level ≤ top) : ∃ id, (id, level) ∈ entries := by
  induction hle using Nat.decreasingInduction with
  | self => exact htop
  | of_succ level _ ih =>
      obtain ⟨id, hid⟩ := ih (Nat.le_add_left 1 level)
      exact (level_below h _ hid).2 (Nat.lt_add_of_pos_left hpos)

/-- The recursion ends and gives every task a level. -/
theorem levelCache_spec (map : Dict String Fields) :
    ∃ cache, levelCache map = .ok cache ∧ Memo.Built (knownDeps map) levelOf 0 cache.entries
      ∧ ∀ id, id ∈ cache.keys ↔ id ∈ map.keys := by
  have hcard : map.keys.toFinset.card < map.keys.length + 1 :=
    Nat.lt_succ_of_le (List.toFinset_card_le map.keys)
  have hroots : ∀ id ∈ sorted map.keys, id ∈ map.keys.toFinset := fun id hid =>
    List.mem_toFinset.2 ((List.mem_insertionSort (· ≤ ·)).1 hid)
  obtain ⟨values, cache, hok, hbuilt, hnodes, hvalues⟩ := Memo.evalRoots_spec
    (fun id _ dep hdep => List.mem_toFinset.2 (mem_keys_of_mem_knownDeps hdep)) hcard hroots
  refine ⟨cache, by rw [levelCache, hok], hbuilt, fun id => ⟨fun hid => ?_, fun hid => ?_⟩⟩
  · exact List.mem_toFinset.1 (hnodes id hid)
  · obtain ⟨value, -, hentry⟩ :=
      exists_of_mem_left hvalues ((List.mem_insertionSort (· ≤ ·)).2 hid)
    exact List.mem_map.2 ⟨(id, value), hentry, rfl⟩

/-! ### Reading the dependencies -/

/-- The dependencies of the task can be iterated, and looked up in a dictionary. -/
def Readable (task : Fields) : Prop :=
  ∃ deps, dependencies task = .ok deps ∧ ∀ dep ∈ deps, hashable dep = true

theorem readable_normalizeTask (task : Fields) : Readable (normalizeTask task) := by
  refine ⟨(normalizeDependencies (task.get? "dependencies")).map .str, ?_, fun dep hdep => ?_⟩
  · simp [dependencies, normalizeTask, Fields.get?, List.lookup_cons, iterated]
  · obtain ⟨s, -, rfl⟩ := List.mem_map.1 hdep
    rfl

theorem readable_normalizeRunTasks {runTasks : Option Value} {task : Fields}
    (h : task ∈ normalizeRunTasks runTasks) : Readable task := by
  unfold normalizeRunTasks at h
  split at h
  · obtain ⟨item, -, hitem⟩ := List.mem_filterMap.1 h
    cases item with
    | dict entries => exact Option.some.inj hitem ▸ readable_normalizeTask entries
    | _ => cases hitem
  · cases h

theorem exists_foldlM_ok {γ σ : Type} {step : σ → γ → Except MetricsError σ} {l : List γ}
    (h : ∀ a ∈ l, ∀ s, ∃ s', step s a = .ok s') (s : σ) : ∃ s', l.foldlM step s = .ok s' := by
  induction l generalizing s with
  | nil => exact ⟨s, rfl⟩
  | cons a rest ih =>
      rw [List.forall_mem_cons] at h
      obtain ⟨s', hstep⟩ := h.1 s
      obtain ⟨last, hrest⟩ := ih h.2 s'
      refine ⟨last, ?_⟩
      rw [List.foldlM_cons, hstep]
      exact hrest

theorem childrenOf_ok (h : ∀ entry ∈ map.entries, Readable entry.2) :
    ∃ children, childrenOf map = .ok children := by
  refine exists_foldlM_ok (fun entry hentry children => ?_) _
  obtain ⟨deps, hdeps, hhash⟩ := h entry hentry
  rw [addChildren, hdeps]
  refine exists_foldlM_ok (fun dep hdep children => ?_) children
  unfold addChild
  rw [if_pos (hhash dep hdep)]
  cases dep with
  | str dep =>
      rcases hget : children.get? dep with _ | ids
      · exact ⟨children, by simp only [hget]⟩
      · exact ⟨children.set dep (ids ++ [entry.1]), by simp only [hget]⟩
  | _ => exact ⟨children, rfl⟩

/-! ### The bounds -/

/-- What the metrics say about any task list: the depth is the number of levels in use, with no level
left out. -/
structure Fills (tasks : List Fields) (metrics : StructuralMetrics) : Prop where
  depth_eq_zero : metrics.depth = 0 ↔ tasks = []
  depth_le : metrics.depth ≤ (tasks.map taskId).toFinset.card
  width_le : metrics.width ≤ (tasks.map taskId).toFinset.card
  levels : ∃ cache, levelCache (taskMap tasks) = .ok cache
    ∧ (∀ id, id ∈ cache.keys ↔ id ∈ tasks.map taskId)
    ∧ (∀ id level, cache.get? id = some level → 1 ≤ level ∧ level ≤ metrics.depth)
    ∧ ∀ level, 1 ≤ level → level ≤ metrics.depth → ∃ id, cache.get? id = some level

/-- The metrics of tasks that are read without an error. -/
theorem computeStructuralMetrics_eq (hreadable : ∀ task ∈ tasks, Readable task) :
    ∃ metrics cache, computeStructuralMetrics tasks = .ok metrics
      ∧ levelCache (taskMap tasks) = .ok cache
      ∧ metrics.depth = maxOrZero cache.values
      ∧ metrics.width = maxOrZero (widthCounter cache.values).values := by
  rcases tasks with _ | ⟨task, rest⟩
  · exact ⟨⟨0, 0, 0, 0⟩, .empty, rfl, rfl, rfl, rfl⟩
  · have hentries : ∀ entry ∈ (taskMap (task :: rest)).entries, Readable entry.2 :=
      fun entry hentry => hreadable _ (mem_of_get?_taskMap (Dict.mem_entries_iff.1 hentry))
    obtain ⟨children, hchildren⟩ := childrenOf_ok hentries
    obtain ⟨cache, hcache, -⟩ := levelCache_spec (taskMap (task :: rest))
    refine ⟨{ depth := maxOrZero cache.values
              width := maxOrZero (widthCounter cache.values).values
              branchingFactor := branchingFactor children
              dependencyChains := dependencyChains (taskMap (task :: rest)) children },
      cache, ?_, hcache, rfl, rfl⟩
    simp only [computeStructuralMetrics, List.isEmpty_cons, hchildren, hcache, bind, Except.bind,
      Bool.false_eq_true, if_false, pure, Except.pure]

/-- The levels in the table are those from 1 to the largest. -/
theorem levels_iff {succ : String → List String} {cache : Dict String ℕ}
    (h : Memo.Built succ levelOf 0 cache.entries) (level : ℕ) :
    (∃ id, cache.get? id = some level) ↔ 1 ≤ level ∧ level ≤ maxOrZero cache.values := by
  constructor
  · rintro ⟨id, hget⟩
    exact ⟨(level_below h _ (Dict.mem_entries_iff.2 hget)).1,
      le_maxOrZero (Dict.mem_values_iff.2 ⟨id, hget⟩)⟩
  · rintro ⟨hpos, hle⟩
    have hne : cache.values ≠ [] := by
      intro hnil
      rw [hnil] at hle
      exact absurd (hpos.trans hle) (by decide)
    obtain ⟨id, hid⟩ := Dict.mem_values_iff.1 (maxOrZero_mem hne)
    obtain ⟨id', hid'⟩ := every_level h ⟨id, Dict.mem_entries_iff.2 hid⟩ hpos hle
    exact ⟨id', Dict.mem_entries_iff.1 hid'⟩

/-- There are no more levels than entries. -/
theorem maxOrZero_values_le {succ : String → List String} {cache : Dict String ℕ}
    (h : Memo.Built succ levelOf 0 cache.entries) : maxOrZero cache.values ≤ cache.values.length := by
  have hsub : Finset.Icc 1 (maxOrZero cache.values) ⊆ cache.values.toFinset := fun level hlevel =>
    List.mem_toFinset.2 (Dict.mem_values_iff.2 ((levels_iff h level).2 (Finset.mem_Icc.1 hlevel)))
  have hcard := (Finset.card_le_card hsub).trans (List.toFinset_card_le cache.values)
  rwa [Nat.card_Icc, Nat.add_sub_cancel] at hcard

theorem maxOrZero_widthCounter_le (values : List ℕ) :
    maxOrZero (widthCounter values).values ≤ values.length := by
  refine maxOrZero_le fun n hn => ?_
  obtain ⟨level, hcount⟩ := Dict.mem_values_iff.1 hn
  rw [widthCounter, Dict.get?_tally] at hcount
  split at hcount
  · exact Option.some.inj hcount ▸ List.count_le_length
  · cases hcount

/-- **However the dependencies lie, the recursion ends and the levels fill the range up to the
depth.** -/
theorem fills_of_readable (hreadable : ∀ task ∈ tasks, Readable task) :
    ∃ metrics, computeStructuralMetrics tasks = .ok metrics ∧ Fills tasks metrics := by
  obtain ⟨metrics, cache, hok, hcache, hdepth, hwidth⟩ := computeStructuralMetrics_eq hreadable
  obtain ⟨cache', hcache', hbuilt, hkeys⟩ := levelCache_spec (taskMap tasks)
  obtain rfl := Except.ok.inj (hcache.symm.trans hcache')
  have hids : ∀ id, id ∈ cache.keys ↔ id ∈ tasks.map taskId := fun id =>
    (hkeys id).trans mem_taskMap_keys
  have hlevels := levels_iff hbuilt
  have hlength : cache.values.length = (tasks.map taskId).toFinset.card :=
    cache.length_values.trans (Dict.length_keys hids)
  have hle := maxOrZero_values_le hbuilt
  have hwidthle := maxOrZero_widthCounter_le cache.values
  rw [← hdepth] at hlevels hle
  rw [← hwidth] at hwidthle
  rw [hlength] at hle hwidthle
  have hzero : metrics.depth = 0 ↔ tasks = [] := by
    constructor
    · intro hzero
      cases tasks with
      | nil => rfl
      | cons task rest =>
          have hmem : taskId task ∈ cache.keys := (hids _).2 List.mem_cons_self
          obtain ⟨level, hlevel⟩ := Option.isSome_iff_exists.1
            ((cache.get?_isSome_iff (taskId task)).2 hmem)
          have hbetween := (hlevels level).1 ⟨_, hlevel⟩
          omega
    · rintro rfl
      exact Nat.eq_zero_of_le_zero hle
  exact ⟨metrics, hok, hzero, hle, hwidthle, cache, hcache, hids,
    fun id level hget => (hlevels level).1 ⟨id, hget⟩,
    fun level hpos hle => (hlevels level).2 ⟨hpos, hle⟩⟩

/-! ### The depth of the skips -/

theorem parents_eq_nil_or (skipped : Dict String String) (id : String) :
    parents skipped id = [] ∨ ∃ parent, parents skipped id = [parent] ∧ skipped.get? id = some parent := by
  unfold parents
  split
  · rename_i parent hget
    split
    · exact .inl rfl
    · exact .inr ⟨parent, rfl, hget⟩
  · exact .inl rfl

/-- The value of a task is at most one more than the number of skipped tasks in the table so far. -/
theorem depth_le_countP {skipped : Dict String String} {entries : List (String × ℕ)}
    (h : Memo.Built (parents skipped) depthOf 1 entries) :
    ∀ entry ∈ entries, entry.2 ≤ entries.countP (fun e => e.1 ∈ skipped.keys) + 1 := by
  induction h with
  | nil => exact fun _ hmem => absurd hmem List.not_mem_nil
  | @snoc entries a values _ hsupplied ih =>
      intro entry hentry
      rw [List.countP_append]
      rcases List.mem_append.1 hentry with hbefore | hlast
      · have hle := ih entry hbefore
        omega
      · obtain rfl := List.mem_singleton.1 hlast
        rcases parents_eq_nil_or skipped a with hnil | ⟨parent, hparent, hget⟩
        · rw [hnil, List.forall₂_nil_left_iff] at hsupplied
          rw [hsupplied]
          exact Nat.le_add_left 1 _
        · rw [hparent] at hsupplied
          obtain ⟨value, rest, hvalue, -, rfl⟩ := List.forall₂_cons_left_iff.1 hsupplied
          -- the skipped task itself is counted besides those its parent's value rests on
          have hskipped : a ∈ skipped.keys := (skipped.get?_isSome_iff a).1 (hget ▸ rfl)
          have hone : [(a, depthOf (value :: rest))].countP (fun e => e.1 ∈ skipped.keys) = 1 := by
            simp [hskipped]
          rw [hone, depthOf]
          rcases hvalue with hmem | ⟨-, rfl⟩
          · have hle := ih _ hmem
            omega
          · omega

theorem countP_mem_keys_le {cache : Dict String ℕ} {skipped : Dict String String} :
    cache.entries.countP (fun e => e.1 ∈ skipped.keys) ≤ skipped.keys.length := by
  have hmap : cache.entries.countP (fun e => e.1 ∈ skipped.keys)
      = (cache.keys.filter (· ∈ skipped.keys)).length := by
    rw [← List.countP_eq_length_filter]
    exact (@List.countP_map _ _ (fun id => decide (id ∈ skipped.keys)) Prod.fst cache.entries).symm
  rw [hmap]
  have hnodup : (cache.keys.filter (· ∈ skipped.keys)).Nodup := List.Nodup.filter _ cache.nodup
  refine (List.subperm_of_subset hnodup fun id hid => ?_).length_le
  exact of_decide_eq_true (List.mem_filter.1 hid).2

/-- **The recursion ends, and the depth is at most one more than the number of skipped tasks**, also
when they wait for each other in a circle. -/
theorem computeSkipPropagationDepth_le (tasks : List Fields) :
    ∃ depth, computeSkipPropagationDepth tasks = .ok depth
      ∧ depth ≤ (skippedById tasks).keys.length + 1 := by
  rw [computeSkipPropagationDepth]
  generalize skippedById tasks = skipped
  by_cases hnil : skipped.keys = []
  · exact ⟨0, if_pos hnil, Nat.zero_le _⟩
  · have hclosed : ∀ id ∈ (skipped.keys ++ skipped.values).toFinset, ∀ parent ∈ parents skipped id,
        parent ∈ (skipped.keys ++ skipped.values).toFinset := by
      intro id _ parent hparent
      rcases parents_eq_nil_or skipped id with hnone | ⟨parent', hone, hget⟩
      · rw [hnone] at hparent
        cases hparent
      · rw [hone] at hparent
        obtain rfl := List.mem_singleton.1 hparent
        exact List.mem_toFinset.2 (List.mem_append_right _ (Dict.mem_values_iff.2 ⟨id, hget⟩))
    have hcard : (skipped.keys ++ skipped.values).toFinset.card < 2 * skipped.keys.length + 1 := by
      have hle := List.toFinset_card_le (skipped.keys ++ skipped.values)
      rw [List.length_append, skipped.length_values] at hle
      omega
    have hroots : ∀ id ∈ sorted skipped.keys, id ∈ (skipped.keys ++ skipped.values).toFinset :=
      fun id hid => List.mem_toFinset.2
        (List.mem_append_left _ ((List.mem_insertionSort (· ≤ ·)).1 hid))
    obtain ⟨depths, cache, hok, hbuilt, -, hdepths⟩ :=
      @Memo.evalRoots_spec _ _ _ (parents skipped) depthOf 1 _ hclosed _ hcard _ hroots
    refine ⟨maxOrZero depths, by simp only [if_neg hnil, hok], maxOrZero_le fun depth hdepth => ?_⟩
    obtain ⟨id, -, hentry⟩ := exists_of_mem_right hdepths hdepth
    exact (depth_le_countP hbuilt _ hentry).trans (Nat.succ_le_succ countP_mem_keys_le)

def skippedIds (tasks : List Fields) : List String :=
  (tasks.filter fun task => textField task "status" "" = "skipped").map taskId

theorem mem_skippedIds_of_mem_keys {id : String} (h : id ∈ (skippedById tasks).keys) :
    id ∈ skippedIds tasks := by
  induction tasks using List.reverseRecOn with
  | nil => cases h
  | append_singleton rest task ih =>
      have hsplit : skippedIds (rest ++ [task]) = skippedIds rest ++ skippedIds [task] := by
        simp [skippedIds]
      have hstep : skippedById (rest ++ [task]) = addSkipped (skippedById rest) task := by
        rw [skippedById, List.foldl_append]
        rfl
      rw [hsplit, List.mem_append]
      rw [hstep, addSkipped] at h
      split at h
      · split at h
        · rename_i hstatus
          rcases Dict.mem_keys_set.1 h with hold | rfl
          · exact .inl (ih hold)
          · exact .inr (by simp [skippedIds, hstatus])
        · exact .inl (ih h)
      · exact .inl (ih h)

theorem length_skippedById_keys_le (tasks : List Fields) :
    (skippedById tasks).keys.length ≤ (skippedIds tasks).toFinset.card :=
  Dict.length_keys_le fun _ => mem_skippedIds_of_mem_keys

/-- **Both recursions end on any task list, within their bounds.** The tasks of a run are always
readable. -/
theorem structure_bounded :
    (∀ tasks, (∀ task ∈ tasks, Readable task) →
        ∃ metrics, computeStructuralMetrics tasks = .ok metrics ∧ Fills tasks metrics)
      ∧ (∀ runTasks, ∃ metrics, computeStructuralMetrics (normalizeRunTasks runTasks) = .ok metrics
        ∧ Fills (normalizeRunTasks runTasks) metrics)
      ∧ ∀ tasks, ∃ depth, computeSkipPropagationDepth tasks = .ok depth
        ∧ depth ≤ (skippedIds tasks).toFinset.card + 1 := by
  refine ⟨fun tasks hreadable => fills_of_readable hreadable, fun runTasks => ?_, fun tasks => ?_⟩
  · exact fills_of_readable fun task hmem => readable_normalizeRunTasks hmem
  · obtain ⟨depth, hok, hle⟩ := computeSkipPropagationDepth_le tasks
    exact ⟨depth, hok, hle.trans (Nat.succ_le_succ (length_skippedById_keys_le tasks))⟩

/-- Two tasks in a circle, one that waits for itself, an unknown dependency and a repeated id. -/
def knot : List Fields :=
  [[("id", .str "e"), ("dependencies", .list [.str "f"])],
   [("id", .str "f"), ("dependencies", .list [.str "e", .str "lost"])],
   [("id", .str "g"), ("dependencies", .list [])],
   [("id", .str "g"), ("dependencies", .list [.str "g"])]]

theorem structure_bounded_knot :
    (∃ metrics, computeStructuralMetrics knot = .ok metrics ∧ Fills knot metrics)
      ∧ (∃ metrics, computeStructuralMetrics (normalizeRunTasks (some (.list (knot.map .dict))))
          = .ok metrics ∧ Fills (normalizeRunTasks (some (.list (knot.map .dict)))) metrics)
      ∧ ∃ depth, computeSkipPropagationDepth knot = .ok depth
        ∧ depth ≤ (skippedIds knot).toFinset.card + 1 := by
  refine ⟨structure_bounded.1 knot fun task hmem => ?_,
    structure_bounded.2.1 (some (.list (knot.map .dict))), structure_bounded.2.2 knot⟩
  simp only [knot, List.mem_cons, List.not_mem_nil, or_false] at hmem
  rcases hmem with rfl | rfl | rfl | rfl <;> exact ⟨_, rfl, by decide⟩

end PersonalDevin.Agent
