import PersonalDevin.Agent.Structure
import PersonalDevin.Planning.Acceptance

/-!
# The metrics and the plan

The planner sorts the tasks into groups round by round, the self-improvement engine gives each task a
level by recursion over its dependencies. On the tasks of a plan both come to the longest chain of
dependencies: the first as an index, the second as a number from 1.
-/

namespace PersonalDevin.Agent

open Lib Planning

/-! ### The same tasks -/

/-- The engine reads from the dictionary the id and the dependencies of the node. -/
def Reads (task : Fields) (node : TaskNode) : Prop :=
  taskId task = node.id ∧ dependencies task = .ok (node.dependencies.map .str)

theorem eq_map_str_of_mapM {items : List Value} {texts : List String}
    (h : items.mapM strItem = some texts) : items = texts.map .str := by
  have hsame : items.map id = texts.map .str :=
    map_eq_of_paired (mapM_strItem_eq_some_iff.1 h) fun _ _ heq => heq
  rwa [List.map_id] at hsame

theorem reads_of_fromDict {task : Fields} {node : TaskNode} (h : TaskNode.fromDict task = some node) :
    Reads task node := by
  simp only [TaskNode.fromDict, Option.bind_eq_bind, Option.bind_eq_some_iff, Option.pure_def,
    Option.some.injEq] at h
  obtain ⟨id, hid, description, -, deps, hdeps, metadata, -, rfl⟩ := h
  constructor
  · rcases hget : task.get? "id" with _ | value
    · rw [hget] at hid
      cases hid
    · rw [hget] at hid
      cases value with
      | str s =>
          simp only [nonEmptyStr] at hid
          split at hid
          · cases hid
          · obtain rfl := Option.some.inj hid
            rw [taskId, textField, hget]
            rfl
      | _ => cases hid
  · rcases hget : task.get? "dependencies" with _ | value
    · rw [hget] at hdeps
      cases hdeps
    · rw [hget] at hdeps
      cases value with
      | list items => rw [dependencies, hget, iterated, eq_map_str_of_mapM hdeps]
      | tuple items => rw [dependencies, hget, iterated, eq_map_str_of_mapM hdeps]
      | _ => cases hdeps

theorem reads_of_describes {rawTasks : List Value} {nodes : List TaskNode}
    (h : List.Forall₂ Describes rawTasks nodes) :
    ∃ tasks, rawTasks = tasks.map .dict ∧ List.Forall₂ Reads tasks nodes := by
  induction h with
  | nil => exact ⟨[], rfl, .nil⟩
  | cons hfirst _ ih =>
      obtain ⟨task, rfl, hnode⟩ := hfirst
      obtain ⟨tasks, rfl, hrest⟩ := ih
      exact ⟨task :: tasks, rfl, .cons (reads_of_fromDict hnode) hrest⟩

section Planned

variable {tasks : List Fields} {nodes : List TaskNode} (hreads : List.Forall₂ Reads tasks nodes)
include hreads

theorem map_taskId_eq : tasks.map taskId = nodes.map TaskNode.id :=
  map_eq_of_paired hreads fun _ _ h => h.1

theorem readable_of_reads : ∀ task ∈ tasks, Readable task := by
  intro task htask
  obtain ⟨node, -, -, hdeps⟩ := exists_of_mem_left hreads htask
  refine ⟨_, hdeps, fun dep hdep => ?_⟩
  obtain ⟨s, -, rfl⟩ := List.mem_map.1 hdep
  rfl

omit hreads in
theorem filterMap_knownDep {map : Dict String Fields} {deps : List String}
    (h : ∀ dep ∈ deps, dep ∈ map.keys) : (deps.map Value.str).filterMap (knownDep map) = deps := by
  induction deps with
  | nil => rfl
  | cons dep rest ih =>
      rw [List.forall_mem_cons] at h
      simp [knownDep, h.1, ih h.2]

/-- The dependencies that the engine follows are those of the node with the id. -/
theorem knownDeps_eq_depsOf (hvalid : ValidTasks nodes) (id : String) :
    knownDeps (taskMap tasks) id = depsOf nodes id := by
  have hkeys : ∀ id, id ∈ (taskMap tasks).keys ↔ id ∈ nodes.map TaskNode.id := fun id => by
    rw [mem_taskMap_keys, map_taskId_eq hreads]
  by_cases hid : id ∈ nodes.map TaskNode.id
  · obtain ⟨node, hnode, rfl⟩ := List.mem_map.1 hid
    obtain ⟨task, htask, htaskId, hdeps⟩ := exists_of_mem_right hreads hnode
    have hnodup : (tasks.map taskId).Nodup := map_taskId_eq hreads ▸ hvalid.nodup
    have hget : (taskMap tasks).get? node.id = some task :=
      htaskId ▸ Dict.get?_setAll hnodup htask
    rw [knownDeps, hget, Option.map_some, hdeps, hvalid.depsOf_eq hnode]
    exact filterMap_knownDep fun dep hdep => (hkeys dep).2 (hvalid.known node hnode dep hdep)
  · have hget : (taskMap tasks).get? id = none :=
      (Dict.get?_eq_none_iff _ id).2 fun hmem => hid ((hkeys id).1 hmem)
    rw [knownDeps, hget, depsOf_eq_nil hid]
    rfl

end Planned

/-! ### Levels and chains -/

/-- A level from the levels of the dependencies is the longest chain, counted from 1. -/
theorem levelOf_eq_of_greatest {r : String → String → Prop} {a : String} {deps : List String}
    (hdeps : ∀ b, r a b ↔ b ∈ deps) {g : String → ℕ}
    (hg : ∀ b ∈ deps, IsGreatest {n | Chain r b n} (g b)) {k : ℕ}
    (hk : IsGreatest {n | Chain r a n} k) : levelOf (deps.map fun b => g b + 1) = k + 1 := by
  have hstep : ∀ n, Chain r a (n + 1) → ∃ b ∈ deps, n + 1 ≤ g b + 1 := by
    intro n hchain
    obtain ⟨b, hab, hrest⟩ := chain_succ_iff.1 hchain
    have hb := (hdeps b).1 hab
    exact ⟨b, hb, Nat.succ_le_succ ((hg b hb).2 hrest)⟩
  rcases hmax : (deps.map fun b => g b + 1).max? with _ | m
  · have hnil : deps = [] := List.map_eq_nil_iff.1 (List.max?_eq_none_iff.1 hmax)
    cases k with
    | zero => simp [levelOf, hmax]
    | succ k =>
        obtain ⟨b, hb, -⟩ := hstep k hk.1
        rw [hnil] at hb
        cases hb
  · obtain ⟨hmem, hle⟩ := List.max?_eq_some_iff.1 hmax
    obtain ⟨b, hb, rfl⟩ := List.mem_map.1 hmem
    have hlow : g b + 1 ≤ k := hk.2 (.cons ((hdeps b).2 hb) (hg b hb).1)
    have hhigh : k ≤ g b + 1 := by
      cases k with
      | zero => exact Nat.zero_le _
      | succ k =>
          obtain ⟨c, hc, hkc⟩ := hstep k hk.1
          exact hkc.trans (hle _ (List.mem_map_of_mem hc))
    simp only [levelOf, hmax]
    omega

theorem maxOrZero_congr {l l' : List ℕ} (h : ∀ n, n ∈ l ↔ n ∈ l') : maxOrZero l = maxOrZero l' :=
  le_antisymm (maxOrZero_le fun n hn => le_maxOrZero ((h n).1 hn))
    (maxOrZero_le fun n hn => le_maxOrZero ((h n).2 hn))

/-- The table of a plan: the tasks of group `k` have level `k + 1`, and there are no others. -/
structure Matches (groups : List (List String)) (cache : Dict String ℕ) : Prop where
  mem_iff : ∀ id level, cache.get? id = some level
    ↔ ∃ k group, level = k + 1 ∧ groups[k]? = some group ∧ id ∈ group
  ne_nil : ∀ group ∈ groups, group ≠ []
  nodup : ∀ group ∈ groups, group.Nodup

theorem Matches.depth_eq {groups : List (List String)} {cache : Dict String ℕ}
    (h : Matches groups cache) : maxOrZero cache.values = groups.length := by
  apply le_antisymm
  · refine maxOrZero_le fun level hlevel => ?_
    obtain ⟨id, hid⟩ := Dict.mem_values_iff.1 hlevel
    obtain ⟨k, group, rfl, hk, -⟩ := (h.mem_iff id level).1 hid
    exact (List.getElem?_eq_some_iff.1 hk).1
  · rcases hlength : groups.length with _ | k
    · exact Nat.zero_le _
    · have hk : groups[k]? = some groups[k] := List.getElem?_eq_getElem (by omega)
      obtain ⟨id, hid⟩ := List.exists_mem_of_ne_nil _ (h.ne_nil _ (List.mem_of_getElem? hk))
      have hget := (h.mem_iff id (k + 1)).2 ⟨k, _, rfl, hk, hid⟩
      exact le_maxOrZero (Dict.mem_values_iff.2 ⟨id, hget⟩)

theorem Matches.count_eq {groups : List (List String)} {cache : Dict String ℕ}
    (h : Matches groups cache) {k : ℕ} {group : List String} (hk : groups[k]? = some group) :
    cache.values.count (k + 1) = group.length := by
  have hcount : cache.values.count (k + 1)
      = ((cache.entries.filter fun entry => entry.2 = k + 1).map Prod.fst).length := by
    rw [List.length_map, ← List.countP_eq_length_filter, Dict.values, List.count, List.countP_map]
    congr 1
  have hnodup : ((cache.entries.filter fun entry => entry.2 = k + 1).map Prod.fst).Nodup :=
    cache.nodup.sublist (List.filter_sublist.map _)
  rw [hcount]
  apply List.Perm.length_eq
  apply (List.perm_ext_iff_of_nodup hnodup (h.nodup group (List.mem_of_getElem? hk))).2
  intro id
  constructor
  · intro hmem
    obtain ⟨⟨id, level⟩, hentry, rfl⟩ := List.mem_map.1 hmem
    obtain ⟨hentry, hlevel⟩ := List.mem_filter.1 hentry
    obtain ⟨j, group', hj, hgroup', hid⟩ := (h.mem_iff id level).1 (Dict.mem_entries_iff.1 hentry)
    obtain rfl : j = k := by simpa [hj] using hlevel
    obtain rfl := Option.some.inj (hk.symm.trans hgroup')
    exact hid
  · intro hid
    have hget := (h.mem_iff id (k + 1)).2 ⟨k, group, rfl, hk, hid⟩
    exact List.mem_map.2 ⟨(id, k + 1), List.mem_filter.2 ⟨Dict.mem_entries_iff.2 hget, by simp⟩, rfl⟩

theorem Matches.width_eq {groups : List (List String)} {cache : Dict String ℕ}
    (h : Matches groups cache) :
    maxOrZero (widthCounter cache.values).values = maxOrZero (groups.map List.length) := by
  apply maxOrZero_congr
  intro n
  rw [Dict.mem_values_iff]
  simp only [widthCounter, Dict.get?_tally, List.mem_map]
  constructor
  · rintro ⟨level, hcount⟩
    split at hcount
    · rename_i hlevel
      obtain ⟨id, hid⟩ := Dict.mem_values_iff.1 hlevel
      obtain ⟨k, group, rfl, hk, -⟩ := (h.mem_iff id level).1 hid
      exact ⟨group, List.mem_of_getElem? hk, (h.count_eq hk).symm.trans (Option.some.inj hcount)⟩
    · cases hcount
  · rintro ⟨group, hgroup, rfl⟩
    obtain ⟨k, hk⟩ := List.mem_iff_getElem?.1 hgroup
    obtain ⟨id, hid⟩ := List.exists_mem_of_ne_nil group (h.ne_nil group hgroup)
    have hget := (h.mem_iff id (k + 1)).2 ⟨k, group, rfl, hk, hid⟩
    refine ⟨k + 1, ?_⟩
    rw [if_pos (Dict.mem_values_iff.2 ⟨id, hget⟩), h.count_eq hk]

/-- Every task has a longest chain: the index of its group says how long it is. -/
theorem exists_longest {nodes : List TaskNode} {ordered : List String} {groups : List (List String)}
    (hleveled : Leveled nodes ordered groups) {id : String} (hid : id ∈ nodes.map TaskNode.id) :
    ∃ k, IsGreatest {n | Chain (DependsOn nodes) id n} k := by
  obtain ⟨group, hgroup, hmem⟩ :=
    List.mem_flatten.1 (hleveled.flatten.symm ▸ hleveled.mem_ordered_iff.2 hid)
  obtain ⟨k, hk⟩ := List.mem_iff_getElem?.1 hgroup
  exact ⟨k, (hleveled.mem_group_iff hid).1 ⟨group, hk, hmem⟩⟩

/-- **The table has for each task its longest chain, counted from 1.** -/
theorem levelCache_of_leveled {tasks : List Fields} {nodes : List TaskNode} {ordered : List String}
    {groups : List (List String)} (hreads : List.Forall₂ Reads tasks nodes)
    (hvalid : ValidTasks nodes) (hacyclic : Acyclic (DependsOn nodes))
    (hleveled : Leveled nodes ordered groups) :
    ∃ cache, levelCache (taskMap tasks) = .ok cache
      ∧ (∀ id ∈ cache.keys, id ∈ nodes.map TaskNode.id)
      ∧ ∀ id ∈ nodes.map TaskNode.id, ∃ k, IsGreatest {n | Chain (DependsOn nodes) id n} k
        ∧ cache.get? id = some (k + 1) := by
  obtain ⟨cache, hok, hbuilt, hkeys⟩ := levelCache_spec (taskMap tasks)
  have hids : ∀ id, id ∈ cache.keys ↔ id ∈ nodes.map TaskNode.id := fun id => by
    rw [hkeys, mem_taskMap_keys, map_taskId_eq hreads]
  have hlongest : ∀ id, ∃ k, id ∈ nodes.map TaskNode.id →
      IsGreatest {n | Chain (DependsOn nodes) id n} k := by
    intro id
    by_cases hid : id ∈ nodes.map TaskNode.id
    · obtain ⟨k, hk⟩ := exists_longest hleveled hid
      exact ⟨k, fun _ => hk⟩
    · exact ⟨0, fun h => absurd h hid⟩
  choose g hg using hlongest
  have hdeps : ∀ a b, DependsOn nodes a b ↔ b ∈ knownDeps (taskMap tasks) a := fun a b => by
    rw [knownDeps_eq_depsOf hreads hvalid, hvalid.dependsOn_iff]
  have hedge : Memo.Edge (knownDeps (taskMap tasks)) = DependsOn nodes := by
    funext a b
    exact propext (hdeps a b).symm
  have hequation : ∀ id ∈ (nodes.map TaskNode.id).toFinset,
      g id + 1 = levelOf ((knownDeps (taskMap tasks) id).map fun b => g b + 1) := by
    intro id hid
    refine (levelOf_eq_of_greatest (hdeps id) (fun b hb => hg b ?_)
      (hg id (List.mem_toFinset.1 hid))).symm
    exact hvalid.dependsOn_closed ((hdeps id b).2 hb)
  have hvalue : ∀ entry ∈ cache.entries, entry.2 = g entry.1 + 1 :=
    hbuilt.eq_of_acyclic _ _ _ (hedge ▸ hacyclic) hequation fun entry hentry =>
      List.mem_toFinset.2 ((hids entry.1).1 (List.mem_map_of_mem hentry))
  refine ⟨cache, hok, fun id => (hids id).1, fun id hid => ⟨g id, hg id hid, ?_⟩⟩
  obtain ⟨level, hlevel⟩ :=
    Option.isSome_iff_exists.1 ((cache.get?_isSome_iff id).2 ((hids id).2 hid))
  obtain rfl : level = g id + 1 := hvalue _ (Dict.mem_entries_iff.2 hlevel)
  exact hlevel

theorem matches_of_leveled {tasks : List Fields} {nodes : List TaskNode} {ordered : List String}
    {groups : List (List String)} (hreads : List.Forall₂ Reads tasks nodes)
    (hvalid : ValidTasks nodes) (hacyclic : Acyclic (DependsOn nodes))
    (hleveled : Leveled nodes ordered groups) :
    ∃ cache, levelCache (taskMap tasks) = .ok cache ∧ Matches groups cache := by
  obtain ⟨cache, hok, hids, hlevels⟩ := levelCache_of_leveled hreads hvalid hacyclic hleveled
  refine ⟨cache, hok, fun id level => ⟨fun hget => ?_, ?_⟩, fun group hgroup => ?_,
    fun group hgroup => ?_⟩
  · have hid := hids id ((cache.get?_isSome_iff id).1 (hget ▸ rfl))
    obtain ⟨k, hgreatest, hlevel⟩ := hlevels id hid
    obtain ⟨group, hk, hmem⟩ := (hleveled.mem_group_iff hid).2 hgreatest
    exact ⟨k, group, Option.some.inj (hget.symm.trans hlevel), hk, hmem⟩
  · rintro ⟨k, group, rfl, hk, hmem⟩
    obtain ⟨hid, hgreatest⟩ := ((hleveled.mem_group k group hk).2.2 id).1 hmem
    obtain ⟨k', hgreatest', hlevel⟩ := hlevels id hid
    rw [hlevel, hgreatest'.unique hgreatest]
  · obtain ⟨k, hk⟩ := List.mem_iff_getElem?.1 hgroup
    exact (hleveled.mem_group k group hk).1
  · obtain ⟨k, hk⟩ := List.mem_iff_getElem?.1 hgroup
    exact (hleveled.mem_group k group hk).2.1.imp fun hlt => hlt.ne

/-- **On the tasks of a plan the depth is the number of groups and the width the size of the largest
one.** -/
theorem structuralMetrics_of_plan {rawTasks : List Value} {plan : ExecutionPlan}
    (h : buildExecutionPlan rawTasks = .ok plan) :
    ∃ tasks metrics, rawTasks = tasks.map .dict ∧ computeStructuralMetrics tasks = .ok metrics
      ∧ metrics.depth = plan.executionGroups.length
      ∧ metrics.width = maxOrZero (plan.executionGroups.map fun group => group.taskIds.length)
      ∧ (rawTasks = [] → metrics.depth = 0 ∧ metrics.width = 0) := by
  obtain ⟨nodes, hraw, hplanned⟩ := planned_of_buildExecutionPlan h
  obtain ⟨tasks, rfl, hreads⟩ := reads_of_describes hraw
  obtain ⟨groups, hleveled, hgroups⟩ := hplanned.leveled
  obtain ⟨metrics, cache, hok, hcache, hdepth, hwidth⟩ :=
    computeStructuralMetrics_eq (readable_of_reads hreads)
  obtain ⟨cache', hcache', hmatches⟩ :=
    matches_of_leveled hreads hplanned.valid hplanned.acyclic hleveled
  obtain rfl := Except.ok.inj (hcache.symm.trans hcache')
  have hsizes : plan.executionGroups.map (fun group => group.taskIds.length)
      = groups.map List.length := by
    conv_rhs => rw [← map_taskIds_groupsOf groups, List.map_map]
    rw [hgroups]
    rfl
  refine ⟨tasks, metrics, rfl, hok, ?_, ?_, fun hnil => ?_⟩
  · rw [hdepth, hmatches.depth_eq, hgroups, groupsOf, List.length_mapIdx]
  · rw [hwidth, hmatches.width_eq, hsizes]
  · rw [List.map_eq_nil_iff] at hnil
    subst hnil
    obtain rfl := Except.ok.inj hok
    exact ⟨rfl, rfl⟩

/-- Two tasks of which the second waits for the first. -/
def chainPlan : ExecutionPlan where
  orderedTasks := [plainTask "a" [], plainTask "b" ["a"]]
  executionGroups := [⟨0, ["a"]⟩, ⟨1, ["b"]⟩]
  metadata := ⟨2, false⟩

theorem structuralMetrics_of_plan_chain :
    ∃ tasks metrics, [rawTask "a" [], rawTask "b" ["a"]] = tasks.map .dict
      ∧ computeStructuralMetrics tasks = .ok metrics
      ∧ metrics.depth = chainPlan.executionGroups.length
      ∧ metrics.width = maxOrZero (chainPlan.executionGroups.map fun group => group.taskIds.length)
      ∧ ([rawTask "a" [], rawTask "b" ["a"]] = [] → metrics.depth = 0 ∧ metrics.width = 0) :=
  structuralMetrics_of_plan (by rfl)

end PersonalDevin.Agent
