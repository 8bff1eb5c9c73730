import PersonalDevin.Lib.Countdown
import PersonalDevin.Planning.Cycle
import Mathlib.Algebra.BigOperators.Group.List.Basic
import Mathlib.Tactic.Ring

/-!
# The level-order traversal

The in-degree of a node counts the entries of its dependency list, and a finished dependency lowers
it once however often it is listed. So what is left of an in-degree is zero exactly when the list
has no repetition and all of it is finished. Level by level, the traversal therefore releases the
layers of the dependency relation, restricted to the nodes whose dependency lists are
duplicate-free.
-/

namespace PersonalDevin.Planning

open Lib Relation

/-- No dependency list of the tasks names an id twice. -/
def DuplicateFree (tasks : List TaskNode) : Prop := ∀ task ∈ tasks, task.dependencies.Nodup

/-- The ids that a traversal can ever release. -/
def releasable (tasks : List TaskNode) : Set String :=
  {id | id ∈ tasks.map TaskNode.id ∧ (depsOf tasks id).Nodup}

theorem ValidTasks.duplicateFree_iff {tasks : List TaskNode} (hvalid : ValidTasks tasks) :
    DuplicateFree tasks ↔ ∀ id ∈ tasks.map TaskNode.id, id ∈ releasable tasks := by
  constructor
  · intro hfree id hid
    obtain ⟨task, hmem, rfl⟩ := List.mem_map.1 hid
    exact ⟨hid, (hvalid.depsOf_eq hmem).symm ▸ hfree task hmem⟩
  · intro h task hmem
    have hnodup := (h task.id (List.mem_map.2 ⟨task, hmem, rfl⟩)).2
    rwa [hvalid.depsOf_eq hmem] at hnodup

theorem releasable_eq {tasks : List TaskNode} (hvalid : ValidTasks tasks)
    (hfree : DuplicateFree tasks) : releasable tasks = {id | id ∈ tasks.map TaskNode.id} :=
  Set.ext fun id => ⟨And.left, hvalid.duplicateFree_iff.1 hfree id⟩

/-- The order and the groups of a plan: group `k` holds, in ascending order, the ids whose longest
chain of dependencies has length `k`. -/
structure Leveled (tasks : List TaskNode) (ordered : List String) (groups : List (List String)) :
    Prop where
  perm : ordered.Perm (tasks.map TaskNode.id)
  flatten : groups.flatten = ordered
  mem_group : ∀ k group, groups[k]? = some group → group ≠ [] ∧ group.Pairwise (· < ·)
    ∧ ∀ x, x ∈ group
      ↔ x ∈ tasks.map TaskNode.id ∧ IsGreatest {n | Chain (DependsOn tasks) x n} k

/-- What is left of the in-degree of a node when the nodes `done` are finished. -/
def remaining (tasks : List TaskNode) (done : Finset String) (id : String) : ℤ :=
  (depsOf tasks id).length - ((depsOf tasks id).toFinset ∩ done).card

section Remaining

variable {tasks : List TaskNode} {done : Finset String} {id : String}

theorem remaining_eq_zero_iff :
    remaining tasks done id = 0
      ↔ (depsOf tasks id).Nodup ∧ ∀ dep ∈ depsOf tasks id, dep ∈ done := by
  have hinter : ((depsOf tasks id).toFinset ∩ done).card ≤ (depsOf tasks id).toFinset.card :=
    Finset.card_le_card Finset.inter_subset_left
  have hdedup : (depsOf tasks id).toFinset.card ≤ (depsOf tasks id).length :=
    List.toFinset_card_le _
  rw [remaining]
  constructor
  · intro hzero
    have hall : (depsOf tasks id).toFinset ∩ done = (depsOf tasks id).toFinset :=
      Finset.eq_of_subset_of_card_le Finset.inter_subset_left (by omega)
    have hnodup : (depsOf tasks id).toFinset.card = (depsOf tasks id).length := by omega
    refine ⟨Multiset.toFinset_card_eq_card_iff_nodup.1 hnodup, fun dep hdep => ?_⟩
    exact Finset.inter_eq_left.1 hall (List.mem_toFinset.2 hdep)
  · rintro ⟨hnodup, hdone⟩
    rw [Finset.inter_eq_left.2 fun dep hdep => hdone dep (List.mem_toFinset.1 hdep),
      List.toFinset_card_of_nodup hnodup, sub_self]

theorem remaining_anti {more : Finset String} (h : done ⊆ more) :
    remaining tasks more id ≤ remaining tasks done id := by
  have hcard : ((depsOf tasks id).toFinset ∩ done).card
      ≤ ((depsOf tasks id).toFinset ∩ more).card :=
    Finset.card_le_card (Finset.inter_subset_inter_left h)
  rw [remaining, remaining]
  omega

theorem remaining_insert {node : String} (hnew : node ∉ done) :
    remaining tasks (insert node done) id
      = remaining tasks done id - if node ∈ depsOf tasks id then 1 else 0 := by
  rw [remaining, remaining]
  by_cases hdep : node ∈ depsOf tasks id
  · have hnot : node ∉ (depsOf tasks id).toFinset ∩ done := fun hmem =>
      hnew (Finset.mem_inter.1 hmem).2
    rw [Finset.inter_insert_of_mem (List.mem_toFinset.2 hdep), Finset.card_insert_of_notMem hnot,
      if_pos hdep]
    push_cast
    ring
  · rw [Finset.inter_insert_of_notMem fun hmem => hdep (List.mem_toFinset.1 hmem), if_neg hdep,
      sub_zero]

end Remaining

namespace DependencyGraph

theorem sorted_nodup {ids : List String} (h : ids.Nodup) : (sorted ids).Nodup :=
  ((List.perm_insertionSort (· ≤ ·) ids).nodup_iff).2 h

theorem sorted_pairwise {ids : List String} (h : ids.Nodup) : (sorted ids).Pairwise (· < ·) := by
  have hle : (sorted ids).Pairwise (· ≤ ·) := List.pairwise_insertionSort (· ≤ ·) ids
  exact hle.imp₂ (fun _ _ => lt_of_le_of_ne) (sorted_nodup h)

/-! ### One finished node -/

def Frontier.countdown (frontier : Frontier) : Countdown String :=
  ⟨frontier.inDegree, frontier.nextReady⟩

theorem countdown_foldl_release (ids : List String) (frontier : Frontier) :
    (ids.foldl release frontier).countdown = ids.foldl (Countdown.release id) frontier.countdown := by
  induction ids generalizing frontier with
  | nil => rfl
  | cons id rest ih => exact ih (release frontier id)

theorem foldl_release {ids : List String} (hnodup : ids.Nodup) {frontier : Frontier}
    (hfresh : ∀ x ∈ frontier.nextReady, x ∉ ids) (hsorted : frontier.nextReady.Pairwise (· < ·)) :
    (∀ x, degree (ids.foldl release frontier).inDegree x
        = degree frontier.inDegree x - if x ∈ ids then 1 else 0)
      ∧ (ids.foldl release frontier).nextReady.Pairwise (· < ·)
      ∧ ∀ x, x ∈ (ids.foldl release frontier).nextReady
          ↔ x ∈ frontier.nextReady ∨ (x ∈ ids ∧ degree frontier.inDegree x = 1) := by
  obtain ⟨hcount, hle, hready, hmem⟩ := @Countdown.foldl_release _ _ _ _ id ids hnodup
    frontier.countdown hfresh (hsorted.imp le_of_lt) (hsorted.imp ne_of_lt)
  rw [← countdown_foldl_release] at hcount hle hready hmem
  exact ⟨hcount, hle.imp₂ (fun _ _ => lt_of_le_of_ne) hready, hmem⟩

/-- The frontier while a level is processed: `start` was finished before the level, `done` is
finished now. -/
structure FrontierInv (tasks : List TaskNode) (start done : Finset String) (frontier : Frontier) :
    Prop where
  start_subset : start ⊆ done
  degree_eq : ∀ x, degree frontier.inDegree x = remaining tasks done x
  sorted : frontier.nextReady.Pairwise (· < ·)
  mem_nextReady : ∀ x, x ∈ frontier.nextReady ↔ x ∈ tasks.map TaskNode.id
    ∧ remaining tasks done x = 0 ∧ remaining tasks start x ≠ 0

variable {graph : DependencyGraph} {tasks : List TaskNode}

theorem FrontierInv.finish (hgraph : graph.Represents tasks) {start done : Finset String}
    {frontier : Frontier} (h : FrontierInv tasks start done frontier) {id : String}
    (hnew : id ∉ done) : FrontierInv tasks start (insert id done) (graph.finish frontier id) := by
  have hmem : ∀ x, x ∈ DependencyGraph.sorted (graph.neighbors id) ↔ id ∈ depsOf tasks x :=
    fun x => mem_sorted.trans (hgraph.mem_neighbors id x)
  have hfresh : ∀ x ∈ frontier.nextReady, x ∉ DependencyGraph.sorted (graph.neighbors id) := by
    intro x hx hneighbor
    have hzero := ((h.mem_nextReady x).1 hx).2.1
    exact hnew ((remaining_eq_zero_iff.1 hzero).2 id ((hmem x).1 hneighbor))
  obtain ⟨hdegree, hsorted, hnext⟩ :=
    foldl_release (sorted_nodup (hgraph.neighbors_nodup id)) hfresh h.sorted
  constructor
  · exact h.start_subset.trans (Finset.subset_insert id done)
  · intro x
    rw [DependencyGraph.finish, hdegree, h.degree_eq, remaining_insert hnew]
    simp only [hmem]
  · exact hsorted
  · intro x
    rw [DependencyGraph.finish, hnext, h.mem_nextReady, hmem, h.degree_eq, remaining_insert hnew]
    by_cases hdep : id ∈ depsOf tasks x
    · have hnonzero : remaining tasks done x ≠ 0 := fun hzero =>
        hnew ((remaining_eq_zero_iff.1 hzero).2 id hdep)
      have hid : x ∈ tasks.map TaskNode.id := by
        by_contra hnot
        rw [depsOf_eq_nil hnot] at hdep
        cases hdep
      have hle : remaining tasks done x ≤ remaining tasks start x := remaining_anti h.start_subset
      simp only [hdep, hid, hnonzero, if_true, true_and, and_false, false_and, false_or]
      omega
    · simp [hdep]

theorem FrontierInv.foldl (hgraph : graph.Represents tasks) {start done : Finset String}
    {frontier : Frontier} (h : FrontierInv tasks start done frontier) {level : List String}
    (hnodup : level.Nodup) (hnew : ∀ id ∈ level, id ∉ done) :
    FrontierInv tasks start (done ∪ level.toFinset) (level.foldl graph.finish frontier) := by
  induction level generalizing done frontier with
  | nil => simpa using h
  | cons id rest ih =>
      rw [List.nodup_cons] at hnodup
      rw [List.forall_mem_cons] at hnew
      have hnew' : ∀ other ∈ rest, other ∉ insert id done := by
        intro other hmem hother
        rcases Finset.mem_insert.1 hother with rfl | hdone
        · exact hnodup.1 hmem
        · exact hnew.2 other hmem hdone
      have hstep := ih (h.finish hgraph hnew.1) hnodup.2 hnew'
      rwa [List.foldl_cons, List.toFinset_cons, Finset.union_insert, ← Finset.insert_union]

/-! ### The loop over the levels -/

/-- The state at the head of the loop after `k` levels. -/
structure LevelInv (tasks : List TaskNode) (k : ℕ) (inDegree : Dict String Int)
    (currentReady ordered : List String) (groups : List (List String)) : Prop where
  degree_eq : ∀ x, degree inDegree x = remaining tasks ordered.toFinset x
  ordered_nodup : ordered.Nodup
  mem_ordered : ∀ x, x ∈ ordered ↔ x ∈ released (releasable tasks) (DependsOn tasks) k
  sorted : currentReady.Pairwise (· < ·)
  mem_currentReady : ∀ x, x ∈ currentReady ↔ x ∈ layer (releasable tasks) (DependsOn tasks) k
  groups_length : groups.length = k
  groups_flatten : groups.flatten = ordered
  groups_eq : ∀ j group, groups[j]? = some group → group ≠ [] ∧ group.Pairwise (· < ·)
    ∧ ∀ x, x ∈ group ↔ x ∈ layer (releasable tasks) (DependsOn tasks) j

/-- With the nodes released before round `k` finished, the in-degree of a node reads zero exactly
when it is released before round `k + 1`. -/
theorem mem_released_succ_iff (hvalid : ValidTasks tasks) {k : ℕ} {done : Finset String}
    (hdone : ∀ x, x ∈ done ↔ x ∈ released (releasable tasks) (DependsOn tasks) k) {x : String} :
    x ∈ released (releasable tasks) (DependsOn tasks) (k + 1)
      ↔ x ∈ tasks.map TaskNode.id ∧ remaining tasks done x = 0 := by
  rw [mem_released_succ, remaining_eq_zero_iff]
  simp only [releasable, Set.mem_ofPred_eq, hvalid.dependsOn_iff, hdone, and_assoc]

theorem LevelInv.length_le {k : ℕ} {inDegree : Dict String Int} {currentReady ordered : List String}
    {groups : List (List String)} (h : LevelInv tasks k inDegree currentReady ordered groups) :
    k ≤ tasks.length := by
  have hsub : ordered ⊆ tasks.map TaskNode.id := fun x hx =>
    (released_subset k ((h.mem_ordered x).1 hx)).1
  have hlength : ordered.length ≤ tasks.length := by
    simpa using (h.ordered_nodup.subperm hsub).length_le
  have hgroups : groups.length ≤ groups.flatten.length := by
    rw [List.length_flatten]
    have hone : ∀ n ∈ groups.map List.length, 1 ≤ n := by
      intro n hn
      obtain ⟨group, hmem, rfl⟩ := List.mem_map.1 hn
      obtain ⟨j, hj⟩ := List.mem_iff_getElem?.1 hmem
      exact List.length_pos_iff.2 (h.groups_eq j group hj).1
    simpa using List.length_le_sum_of_one_le _ hone
  rw [h.groups_flatten, h.groups_length] at hgroups
  omega

theorem LevelInv.step (hgraph : graph.Represents tasks) (hvalid : ValidTasks tasks) {k : ℕ}
    {inDegree : Dict String Int} {currentReady ordered : List String} {groups : List (List String)}
    (h : LevelInv tasks k inDegree currentReady ordered groups) (hready : currentReady ≠ []) :
    LevelInv tasks (k + 1) (currentReady.foldl graph.finish ⟨inDegree, []⟩).inDegree
      (currentReady.foldl graph.finish ⟨inDegree, []⟩).nextReady (ordered ++ currentReady)
      (groups ++ [currentReady]) := by
  have hnodup : currentReady.Nodup := h.sorted.imp ne_of_lt
  have hnew : ∀ x ∈ currentReady, x ∉ ordered := fun x hx hmem =>
    ((h.mem_currentReady x).1 hx).2 ((h.mem_ordered x).1 hmem)
  have hdone : ∀ x, x ∈ ordered.toFinset
      ↔ x ∈ released (releasable tasks) (DependsOn tasks) k := fun x => by
    rw [List.mem_toFinset, h.mem_ordered]
  have hdone' : ∀ x, x ∈ ordered.toFinset ∪ currentReady.toFinset
      ↔ x ∈ released (releasable tasks) (DependsOn tasks) (k + 1) := fun x => by
    rw [Finset.mem_union, hdone, List.mem_toFinset, h.mem_currentReady, layer, Set.mem_sdiff]
    exact ⟨fun hx => hx.elim (fun hx => released_subset_succ k hx) And.left,
      fun hx => or_iff_not_imp_left.2 fun hnot => ⟨hx, hnot⟩⟩
  have hstart : FrontierInv tasks ordered.toFinset ordered.toFinset ⟨inDegree, []⟩ :=
    { start_subset := Finset.Subset.rfl
      degree_eq := h.degree_eq
      sorted := .nil
      mem_nextReady := by simp }
  have hlevel := hstart.foldl hgraph hnodup
    fun x hx hmem => hnew x hx (List.mem_toFinset.1 hmem)
  constructor
  · intro x
    rw [hlevel.degree_eq, List.toFinset_append]
  · exact List.nodup_append.2 ⟨h.ordered_nodup, hnodup, fun x hx y hy heq =>
      hnew y hy (heq ▸ hx)⟩
  · intro x
    rw [← hdone', Finset.mem_union, List.mem_toFinset, List.mem_toFinset, List.mem_append]
  · exact hlevel.sorted
  · intro x
    rw [hlevel.mem_nextReady, layer, Set.mem_sdiff, mem_released_succ_iff hvalid hdone',
      mem_released_succ_iff hvalid hdone]
    constructor
    · rintro ⟨hid, hzero, hnonzero⟩
      exact ⟨⟨hid, hzero⟩, fun hx => hnonzero hx.2⟩
    · rintro ⟨⟨hid, hzero⟩, hnot⟩
      exact ⟨hid, hzero, fun hx => hnot ⟨hid, hx⟩⟩
  · rw [List.length_append, h.groups_length, List.length_singleton]
  · rw [List.flatten_append, h.groups_flatten, List.flatten_singleton]
  · intro j group hj
    rw [List.getElem?_append] at hj
    split at hj
    · exact h.groups_eq j group hj
    · rename_i hlarge
      obtain ⟨hindex, rfl⟩ : j - groups.length = 0 ∧ currentReady = group := by
        simpa [List.getElem?_singleton] using hj
      have hlast : j = k := by
        have hlength := h.groups_length
        omega
      exact ⟨hready, h.sorted, hlast ▸ h.mem_currentReady⟩

theorem levelInv_initial (hgraph : graph.Represents tasks) (hvalid : ValidTasks tasks) :
    LevelInv tasks 0 graph.inDegree graph.initialReady [] [] := by
  have hdegree : ∀ x, degree graph.inDegree x = remaining tasks ∅ x := by
    intro x
    by_cases hx : x ∈ tasks.map TaskNode.id
    · simp [degree, Dict.getD, hgraph.degree_eq x hx, remaining]
    · have hnone : graph.inDegree.get? x = none :=
        (graph.inDegree.get?_eq_none_iff x).2 (hgraph.degree_keys ▸ hx)
      simp [degree, Dict.getD, hnone, remaining, depsOf_eq_nil hx]
  have hkeys : (graph.inDegree.keys.filter fun id => degree graph.inDegree id = 0).Nodup :=
    graph.inDegree.nodup.filter _
  constructor
  · exact hdegree
  · exact List.nodup_nil
  · exact fun x => iff_of_false List.not_mem_nil fun h => h
  · exact sorted_pairwise hkeys
  · intro x
    have hnext := @mem_released_succ_iff tasks hvalid 0 ∅
      (fun y => iff_of_false (Finset.notMem_empty y) fun h => h) x
    rw [initialReady, mem_sorted, List.mem_filter, hgraph.degree_keys, decide_eq_true_iff, hdegree,
      ← hnext, layer]
    exact ⟨fun h => ⟨h, fun h => h⟩, And.left⟩
  · rfl
  · rfl
  · intro j group hj
    cases hj

theorem traverse_spec (hgraph : graph.Represents tasks) (hvalid : ValidTasks tasks) {fuel k : ℕ}
    {inDegree : Dict String Int} {currentReady ordered : List String} {groups : List (List String)}
    (h : LevelInv tasks k inDegree currentReady ordered groups) (hfuel : tasks.length < k + fuel) :
    ∃ l lastDegree ordered' groups',
      graph.traverse fuel inDegree currentReady ordered groups = .ok (ordered', groups')
        ∧ LevelInv tasks l lastDegree [] ordered' groups' := by
  induction fuel generalizing k inDegree currentReady ordered groups with
  | zero =>
      have hle := h.length_le
      omega
  | succ fuel ih =>
      by_cases hready : currentReady = []
      · subst hready
        exact ⟨k, inDegree, ordered, groups, by rw [traverse, if_pos rfl], h⟩
      · rw [traverse, if_neg hready]
        exact ih (h.step hgraph hvalid hready) (by omega)

/-! ### What the traversal returns -/

variable {k : ℕ} {inDegree : Dict String Int} {ordered : List String} {groups : List (List String)}

theorem LevelInv.ordered_subset {currentReady : List String}
    (h : LevelInv tasks k inDegree currentReady ordered groups) :
    ordered ⊆ tasks.map TaskNode.id :=
  fun x hx => (released_subset k ((h.mem_ordered x).1 hx)).1

/-- The final length check catches a repeated dependency, and nothing else on an acyclic graph. -/
theorem LevelInv.length_eq_iff (hvalid : ValidTasks tasks) (hacyclic : Acyclic (DependsOn tasks))
    (h : LevelInv tasks k inDegree [] ordered groups) :
    ordered.length = tasks.length ↔ DuplicateFree tasks := by
  have hsubperm := h.ordered_nodup.subperm h.ordered_subset
  constructor
  · intro hlength
    have hperm := hsubperm.perm_of_length_le (by simp [hlength])
    apply hvalid.duplicateFree_iff.2
    intro id hid
    exact released_subset k ((h.mem_ordered id).1 (hperm.mem_iff.2 hid))
  · intro hfree
    have hempty : layer (releasable tasks) (DependsOn tasks) k = ∅ :=
      Set.eq_empty_iff_forall_notMem.2 fun x hx => List.not_mem_nil ((h.mem_currentReady x).2 hx)
    rw [releasable_eq hvalid hfree] at hempty
    have hall := subset_released_of_layer_eq_empty hacyclic (List.finite_toSet _)
      (fun _ _ _ hdep => hvalid.dependsOn_closed hdep) hempty
    have hsub : tasks.map TaskNode.id ⊆ ordered := fun x hx => by
      rw [h.mem_ordered, releasable_eq hvalid hfree]
      exact hall hx
    have hle := (hvalid.nodup.subperm hsub).length_le
    have hge := hsubperm.length_le
    simp only [List.length_map] at hle hge
    omega

theorem LevelInv.leveled (hvalid : ValidTasks tasks) (hfree : DuplicateFree tasks)
    (h : LevelInv tasks k inDegree [] ordered groups) (hlength : ordered.length = tasks.length) :
    Leveled tasks ordered groups where
  perm := (h.ordered_nodup.subperm h.ordered_subset).perm_of_length_le (by simp [hlength])
  flatten := h.groups_flatten
  mem_group j group hj := by
    obtain ⟨hne, hsorted, hmem⟩ := h.groups_eq j group hj
    refine ⟨hne, hsorted, fun x => ?_⟩
    rw [hmem, releasable_eq hvalid hfree]
    exact mem_layer_iff fun _ _ _ hdep => hvalid.dependsOn_closed hdep

/-- **The traversal returns the levels of an acyclic list without repeated dependencies, and raises
`PlanningCycleError` on every other validated list.** -/
theorem Represents.traverseLevels_spec (hgraph : graph.Represents tasks)
    (hvalid : ValidTasks tasks) :
    (Acyclic (DependsOn tasks) ∧ DuplicateFree tasks
        ∧ ∃ ordered groups, graph.traverseLevels = .ok (ordered, groups)
          ∧ Leveled tasks ordered groups)
      ∨ (¬ (Acyclic (DependsOn tasks) ∧ DuplicateFree tasks)
        ∧ graph.traverseLevels = .error .cycle) := by
  have hkeys : graph.nodes.keys.length = tasks.length := by
    rw [hgraph.node_keys, List.length_map]
  rcases hgraph.hasCycle_spec hvalid with ⟨hcycle, hacyclic⟩ | ⟨hcycle, hacyclic⟩
  · obtain ⟨l, lastDegree, ordered, groups, hok, hinv⟩ := traverse_spec hgraph hvalid
      (levelInv_initial hgraph hvalid)
      (show tasks.length < 0 + (tasks.length + 1) by omega)
    have hiff := hinv.length_eq_iff hvalid hacyclic
    by_cases hlength : ordered.length = tasks.length
    · refine .inl ⟨hacyclic, hiff.1 hlength, ordered, groups, ?_,
        hinv.leveled hvalid (hiff.1 hlength) hlength⟩
      simp only [traverseLevels, hcycle, hok, hkeys, hlength, ne_eq, not_true_eq_false, if_false]
    · refine .inr ⟨fun h => hlength (hiff.2 h.2), ?_⟩
      simp only [traverseLevels, hcycle, hok, hkeys, hlength, ne_eq, not_false_eq_true, if_true]
  · refine .inr ⟨fun h => hacyclic h.1, ?_⟩
    simp only [traverseLevels, hcycle]

end DependencyGraph

end PersonalDevin.Planning
