import PersonalDevin.Lib.Greedy
import PersonalDevin.Planning.TaskGraph

/-!
# The order of the tasks

On a consistent graph the sort takes the tasks greedily: of those whose dependencies have all been taken
the one with the least key is next. The heap holds exactly these tasks, and a counter says how many
dependencies of its task are still to be taken. The library knows that there is one greedy order at most
and that it only ends early if the dependencies have a cycle, which the search finds first.
-/

namespace PersonalDevin.Planning

open Lib Relation

namespace TaskGraph

variable (lower : String → String) (graph : TaskGraph)

/-- All tasks once, and at each position the ready task with the least key. -/
def IsOrder (order : List String) : Prop :=
  order.Perm graph.tasks.keys
    ∧ Greedy {id | id ∈ graph.tasks.keys} graph.DependsOn (graph.sortKey lower) order

/-- How many dependencies of the task are still to be taken. -/
def waiting (done : List String) (t : String) : ℕ :=
  (graph.tasks.keys.toFinset.filter fun d => t ∈ graph.neighbors d ∧ d ∉ done).card

variable {lower graph}

theorem sortKey_injective : Function.Injective (graph.sortKey lower) := by
  have hid : ∀ id, ∃ priority name, graph.sortKey lower id = toLex (priority, toLex (name, id)) := by
    intro id
    rw [sortKey]
    split
    · exact ⟨_, _, rfl⟩
    · exact ⟨_, _, rfl⟩
  intro a b hab
  obtain ⟨priority, name, ha⟩ := hid a
  obtain ⟨priority', name', hb⟩ := hid b
  rw [ha, hb] at hab
  exact congrArg (fun key : ℤ ×ₗ String ×ₗ String => (ofLex (ofLex key).2).2) hab

theorem sortedIds_perm (ids : List String) : (graph.sortedIds lower ids).Perm ids :=
  List.perm_insertionSort _ ids

theorem sortedIds_pairwise (ids : List String) :
    (graph.sortedIds lower ids).Pairwise (graph.sortKey lower · ≤ graph.sortKey lower ·) := by
  have : Std.Total fun a b => graph.sortKey lower a ≤ graph.sortKey lower b :=
    ⟨fun a b => le_total (graph.sortKey lower a) (graph.sortKey lower b)⟩
  have : IsTrans String fun a b => graph.sortKey lower a ≤ graph.sortKey lower b :=
    ⟨fun _ _ _ => le_trans⟩
  exact List.pairwise_insertionSort _ ids

/-! ### What is still waited for -/

theorem waiting_concat {done : List String} {node : String} (hnode : node ∈ graph.tasks.keys)
    (hnew : node ∉ done) (t : String) :
    (graph.waiting (done ++ [node]) t : ℤ)
      = graph.waiting done t - if t ∈ graph.neighbors node then 1 else 0 := by
  have herase : (graph.tasks.keys.toFinset.filter fun d =>
        t ∈ graph.neighbors d ∧ d ∉ done ++ [node])
      = (graph.tasks.keys.toFinset.filter fun d => t ∈ graph.neighbors d ∧ d ∉ done).erase node := by
    ext d
    simp only [Finset.mem_filter, Finset.mem_erase, List.mem_append, List.mem_singleton, not_or]
    tauto
  rw [waiting, waiting, herase]
  by_cases hedge : t ∈ graph.neighbors node
  · have hmem : node ∈ graph.tasks.keys.toFinset.filter fun d =>
        t ∈ graph.neighbors d ∧ d ∉ done :=
      Finset.mem_filter.2 ⟨List.mem_toFinset.2 hnode, hedge, hnew⟩
    have hpos := Finset.card_pos.2 ⟨node, hmem⟩
    rw [if_pos hedge, Finset.card_erase_of_mem hmem]
    omega
  · have hnot : node ∉ graph.tasks.keys.toFinset.filter fun d =>
        t ∈ graph.neighbors d ∧ d ∉ done := fun hmem => hedge (Finset.mem_filter.1 hmem).2.1
    rw [if_neg hedge, Finset.erase_eq_of_notMem hnot, sub_zero]

theorem Consistent.waiting_eq_zero_iff (h : graph.Consistent) {done : List String} {t : String} :
    graph.waiting done t = 0 ↔ ∀ d, graph.DependsOn t d → d ∈ done := by
  rw [waiting, Finset.card_eq_zero, Finset.filter_eq_empty_iff]
  constructor
  · intro hnone d hedge
    by_contra hnot
    exact hnone (List.mem_toFinset.2 (h.edge t d hedge).2.1) ⟨hedge, hnot⟩
  · intro hall d _ hd
    exact hd.2 (hall d hd.1)

theorem Consistent.degree_eq_waiting (h : graph.Consistent) (t : String) :
    graph.inDegree.getD t 0 = graph.waiting [] t := by
  by_cases ht : t ∈ graph.tasks.keys
  · have hcard : graph.waiting [] t
        = (graph.tasks.keys.filter fun d => t ∈ graph.neighbors d).length := by
      have hnodup : (graph.tasks.keys.filter fun d => t ∈ graph.neighbors d).Nodup :=
        graph.tasks.nodup.filter _
      rw [← List.toFinset_card_of_nodup hnodup, List.toFinset_filter, waiting]
      simp
    rw [Dict.getD, h.degree_eq ht, hcard]
    rfl
  · have hnone := (graph.inDegree.get?_eq_none_iff t).2 (h.degree_keys ▸ ht)
    have hzero : graph.waiting [] t = 0 :=
      h.waiting_eq_zero_iff.2 fun d hedge => absurd (h.edge t d hedge).1 ht
    rw [Dict.getD, hnone, hzero]
    rfl

/-! ### The loop -/

/-- The state at the head of the loop: the heap holds the ready tasks. -/
structure LoopInv (lower : String → String) (graph : TaskGraph) (state : Countdown String)
    (result : List String) : Prop where
  greedy : Greedy {id | id ∈ graph.tasks.keys} graph.DependsOn (graph.sortKey lower) result
  count_eq : ∀ t, state.count.getD t 0 = graph.waiting result t
  sorted : state.ready.Pairwise (graph.sortKey lower · ≤ graph.sortKey lower ·)
  nodup : state.ready.Nodup
  mem_ready : ∀ t, t ∈ state.ready ↔ Ready {id | id ∈ graph.tasks.keys} graph.DependsOn result t

theorem Consistent.ready_iff (h : graph.Consistent) {done : List String} {t : String} :
    Ready {id | id ∈ graph.tasks.keys} graph.DependsOn done t
      ↔ t ∈ graph.tasks.keys ∧ t ∉ done ∧ graph.waiting done t = 0 := by
  rw [Ready, h.waiting_eq_zero_iff]
  rfl

/-- Taking a task frees those that waited for it alone. -/
theorem Consistent.ready_concat (h : graph.Consistent) {done : List String} {node : String}
    (hgreedy : Greedy {id | id ∈ graph.tasks.keys} graph.DependsOn (graph.sortKey lower) done)
    (hnode : Ready {id | id ∈ graph.tasks.keys} graph.DependsOn done node) (t : String) :
    Ready {id | id ∈ graph.tasks.keys} graph.DependsOn (done ++ [node]) t
      ↔ (Ready {id | id ∈ graph.tasks.keys} graph.DependsOn done t ∧ t ≠ node)
        ∨ (t ∈ graph.neighbors node ∧ (graph.waiting done t : ℤ) = 1) := by
  have hwaiting := waiting_concat hnode.1 hnode.2.1 t
  rw [h.ready_iff, h.ready_iff, List.mem_append, List.mem_singleton, not_or]
  by_cases hedge : t ∈ graph.neighbors node
  · have ht := h.edge t node hedge
    have hnot : t ∉ done := fun hdone => hnode.2.1 (hgreedy.mem_of_dependsOn hdone hedge)
    have hpos : graph.waiting done t ≠ 0 := fun hzero =>
      hnode.2.1 (h.waiting_eq_zero_iff.1 hzero node hedge)
    rw [if_pos hedge] at hwaiting
    simp only [hedge, ht.1, ht.2.2, hnot, hpos, true_and, and_false, false_and, false_or,
      not_false_eq_true, ne_eq]
    omega
  · rw [if_neg hedge, sub_zero] at hwaiting
    have hsame : graph.waiting (done ++ [node]) t = graph.waiting done t := by
      exact_mod_cast hwaiting
    rw [hsame]
    simp only [hedge, false_and, or_false]
    tauto

theorem Consistent.loopInv_initial (h : graph.Consistent) :
    LoopInv lower graph (graph.initialCountdown lower) [] := by
  constructor
  · exact greedy_nil
  · exact h.degree_eq_waiting
  · exact sortedIds_pairwise _
  · exact (sortedIds_perm _).nodup_iff.2 (graph.tasks.nodup.filter _)
  · intro t
    rw [h.ready_iff, initialCountdown, (sortedIds_perm _).mem_iff, List.mem_filter,
      decide_eq_true_iff, h.degree_eq_waiting]
    simp

/-- **One round takes the next task of the greedy order.** -/
theorem LoopInv.step (h : graph.Consistent) {state : Countdown String} {result queue : List String}
    {node : String} (hinv : LoopInv lower graph state result) (hready : state.ready = node :: queue) :
    LoopInv lower graph
      ((graph.sortedIds lower (graph.neighbors node)).foldl
        (Countdown.release (graph.sortKey lower)) ⟨state.count, queue⟩) (result ++ [node]) := by
  have hnode := (hinv.mem_ready node).1 (hready ▸ List.mem_cons_self)
  have hsorted := hinv.sorted
  have hnodup := hinv.nodup
  rw [hready] at hsorted hnodup
  rw [List.pairwise_cons] at hsorted
  rw [List.nodup_cons] at hnodup
  have hqueue : ∀ t, t ∈ queue
      ↔ Ready {id | id ∈ graph.tasks.keys} graph.DependsOn result t ∧ t ≠ node := by
    intro t
    rw [← hinv.mem_ready, hready, List.mem_cons]
    exact ⟨fun ht => ⟨.inr ht, fun heq => hnodup.1 (heq ▸ ht)⟩, fun ⟨ht, hne⟩ => ht.resolve_left hne⟩
  have hnext :
      Next {id | id ∈ graph.tasks.keys} graph.DependsOn (graph.sortKey lower) result node := by
    refine ⟨hnode, fun t ht => ?_⟩
    rcases List.mem_cons.1 (hready ▸ (hinv.mem_ready t).2 ht) with rfl | hmem
    · exact le_refl _
    · exact hsorted.1 t hmem
  have hmem : ∀ t, t ∈ graph.sortedIds lower (graph.neighbors node) ↔ t ∈ graph.neighbors node :=
    fun t => (sortedIds_perm (graph.neighbors node)).mem_iff
  -- a task on the heap does not wait for the one that is taken
  have hfresh : ∀ t ∈ queue, t ∉ graph.sortedIds lower (graph.neighbors node) :=
    fun t ht hedge => hnode.2.1 (((hqueue t).1 ht).1.2.2 node ((hmem t).1 hedge))
  have hnodupNeighbors : (graph.sortedIds lower (graph.neighbors node)).Nodup :=
    (sortedIds_perm _).nodup_iff.2 (h.neighbors_nodup node)
  obtain ⟨hcount, hsorted', hnodup', hready'⟩ := Countdown.foldl_release hnodupNeighbors
    (c := ⟨state.count, queue⟩) hfresh hsorted.2 hnodup.2
  constructor
  · exact hinv.greedy.concat hnext
  · intro t
    rw [hcount, hinv.count_eq, waiting_concat hnode.1 hnode.2.1]
    simp only [hmem]
  · exact hsorted'
  · exact hnodup'
  · intro t
    rw [hready', hqueue, hmem, hinv.count_eq, h.ready_concat hinv.greedy hnode]

theorem Consistent.drain_spec (h : graph.Consistent) {fuel : ℕ} {state : Countdown String}
    {result : List String} (hinv : LoopInv lower graph state result)
    (hfuel : graph.tasks.keys.length < result.length + fuel) :
    ∃ order last, graph.drain lower fuel state result = .ok order
      ∧ LoopInv lower graph last order ∧ last.ready = [] := by
  induction fuel generalizing state result with
  | zero =>
      have hle := (hinv.greedy.nodup.subperm fun _ => hinv.greedy.mem_nodes).length_le
      omega
  | succ fuel ih =>
      rw [drain]
      split
      · rename_i hready
        exact ⟨result, state, rfl, hinv, hready⟩
      · rename_i node queue hready
        refine ih (hinv.step h hready) ?_
        rw [List.length_append, List.length_singleton]
        omega

/-! ### The sort -/

theorem Consistent.validateNoCycles_spec (h : graph.Consistent) :
    (graph.validateNoCycles lower = .ok true ∧ Acyclic graph.DependsOn)
      ∨ (graph.validateNoCycles lower = .ok false ∧ ∃ t, TransGen graph.DependsOn t t) := by
  have hedge : Search.Edge (fun id => graph.sortedIds lower (graph.neighbors id))
      = Function.swap graph.DependsOn := by
    funext a b
    exact propext (sortedIds_perm (graph.neighbors a)).mem_iff
  have hclosed : ∀ a b, Search.Edge (fun id => graph.sortedIds lower (graph.neighbors id)) a b →
      b ∈ graph.sortedIds lower graph.tasks.keys := by
    intro a b hab
    rw [hedge] at hab
    exact (sortedIds_perm _).mem_iff.2 (h.edge b a hab).1
  have hfuel : (graph.sortedIds lower graph.tasks.keys).toFinset.card ≤ graph.tasks.keys.length :=
    (List.toFinset_card_le _).trans (sortedIds_perm _).length_eq.le
  rw [validateNoCycles]
  rcases Search.findsCycle_spec hclosed hfuel with ⟨hok, hacyclic⟩ | ⟨hok, t, hcycle⟩
  · rw [hok]
    rw [hedge, acyclic_swap] at hacyclic
    exact .inl ⟨rfl, hacyclic⟩
  · rw [hok]
    rw [hedge, transGen_swap] at hcycle
    exact .inr ⟨rfl, t, hcycle⟩

/-- Where nothing waits for itself, the loop takes every task. -/
theorem LoopInv.perm (h : graph.Consistent) (hacyclic : Acyclic graph.DependsOn)
    {state : Countdown String} {order : List String} (hinv : LoopInv lower graph state order)
    (hready : state.ready = []) : order.Perm graph.tasks.keys := by
  have hnone : ∀ t, ¬ Ready {id | id ∈ graph.tasks.keys} graph.DependsOn order t := by
    intro t ht
    have hmem := (hinv.mem_ready t).2 ht
    rw [hready] at hmem
    cases hmem
  have hall := mem_of_not_ready hacyclic (List.finite_toSet _)
    (fun t _ d hedge => (h.edge t d hedge).2.1) hnone
  exact (List.perm_ext_iff_of_nodup hinv.greedy.nodup graph.tasks.nodup).2 fun t =>
    ⟨fun ht => hinv.greedy.mem_nodes ht, fun ht => hall t ht⟩

theorem Consistent.topologicalSort_spec (h : graph.Consistent) :
    (Acyclic graph.DependsOn ∧ ∃ order, graph.topologicalSort lower = .ok order
        ∧ graph.IsOrder lower order)
      ∨ (graph.topologicalSort lower = .error .containsCycles
        ∧ ∃ t, TransGen graph.DependsOn t t) := by
  rcases @Consistent.validateNoCycles_spec lower graph h with ⟨hok, hacyclic⟩ | ⟨hok, hcycle⟩
  · obtain ⟨order, last, hdrain, hinv, hready⟩ := h.drain_spec (@Consistent.loopInv_initial lower graph h)
      (show graph.tasks.keys.length < ([] : List String).length + (graph.tasks.keys.length + 1) by
        simp)
    have hperm := hinv.perm h hacyclic hready
    refine .inl ⟨hacyclic, order, ?_, hperm, hinv.greedy⟩
    rw [topologicalSort, hok]
    simp only [hdrain, hperm.length_eq, ne_eq, not_true_eq_false, if_false]
  · refine .inr ⟨?_, hcycle⟩
    rw [topologicalSort, hok]

theorem IsOrder.unique {order other : List String} (h : graph.IsOrder lower order)
    (h' : graph.IsOrder lower other) : other = order :=
  h'.2.unique sortKey_injective.injOn h.2 (h'.1.length_eq.trans h.1.length_eq.symm)

/-- The three records of the edges of a task: its counter is the number of tasks whose adjacency names
it, and its list holds exactly these tasks, without repetition and without itself. -/
def InStep (graph : TaskGraph) (t : String) : Prop :=
  graph.inDegree.get? t = some ((graph.tasks.keys.filter fun d => t ∈ graph.neighbors d).length : ℤ)
    ∧ ∃ task, graph.tasks.get? t = some task ∧ task.dependencies.Nodup ∧ t ∉ task.dependencies
      ∧ ∀ d, d ∈ task.dependencies ↔ d ∈ graph.tasks.keys ∧ t ∈ graph.neighbors d

theorem Consistent.inStep (h : graph.Consistent) {t : String} (ht : t ∈ graph.tasks.keys) :
    graph.InStep t := by
  obtain ⟨task, htask⟩ := Option.isSome_iff_exists.1 ((graph.tasks.get?_isSome_iff t).2 ht)
  obtain ⟨hnodup, hmem, _⟩ := h.dependencies t task htask
  refine ⟨h.degree_eq ht, task, htask, hnodup, fun hself => ?_, fun d => ?_⟩
  · exact (h.edge t t ((hmem t).1 hself)).2.2 rfl
  · rw [hmem]
    exact ⟨fun hedge => ⟨(h.edge t d hedge).2.1, hedge⟩, And.right⟩

/-- **After any calls the edges are recorded alike in all three places, a call that raises changes
nothing, and the sort raises exactly on a cycle.** Otherwise it returns the one order that takes, each
time, the ready task with the least key. -/
theorem run_inStep_sorted (lower : String → String) (calls : List Call) :
    (∀ call e, ((run calls).exec call).1 = .error e → ((run calls).exec call).2 = run calls)
      ∧ (∀ t ∈ (run calls).tasks.keys, (run calls).InStep t)
      ∧ ((∃ e, (run calls).topologicalSort lower = .error e)
        ↔ ∃ t, TransGen (run calls).DependsOn t t)
      ∧ (Acyclic (run calls).DependsOn → ∃ order, (run calls).topologicalSort lower = .ok order
        ∧ (run calls).IsOrder lower order
        ∧ ∀ other, (run calls).IsOrder lower other → other = order) := by
  have h := consistent_run calls
  refine ⟨fun call => (h.exec call).2, fun t => h.inStep, ?_⟩
  rcases @Consistent.topologicalSort_spec lower _ h with ⟨hacyclic, order, hok, horder⟩ | ⟨hok, hcycle⟩
  · refine ⟨⟨fun ⟨e, he⟩ => ?_, fun ⟨t, ht⟩ => absurd ht (hacyclic t)⟩, fun _ => ⟨order, hok, horder, ?_⟩⟩
    · rw [hok] at he
      cases he
    · exact fun other hother => horder.unique hother
  · refine ⟨iff_of_true ⟨_, hok⟩ hcycle, fun hacyclic => ?_⟩
    obtain ⟨t, ht⟩ := hcycle
    exact absurd ht (hacyclic t)

end TaskGraph

end PersonalDevin.Planning
