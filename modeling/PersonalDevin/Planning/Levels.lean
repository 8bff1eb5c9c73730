import PersonalDevin.Planning.Traversal

/-!
# The levels of a plan

What it means for an order and its groups to be the levels of a task list. A dependency is one level
below its dependents, so it stands before them. The groups are determined by the ids and the
dependency relation alone, so the order in which tasks or dependencies were listed leaves no trace.
-/

namespace PersonalDevin.Planning

open Lib

variable {tasks : List TaskNode} {ordered : List String} {groups : List (List String)}

theorem Leveled.mem_ordered_iff (h : Leveled tasks ordered groups) {x : String} :
    x ∈ ordered ↔ x ∈ tasks.map TaskNode.id := h.perm.mem_iff

/-- A task is in group `k` exactly when its longest chain of dependencies has length `k`. -/
theorem Leveled.mem_group_iff (h : Leveled tasks ordered groups) {x : String}
    (hx : x ∈ tasks.map TaskNode.id) {k : ℕ} :
    (∃ group, groups[k]? = some group ∧ x ∈ group)
      ↔ IsGreatest {n | Chain (DependsOn tasks) x n} k := by
  constructor
  · rintro ⟨group, hk, hmem⟩
    exact (((h.mem_group k group hk).2.2 x).1 hmem).2
  · intro hgreatest
    have hflat : x ∈ groups.flatten := h.flatten ▸ h.mem_ordered_iff.2 hx
    obtain ⟨group, hgroup, hmem⟩ := List.mem_flatten.1 hflat
    obtain ⟨j, hj⟩ := List.mem_iff_getElem?.1 hgroup
    have hjk : j = k := (((h.mem_group j group hj).2.2 x).1 hmem).2.unique hgreatest
    exact ⟨group, hjk ▸ hj, hmem⟩

theorem Leveled.pairwise_level (h : Leveled tasks ordered groups) :
    ordered.Pairwise fun x y => ∀ m n, IsGreatest {n | Chain (DependsOn tasks) x n} m →
      IsGreatest {n | Chain (DependsOn tasks) y n} n → m ≤ n := by
  have hlevel : ∀ {k group x m}, groups[k]? = some group → x ∈ group →
      IsGreatest {n | Chain (DependsOn tasks) x n} m → m = k := fun hk hx hm =>
    hm.unique (((h.mem_group _ _ hk).2.2 _).1 hx).2
  rw [← h.flatten, List.pairwise_flatten]
  refine ⟨fun group hgroup => ?_, ?_⟩
  · obtain ⟨k, hk⟩ := List.mem_iff_getElem?.1 hgroup
    apply List.pairwise_iff_forall_sublist.2
    intro x y hsub m n hm hn
    have hx : x ∈ group := hsub.subset (by simp)
    have hy : y ∈ group := hsub.subset (by simp)
    rw [hlevel hk hx hm, hlevel hk hy hn]
  · apply List.pairwise_iff_getElem.2
    intro i j hi hj hij x hx y hy m n hm hn
    rw [hlevel (List.getElem?_eq_getElem hi) hx hm, hlevel (List.getElem?_eq_getElem hj) hy hn]
    exact hij.le

/-- **Every dependency of a task stands strictly before it.** -/
theorem Leveled.dependency_before (hvalid : ValidTasks tasks) (h : Leveled tasks ordered groups)
    {before after : List String} {x d : String} (hsplit : ordered = before ++ x :: after)
    (hdep : DependsOn tasks x d) : d ∈ before := by
  have hlevel : ∀ {z}, z ∈ ordered → ∃ k, IsGreatest {n | Chain (DependsOn tasks) z n} k := by
    intro z hz
    obtain ⟨group, hgroup, hmem⟩ := List.mem_flatten.1 (h.flatten.symm ▸ hz)
    obtain ⟨k, hk⟩ := List.mem_iff_getElem?.1 hgroup
    exact ⟨k, (((h.mem_group k group hk).2.2 z).1 hmem).2⟩
  have hd : d ∈ ordered := h.mem_ordered_iff.2 (hvalid.dependsOn_closed hdep)
  obtain ⟨m, hm⟩ := hlevel hd
  obtain ⟨n, hn⟩ := hlevel (hsplit ▸ List.mem_append_right before List.mem_cons_self : x ∈ ordered)
  have hlt : m + 1 ≤ n := hn.2 (.cons hdep hm.1)
  rw [hsplit, List.mem_append, List.mem_cons] at hd
  rcases hd with hbefore | rfl | hafter
  · exact hbefore
  · have heq := hm.unique hn
    omega
  · have hpair := h.pairwise_level
    rw [hsplit, List.pairwise_append] at hpair
    have hle := List.rel_of_pairwise_cons hpair.2.1 hafter n m hn hm
    omega

/-! ### Uniqueness -/

variable {tasks' : List TaskNode} {ordered' : List String} {groups' : List (List String)}

theorem Leveled.group_eq (h : Leveled tasks ordered groups) (h' : Leveled tasks' ordered' groups')
    (hids : ∀ x, x ∈ tasks.map TaskNode.id ↔ x ∈ tasks'.map TaskNode.id)
    (hdeps : DependsOn tasks = DependsOn tasks') {k : ℕ} {group : List String}
    (hk : groups[k]? = some group) : groups'[k]? = some group := by
  obtain ⟨hne, hsorted, hmem⟩ := h.mem_group k group hk
  obtain ⟨x, hx⟩ := List.exists_mem_of_ne_nil group hne
  obtain ⟨hid, hgreatest⟩ := (hmem x).1 hx
  rw [hdeps] at hgreatest
  obtain ⟨group', hk', _⟩ := (h'.mem_group_iff ((hids x).1 hid)).2 hgreatest
  obtain ⟨_, hsorted', hmem'⟩ := h'.mem_group k group' hk'
  have hsame : group = group' := hsorted.eq_of_mem_iff hsorted' fun y => by
    rw [hmem, hmem', hids, hdeps]
  rw [hk', hsame]

/-- **The levels are determined by the ids and the dependency relation.** -/
theorem Leveled.unique (h : Leveled tasks ordered groups) (h' : Leveled tasks' ordered' groups')
    (hids : ∀ x, x ∈ tasks.map TaskNode.id ↔ x ∈ tasks'.map TaskNode.id)
    (hdeps : DependsOn tasks = DependsOn tasks') : ordered = ordered' ∧ groups = groups' := by
  have hgroups : groups = groups' := by
    apply List.ext_getElem?
    intro k
    rcases hk : groups[k]? with _ | group
    · rcases hk' : groups'[k]? with _ | group'
      · rfl
      · have hback := h'.group_eq h (fun x => (hids x).symm) hdeps.symm hk'
        rw [hk] at hback
        cases hback
    · rw [h.group_eq h' hids hdeps hk]
  exact ⟨by rw [← h.flatten, ← h'.flatten, hgroups], hgroups⟩

end PersonalDevin.Planning
