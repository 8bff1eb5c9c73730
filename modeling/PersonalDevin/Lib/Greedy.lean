import PersonalDevin.Lib.Layers
import Mathlib.Data.List.Infix

/-!
# Greedy orders

Nodes are taken one after the other. A node is ready when it has not been taken and all it depends on
has been; of the ready nodes the one with the least key is taken. If keys tell the nodes apart, there is
one such order at most, and where nothing depends on itself, nothing is left when no node is ready.
Nothing here is about a program: a scheduler is compared with `Greedy`, whatever queue it keeps.
-/

namespace Lib

open Relation

variable {α κ : Type*} [LinearOrder κ]

def Ready (nodes : Set α) (r : α → α → Prop) (done : List α) (a : α) : Prop :=
  a ∈ nodes ∧ a ∉ done ∧ ∀ d, r a d → d ∈ done

/-- The node is ready, and no ready node has a smaller key. -/
def Next (nodes : Set α) (r : α → α → Prop) (key : α → κ) (done : List α) (a : α) : Prop :=
  Ready nodes r done a ∧ ∀ b, Ready nodes r done b → key a ≤ key b

/-- At each position stands the next node after those before it. -/
def Greedy (nodes : Set α) (r : α → α → Prop) (key : α → κ) (order : List α) : Prop :=
  ∀ before a after, order = before ++ a :: after → Next nodes r key before a

variable {nodes : Set α} {r : α → α → Prop} {key : α → κ}

theorem greedy_nil : Greedy nodes r key [] := by
  intro before a after h
  cases before <;> cases h

theorem Greedy.concat {order : List α} (h : Greedy nodes r key order) {a : α}
    (ha : Next nodes r key order a) : Greedy nodes r key (order ++ [a]) := by
  intro before b after heq
  rcases List.eq_nil_or_concat after with rfl | ⟨rest, last, rfl⟩
  · obtain ⟨rfl, hab⟩ := List.append_inj' heq rfl
    rw [List.cons.injEq] at hab
    exact hab.1 ▸ ha
  · have hsplit : order ++ [a] = (before ++ b :: rest) ++ [last] := by
      rw [heq, List.concat_eq_append, List.append_assoc, List.cons_append]
    exact h before b rest (List.append_inj' hsplit rfl).1

theorem Greedy.nodup {order : List α} (h : Greedy nodes r key order) : order.Nodup := by
  rw [List.nodup_iff_forall_not_duplicate]
  intro a hdup
  obtain ⟨before, after, rfl, hmem⟩ : ∃ before after, order = before ++ a :: after ∧ a ∈ before := by
    clear h
    induction hdup with
    | @cons_mem l hmem =>
        obtain ⟨between, after, rfl⟩ := List.mem_iff_append.1 hmem
        exact ⟨a :: between, after, rfl, List.mem_cons_self⟩
    | @cons_duplicate b l _ ih =>
        obtain ⟨before, after, rfl, hmem⟩ := ih
        exact ⟨b :: before, after, rfl, List.mem_cons_of_mem b hmem⟩
  exact (h before a after rfl).1.2.1 hmem

theorem Greedy.mem_nodes {order : List α} (h : Greedy nodes r key order) {a : α} (ha : a ∈ order) :
    a ∈ nodes := by
  obtain ⟨before, after, heq⟩ := List.mem_iff_append.1 ha
  exact (h before a after heq).1.1

theorem Greedy.mem_of_dependsOn {order : List α} (h : Greedy nodes r key order) {a d : α}
    (ha : a ∈ order) (hd : r a d) : d ∈ order := by
  obtain ⟨before, after, heq⟩ := List.mem_iff_append.1 ha
  rw [heq]
  exact List.mem_append_left _ ((h before a after heq).1.2.2 d hd)

/-- What can be listed with everything behind what it depends on has no cycle. -/
theorem acyclic_of_order {order : List α} (hnodup : order.Nodup) (hmem : ∀ a d, r a d → a ∈ order)
    (hdeps : ∀ before a after, order = before ++ a :: after → ∀ d, r a d → d ∈ before) :
    Acyclic r := by
  classical
  refine acyclic_of_rank (order.idxOf ·) fun a d hedge => ?_
  obtain ⟨before, after, hsplit⟩ := List.mem_iff_append.1 (hmem a d hedge)
  have hd := hdeps before a after hsplit d hedge
  rw [hsplit, List.nodup_append] at hnodup
  have hnot : a ∉ before := fun ha => hnodup.2.2 a ha a List.mem_cons_self rfl
  rw [hsplit, List.idxOf_append_of_mem hd, List.idxOf_append_of_notMem hnot, List.idxOf_cons_self]
  exact Nat.lt_of_lt_of_le (List.idxOf_lt_length_of_mem hd) (Nat.le_add_right _ _)

/-- An order with rising keys in which everything comes after what it depends on is greedy. -/
theorem greedy_of_pairwise {order : List α} (hnodes : ∀ a, a ∈ nodes ↔ a ∈ order)
    (hkey : order.Pairwise (key · < key ·))
    (hdeps : ∀ before a after, order = before ++ a :: after → ∀ d, r a d → d ∈ before) :
    Greedy nodes r key order := by
  intro before a after hsplit
  have hmem : a ∈ order := hsplit ▸ List.mem_append_right before List.mem_cons_self
  have hpairwise := hsplit ▸ hkey
  rw [List.pairwise_append, List.pairwise_cons] at hpairwise
  obtain ⟨-, ⟨hafter, -⟩, hbefore⟩ := hpairwise
  refine ⟨⟨(hnodes a).2 hmem, fun hmem => ?_, hdeps before a after hsplit⟩, fun b hb => ?_⟩
  · exact lt_irrefl _ (hbefore a hmem a List.mem_cons_self)
  · have hb' : b ∈ before ++ a :: after := hsplit ▸ (hnodes b).1 hb.1
    rcases List.mem_append.1 hb' with hearly | hlate
    · exact absurd hearly hb.2.1
    · rcases List.mem_cons.1 hlate with rfl | hlate
      · exact le_rfl
      · exact (hafter b hlate).le

/-- **Two greedy orders of one length are the same**, if the keys tell the nodes apart. -/
theorem Greedy.unique (hkey : Set.InjOn key nodes) {order order' : List α}
    (h : Greedy nodes r key order) (h' : Greedy nodes r key order')
    (hlength : order.length = order'.length) : order = order' := by
  have hprefix : ∀ n, order.take n = order'.take n := by
    intro n
    induction n with
    | zero => rfl
    | succ n ih =>
        by_cases hn : n < order.length
        · have hn' : n < order'.length := hlength ▸ hn
          have hnext := h (order.take n) order[n] (order.drop (n + 1))
            (by rw [← List.drop_eq_getElem_cons hn, List.take_append_drop])
          have hnext' := h' (order'.take n) order'[n] (order'.drop (n + 1))
            (by rw [← List.drop_eq_getElem_cons hn', List.take_append_drop])
          rw [← ih] at hnext'
          have hsame : order[n] = order'[n] := hkey hnext.1.1 hnext'.1.1
            (le_antisymm (hnext.2 _ hnext'.1) (hnext'.2 _ hnext.1))
          rw [List.take_succ_eq_append_getElem hn, List.take_succ_eq_append_getElem hn', ih, hsame]
        · have hle : order.length ≤ n := Nat.le_of_not_lt hn
          rw [List.take_of_length_le (by omega), List.take_of_length_le (by omega),
            ← List.take_of_length_le hle, ih, List.take_of_length_le (by omega)]
  have hall := hprefix order.length
  rwa [List.take_length, hlength, List.take_length] at hall

/-- **Where nothing depends on itself, all nodes are taken when none is ready.** -/
theorem mem_of_not_ready (hacyclic : Acyclic r) (hfinite : nodes.Finite)
    (hclosed : ∀ a ∈ nodes, ∀ d, r a d → d ∈ nodes) {done : List α}
    (hnone : ∀ a, ¬ Ready nodes r done a) : ∀ a ∈ nodes, a ∈ done := by
  intro a ha
  apply (hacyclic.wellFoundedOn hfinite).induction ha
  intro a ha ih
  by_contra hnot
  exact hnone a ⟨ha, hnot, fun d hd => ih d (hclosed a ha d hd) (.single hd)⟩

end Lib
