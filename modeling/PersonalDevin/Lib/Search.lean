import PersonalDevin.Lib.Layers
import Mathlib.Data.Finset.Card

/-!
# Depth-first search for a cycle

A search over successor lists that keeps the nodes it has entered and, among them, the stack of
those it has not left. It stops at the first successor that is still on the stack. Neither the order
of the successors of a node nor the order of the roots is fixed: the answer does not depend on them.
The recursion carries fuel, and the number of nodes is enough of it.
-/

namespace Lib

open Relation

variable {α : Type}

/-- The nodes entered so far, and those of them not yet left. -/
structure Search (α : Type) where
  visited : Finset α
  stack : Finset α

namespace Search

variable [DecidableEq α]

/-- The successors of a node in turn: the new ones are entered, one on the stack ends the search. -/
def visitAll (visit : α → Search α → Option (Bool × Search α)) :
    List α → Search α → Option (Bool × Search α)
  | [], search => some (false, search)
  | target :: rest, search =>
      if target ∉ search.visited then
        match visit target search with
        | some (false, search) => visitAll visit rest search
        | stop => stop
      else if target ∈ search.stack then some (true, search)
      else visitAll visit rest search

/-- Entering one node, to a recursion depth of `fuel`. -/
def visit (succ : α → List α) : ℕ → α → Search α → Option (Bool × Search α)
  | 0, _, _ => none
  | fuel + 1, a, search =>
      match visitAll (visit succ fuel) (succ a) ⟨insert a search.visited, insert a search.stack⟩ with
      | some (false, search) => some (false, { search with stack := search.stack.erase a })
      | stop => stop

/-- The roots in turn: those already visited are passed over. -/
def visitRoots (visit : α → Search α → Option (Bool × Search α)) :
    List α → Search α → Option Bool
  | [], _ => some false
  | root :: rest, search =>
      if root ∈ search.visited then visitRoots visit rest search
      else
        match visit root search with
        | some (false, search) => visitRoots visit rest search
        | some (true, _) => some true
        | none => none

def findsCycle (succ : α → List α) (fuel : ℕ) (roots : List α) : Option Bool :=
  visitRoots (visit succ fuel) roots ⟨∅, ∅⟩

/-! ### The invariant -/

variable (succ : α → List α)

/-- The relation the search walks along. -/
def Edge (a b : α) : Prop := b ∈ succ a

/-- Finished nodes are accessible, and the stack holds visited nodes. -/
structure Inv (search : Search α) : Prop where
  stack_subset : search.stack ⊆ search.visited
  finished : ∀ a ∈ search.visited, a ∉ search.stack → Acc (fun x y => Edge succ y x) a

/-- What exploring some targets comes to: a cycle was met, or the targets are finished and the
stack is as it was. -/
def Explored (search : Search α) (targets : List α) (result : Option (Bool × Search α)) : Prop :=
  (∃ next, result = some (false, next) ∧ Inv succ next ∧ next.stack = search.stack
      ∧ search.visited ⊆ next.visited
      ∧ ∀ a ∈ targets, a ∈ next.visited ∧ a ∉ search.stack)
    ∨ ((∃ next, result = some (true, next)) ∧ ∃ a, TransGen (Edge succ) a a)

variable {succ}

omit [DecidableEq α] in
theorem inv_empty : Inv succ (⟨∅, ∅⟩ : Search α) :=
  ⟨Finset.Subset.rfl, fun _ ha => by cases ha⟩

omit [DecidableEq α] in
theorem explored_nil {search : Search α} (h : Inv succ search) :
    Explored succ search [] (some (false, search)) :=
  .inl ⟨search, rfl, h, rfl, Finset.Subset.refl _, fun _ hmem => absurd hmem List.not_mem_nil⟩

/-- Entering a node is correct from any state in which the node is unvisited and the stack leads
to it. -/
def VisitCorrect (succ : α → List α) (nodes : Finset α) (fuel : ℕ) : Prop :=
  ∀ a search, Inv succ search → a ∈ nodes → a ∉ search.visited →
    (∀ b ∈ search.stack, TransGen (Edge succ) b a) → (nodes \ search.visited).card ≤ fuel →
    Explored succ search [a] (visit succ fuel a search)

theorem visitAll_explored {nodes : Finset α} {fuel : ℕ} (hvisit : VisitCorrect succ nodes fuel)
    {targets : List α} {search : Search α} (hinv : Inv succ search)
    (hnodes : ∀ a ∈ targets, a ∈ nodes)
    (hstack : ∀ b ∈ search.stack, ∀ a ∈ targets, TransGen (Edge succ) b a)
    (hfuel : (nodes \ search.visited).card ≤ fuel) :
    Explored succ search targets (visitAll (visit succ fuel) targets search) := by
  induction targets generalizing search with
  | nil => exact explored_nil hinv
  | cons a rest ih =>
      have hrest : ∀ other ∈ rest, other ∈ a :: rest := fun _ => List.mem_cons_of_mem a
      rw [visitAll]
      split
      · rename_i hnew
        rcases hvisit a search hinv (hnodes a List.mem_cons_self) hnew
          (fun b hb => hstack b hb a List.mem_cons_self) hfuel with
          ⟨next, hok, hinv', hstack', hsub, htarget⟩ | ⟨⟨next, hok⟩, hcycle⟩
        · -- the node finished: the remaining targets start from a larger visited set
          rw [hok]
          have hfuel' : (nodes \ next.visited).card ≤ fuel :=
            (Finset.card_le_card (Finset.sdiff_subset_sdiff Finset.Subset.rfl hsub)).trans hfuel
          rcases ih hinv' (fun other hmem => hnodes other (hrest other hmem))
            (fun b hb other hmem => hstack b (hstack' ▸ hb) other (hrest other hmem)) hfuel' with
            ⟨last, hlast, hinv'', hstack'', hsub', htargets⟩ | hcycle
          · refine .inl ⟨last, hlast, hinv'', hstack''.trans hstack', hsub.trans hsub', ?_⟩
            rw [List.forall_mem_cons]
            refine ⟨⟨hsub' (htarget a List.mem_cons_self).1, (htarget a List.mem_cons_self).2⟩, ?_⟩
            exact fun other hmem => hstack' ▸ htargets other hmem
          · exact .inr hcycle
        · rw [hok]
          exact .inr ⟨⟨next, rfl⟩, hcycle⟩
      · rename_i hvisited
        rw [not_not] at hvisited
        split
        · rename_i hon
          exact .inr ⟨⟨search, rfl⟩, a, hstack a hon a List.mem_cons_self⟩
        · rename_i hoff
          rcases ih hinv (fun other hmem => hnodes other (hrest other hmem))
            (fun b hb other hmem => hstack b hb other (hrest other hmem)) hfuel with
            ⟨last, hlast, hinv', hstack', hsub, htargets⟩ | hcycle
          · refine .inl ⟨last, hlast, hinv', hstack', hsub, ?_⟩
            rw [List.forall_mem_cons]
            exact ⟨⟨hsub hvisited, hoff⟩, htargets⟩
          · exact .inr hcycle

theorem Inv.enter {search : Search α} (h : Inv succ search) (a : α) :
    Inv succ ⟨insert a search.visited, insert a search.stack⟩ := by
  refine ⟨Finset.insert_subset_insert a h.stack_subset, fun x hx hoff => ?_⟩
  rw [Finset.mem_insert, not_or] at hoff
  exact h.finished x ((Finset.mem_insert.1 hx).resolve_left hoff.1) hoff.2

/-- A node whose successors are finished is finished when it is left. -/
theorem Inv.leave {search : Search α} (h : Inv succ search) {a : α}
    (hfinished : ∀ b ∈ succ a, b ∈ search.visited ∧ b ∉ search.stack) :
    Inv succ { search with stack := search.stack.erase a } := by
  have hacc : Acc (fun x y => Edge succ y x) a := by
    apply Acc.intro a
    intro b hb
    exact h.finished b (hfinished b hb).1 (hfinished b hb).2
  refine ⟨(Finset.erase_subset a search.stack).trans h.stack_subset, fun x hx hoff => ?_⟩
  by_cases hxa : x = a
  · exact hxa ▸ hacc
  · exact h.finished x hx fun hon => hoff (Finset.mem_erase.2 ⟨hxa, hon⟩)

theorem visit_correct {nodes : Finset α} (hclosed : ∀ a b, Edge succ a b → b ∈ nodes) (fuel : ℕ) :
    VisitCorrect succ nodes fuel := by
  induction fuel with
  | zero =>
      intro a search _ ha hnew _ hfuel
      have hmem : a ∈ nodes \ search.visited := Finset.mem_sdiff.2 ⟨ha, hnew⟩
      rw [Finset.card_eq_zero.1 (Nat.le_zero.1 hfuel)] at hmem
      cases hmem
  | succ fuel ih =>
      intro a search hinv ha hnew hstack hfuel
      have hoff : a ∉ search.stack := fun hon => hnew (hinv.stack_subset hon)
      have hfuel' : (nodes \ insert a search.visited).card ≤ fuel := by
        have hlt : (nodes \ insert a search.visited).card < (nodes \ search.visited).card := by
          rw [Finset.sdiff_insert]
          exact Finset.card_erase_lt_of_mem (Finset.mem_sdiff.2 ⟨ha, hnew⟩)
        omega
      rw [visit]
      rcases visitAll_explored ih (hinv.enter a) (fun c hc => hclosed a c hc)
        (fun b hb c hedge => transGen_of_mem_insert hstack (show Edge succ a c from hedge) b hb)
        hfuel' with ⟨next, hok, hinv', hsame, hsub, htargets⟩ | ⟨⟨next, hok⟩, hcycle⟩
      · rw [hok]
        have hpopped : next.stack.erase a = search.stack := by
          rw [hsame]
          exact Finset.erase_insert hoff
        have hleave : Inv succ { next with stack := next.stack.erase a } :=
          hinv'.leave fun b hb => ⟨(htargets b hb).1, hsame ▸ (htargets b hb).2⟩
        refine .inl ⟨{ next with stack := next.stack.erase a }, rfl, hleave, hpopped,
          (Finset.subset_insert a search.visited).trans hsub, fun x hx => ?_⟩
        obtain rfl := List.mem_singleton.1 hx
        exact ⟨hsub (Finset.mem_insert_self x search.visited), hoff⟩
      · rw [hok]
        exact .inr ⟨⟨next, rfl⟩, hcycle⟩

theorem visitRoots_correct {nodes : Finset α} {fuel : ℕ} (hvisit : VisitCorrect succ nodes fuel)
    (hfuel : nodes.card ≤ fuel) {roots : List α} {search : Search α} (hinv : Inv succ search)
    (hempty : search.stack = ∅) (hnodes : ∀ root ∈ roots, root ∈ nodes) :
    (visitRoots (visit succ fuel) roots search = some false
        ∧ ∀ root ∈ roots, Acc (fun x y => Edge succ y x) root)
      ∨ (visitRoots (visit succ fuel) roots search = some true
        ∧ ∃ a, TransGen (Edge succ) a a) := by
  induction roots generalizing search with
  | nil => exact .inl ⟨rfl, fun _ hmem => absurd hmem List.not_mem_nil⟩
  | cons root rest ih =>
      rw [List.forall_mem_cons] at hnodes
      simp only [List.forall_mem_cons]
      have hoff : ∀ s : Search α, s.stack = ∅ → root ∉ s.stack := fun s hs => by simp [hs]
      rw [visitRoots]
      split
      · rename_i hvisited
        have hacc := hinv.finished root hvisited (hoff search hempty)
        exact (ih hinv hempty hnodes.2).imp (fun h => ⟨h.1, hacc, h.2⟩) fun h => h
      · rename_i hnew
        have hcard : (nodes \ search.visited).card ≤ fuel :=
          (Finset.card_le_card Finset.sdiff_subset).trans hfuel
        rcases hvisit root search hinv hnodes.1 hnew (by simp [hempty]) hcard with
          ⟨next, hok, hinv', hsame, _, htarget⟩ | ⟨⟨next, hok⟩, hcycle⟩
        · rw [hok]
          have hempty' : next.stack = ∅ := hsame.trans hempty
          have hacc := hinv'.finished root (htarget root List.mem_cons_self).1 (hoff next hempty')
          exact (ih hinv' hempty' hnodes.2).imp (fun h => ⟨h.1, hacc, h.2⟩) fun h => h
        · rw [hok]
          exact .inr ⟨rfl, hcycle⟩

/-- **From roots that cover the successors, the search ends and answers whether there is a cycle**,
in whatever order roots and successors are listed. -/
theorem findsCycle_spec {fuel : ℕ} {roots : List α}
    (hclosed : ∀ a b, Edge succ a b → b ∈ roots) (hfuel : roots.toFinset.card ≤ fuel) :
    (findsCycle succ fuel roots = some false ∧ Acyclic (Edge succ))
      ∨ (findsCycle succ fuel roots = some true ∧ ∃ a, TransGen (Edge succ) a a) := by
  have hvisit : VisitCorrect succ roots.toFinset fuel :=
    visit_correct (fun a b hedge => List.mem_toFinset.2 (hclosed a b hedge)) fuel
  rcases visitRoots_correct hvisit hfuel inv_empty rfl
    (fun root hroot => List.mem_toFinset.2 hroot) with ⟨hok, hacc⟩ | ⟨hok, hcycle⟩
  · refine .inl ⟨hok, fun a hcycle => ?_⟩
    obtain ⟨c, _, hedge⟩ := TransGen.tail'_iff.1 hcycle
    exact not_transGen_self_of_acc (hacc a (hclosed c a hedge)) hcycle
  · exact .inr ⟨hok, hcycle⟩

end Search

end Lib
