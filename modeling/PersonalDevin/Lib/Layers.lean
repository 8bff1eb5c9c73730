import Mathlib.Logic.Relation
import Mathlib.Order.WellFoundedSet
import Mathlib.Order.Bounds.Basic

/-!
# Layers of a dependency relation

A relation `r` on a type, read as "depends on". Releasing every node whose dependencies have been
released, round after round, sorts the nodes into layers. The layer of a node is the length of the
longest chain of dependencies that starts at it, and all nodes of a finite set are released exactly
when no chain returns to its start. Nothing here is about a program: a scheduler that works round by
round is compared with `released`, whatever data it keeps.
-/

namespace Lib

open Relation

variable {α : Type*}

/-- No chain of `r` returns to its start. -/
def Acyclic (r : α → α → Prop) : Prop := ∀ a, ¬ TransGen r a a

/-- A chain of `n` steps of `r` starts at the node. -/
inductive Chain (r : α → α → Prop) : α → ℕ → Prop
  | nil (a : α) : Chain r a 0
  | cons {a b : α} {n : ℕ} (step : r a b) (rest : Chain r b n) : Chain r a (n + 1)

/-- The path of a depth-first walk goes on to what the node it enters leads to. -/
theorem transGen_of_mem_insert [DecidableEq α] {r : α → α → Prop} {path : Finset α} {a : α}
    (h : ∀ b ∈ path, TransGen r b a) {c : α} (hac : r a c) : ∀ b ∈ insert a path, TransGen r b c := by
  intro b hb
  rcases Finset.mem_insert.1 hb with rfl | hold
  · exact .single hac
  · exact (h b hold).tail hac

theorem chain_succ_iff {r : α → α → Prop} {a : α} {n : ℕ} :
    Chain r a (n + 1) ↔ ∃ b, r a b ∧ Chain r b n := by
  constructor
  · rintro (_ | ⟨step, rest⟩)
    exact ⟨_, step, rest⟩
  · rintro ⟨b, step, rest⟩
    exact .cons step rest

theorem Chain.of_le {r : α → α → Prop} {a : α} {m n : ℕ} (h : Chain r a n) (hmn : m ≤ n) :
    Chain r a m := by
  induction h generalizing m with
  | nil a => exact Nat.le_zero.1 hmn ▸ .nil a
  | cons step rest ih =>
      cases m with
      | zero => exact .nil _
      | succ m => exact .cons step (ih (Nat.le_of_succ_le_succ hmn))

/-- An accessible node lies on no cycle. -/
theorem not_transGen_self_of_acc {r : α → α → Prop} {a : α} (h : Acc (fun x y => r y x) a) :
    ¬ TransGen r a a := by
  induction h with
  | intro a _ ih =>
      intro hcycle
      obtain ⟨b, hab, hba⟩ := TransGen.head'_iff.1 hcycle
      exact ih b hab (TransGen.tail' hba hab)

theorem acyclic_swap {r : α → α → Prop} : Acyclic (Function.swap r) ↔ Acyclic r :=
  forall_congr' fun _ => not_congr transGen_swap

theorem acyclic_of_rank {r : α → α → Prop} (rank : α → ℕ) (h : ∀ a b, r a b → rank b < rank a) :
    Acyclic r := by
  have hfall : ∀ a b, TransGen r a b → rank b < rank a := by
    intro a b hpath
    induction hpath with
    | single step => exact h a _ step
    | tail _ step ih => exact (h _ _ step).trans ih
  exact fun a hcycle => Nat.lt_irrefl _ (hfall a a hcycle)

section Release

variable (nodes : Set α) (r : α → α → Prop)

/-- The nodes released before round `k`: those whose dependencies were all released before the
round before. -/
def released : ℕ → Set α
  | 0 => ∅
  | k + 1 => {t | t ∈ nodes ∧ ∀ d, r t d → d ∈ released k}

/-- The nodes released in round `k`. -/
def layer (k : ℕ) : Set α := released nodes r (k + 1) \ released nodes r k

variable {nodes r}

theorem mem_released_succ {k : ℕ} {t : α} :
    t ∈ released nodes r (k + 1) ↔ t ∈ nodes ∧ ∀ d, r t d → d ∈ released nodes r k := Iff.rfl

theorem released_subset (k : ℕ) : released nodes r k ⊆ nodes := by
  cases k with
  | zero => exact Set.empty_subset _
  | succ k => exact fun _ h => h.1

theorem released_subset_succ (k : ℕ) : released nodes r k ⊆ released nodes r (k + 1) := by
  induction k with
  | zero => exact Set.empty_subset _
  | succ k ih => exact fun _ h => ⟨h.1, fun d hd => ih (h.2 d hd)⟩

/-- **A node is released before round `k` exactly when its chains are shorter than `k`.** -/
theorem mem_released_iff (hclosed : ∀ t ∈ nodes, ∀ d, r t d → d ∈ nodes) {k : ℕ} {t : α} :
    t ∈ released nodes r k ↔ t ∈ nodes ∧ ∀ n, Chain r t n → n < k := by
  induction k generalizing t with
  | zero => exact ⟨False.elim, fun h => absurd (h.2 0 (.nil t)) (Nat.lt_irrefl 0)⟩
  | succ k ih =>
      rw [mem_released_succ]
      refine and_congr_right fun ht => ⟨fun h n hchain => ?_, fun h d hd => ?_⟩
      · cases n with
        | zero => exact Nat.succ_pos k
        | succ n =>
            obtain ⟨d, hd, hrest⟩ := chain_succ_iff.1 hchain
            exact Nat.succ_lt_succ ((ih.1 (h d hd)).2 n hrest)
      · refine ih.2 ⟨hclosed t ht d hd, fun n hchain => ?_⟩
        exact Nat.lt_of_succ_lt_succ (h (n + 1) (.cons hd hchain))

/-- **The layer of a node is the length of its longest chain.** -/
theorem mem_layer_iff (hclosed : ∀ t ∈ nodes, ∀ d, r t d → d ∈ nodes) {k : ℕ} {t : α} :
    t ∈ layer nodes r k ↔ t ∈ nodes ∧ IsGreatest {n | Chain r t n} k := by
  rw [layer, Set.mem_sdiff, mem_released_iff hclosed, mem_released_iff hclosed]
  constructor
  · rintro ⟨⟨ht, hlt⟩, hnot⟩
    have hlong : ∃ n, Chain r t n ∧ k ≤ n := by
      by_contra hnone
      push Not at hnone
      exact hnot ⟨ht, hnone⟩
    obtain ⟨n, hchain, hkn⟩ := hlong
    exact ⟨ht, hchain.of_le hkn, fun n hn => Nat.le_of_lt_succ (hlt n hn)⟩
  · rintro ⟨ht, hchain, hmax⟩
    exact ⟨⟨ht, fun n hn => Nat.lt_succ_of_le (hmax hn)⟩,
      fun h => Nat.lt_irrefl k (h.2 k hchain)⟩

/-- A relation without cycles is well founded on a finite set of nodes. -/
theorem Acyclic.wellFoundedOn (hacyclic : Acyclic r) (hfinite : nodes.Finite) :
    nodes.WellFoundedOn fun a b => TransGen r b a := by
  have hirrefl : Std.Irrefl fun a b => TransGen r b a := ⟨hacyclic⟩
  have htrans : IsTrans α fun a b => TransGen r b a := ⟨fun _ _ _ hba hcb => hcb.trans hba⟩
  have : IsStrictOrder α fun a b => TransGen r b a := { }
  exact hfinite.wellFoundedOn

/-- **A round that releases nothing comes last**: without cycles, every node is out by then. -/
theorem subset_released_of_layer_eq_empty (hacyclic : Acyclic r) (hfinite : nodes.Finite)
    (hclosed : ∀ t ∈ nodes, ∀ d, r t d → d ∈ nodes) {k : ℕ} (hempty : layer nodes r k = ∅) :
    nodes ⊆ released nodes r k := by
  intro t ht
  apply (hacyclic.wellFoundedOn hfinite).induction ht
  intro t ht ih
  by_contra hnot
  have hnext : t ∈ released nodes r (k + 1) :=
    ⟨ht, fun d hd => ih d (hclosed t ht d hd) (.single hd)⟩
  have hlayer : t ∈ layer nodes r k := ⟨hnext, hnot⟩
  rw [hempty] at hlayer
  exact hlayer

end Release

end Lib
