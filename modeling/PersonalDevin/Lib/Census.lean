import PersonalDevin.Lib.Ranking
import Mathlib.Data.Prod.Lex

/-!
# What a list holds, without its order

The distinct elements of a list in ascending order, and its elements with how often each occurs, the
most frequent first. Both depend only on what the list holds, and each is the one list with what is said
of it here. Nothing here is about a program.
-/

namespace Lib

variable {α κ : Type}

/-! ### Distinct elements -/

section Distinct

variable [LinearOrder α]

/-- `sorted(set(l))`. -/
def distinct (l : List α) : List α := l.dedup.insertionSort (· ≤ ·)

@[simp] theorem mem_distinct {l : List α} {a : α} : a ∈ distinct l ↔ a ∈ l := by
  rw [distinct, List.mem_insertionSort, List.mem_dedup]

theorem pairwise_distinct (l : List α) : (distinct l).Pairwise (· < ·) := by
  have hnodup : (distinct l).Nodup :=
    (List.perm_insertionSort (· ≤ ·) l.dedup).nodup_iff.2 l.nodup_dedup
  have hsorted : (distinct l).Pairwise (· ≤ ·) := List.pairwise_insertionSort _ _
  exact (hsorted.and hnodup).imp fun h => lt_of_le_of_ne h.1 h.2

theorem eq_of_ascending {l l' : List α} (h : l.Pairwise (· < ·)) (h' : l'.Pairwise (· < ·))
    (hmem : ∀ a, a ∈ l ↔ a ∈ l') : l = l' := by
  have hperm : l.Perm l' := (List.perm_ext_iff_of_nodup (h.imp fun hlt => hlt.ne)
    (h'.imp fun hlt => hlt.ne)).2 hmem
  exact hperm.eq_of_pairwise (fun a b _ _ hab hba => absurd hab hba.asymm) h h'

theorem distinct_of_ascending {l : List α} (h : l.Pairwise (· < ·)) : distinct l = l :=
  eq_of_ascending (pairwise_distinct l) h fun _ => mem_distinct

end Distinct

/-! ### Counts -/

section Census

variable [LinearOrder κ]

/-- The rank of an element with its count: frequent ones first, then the smaller ones. -/
def censusKey (entry : κ × ℕ) : ℤ ×ₗ κ := toLex (-(entry.2 : ℤ), entry.1)

omit [LinearOrder κ] in
theorem censusKey_injective : Function.Injective (censusKey (κ := κ)) := by
  rintro ⟨k, n⟩ ⟨k', n'⟩ h
  have hpair : (-(n : ℤ), k) = (-(n' : ℤ), k') := toLex_inj.1 h
  have hn : n = n' := by
    have := congrArg Prod.fst hpair
    omega
  have hk : k = k' := congrArg Prod.snd hpair
  rw [hn, hk]

/-- `sorted(Counter(l).items(), key=lambda item: (-item[1], item[0]))`. -/
def census (l : List κ) : List (κ × ℕ) :=
  (Dict.tally l).entries.insertionSort (censusKey · ≤ censusKey ·)

/-- A list of elements with their counts, each element once, in their ranks. -/
structure IsCensus (l : List κ) (entries : List (κ × ℕ)) : Prop where
  mem_iff : ∀ k n, (k, n) ∈ entries ↔ k ∈ l ∧ n = l.count k
  ordered : entries.Pairwise (censusKey · < censusKey ·)

theorem mem_tally_iff {l : List κ} {k : κ} {n : ℕ} :
    (k, n) ∈ (Dict.tally l).entries ↔ k ∈ l ∧ n = l.count k := by
  rw [Dict.mem_entries_iff, Dict.get?_tally]
  split
  · rename_i hmem
    simp [hmem, eq_comm]
  · rename_i hnot
    simp [hnot]

theorem isCensus_census (l : List κ) : IsCensus l (census l) where
  mem_iff k n := by rw [census, List.mem_insertionSort, mem_tally_iff]
  ordered := by
    have hnodup : (census l).Nodup := (List.perm_insertionSort _ _).nodup_iff.2
      (List.Nodup.of_map Prod.fst (Dict.tally l).nodup)
    have hsorted : (census l).Pairwise (censusKey · ≤ censusKey ·) := pairwise_insertionSort_key _ _
    exact (hsorted.and hnodup).imp fun h =>
      lt_of_le_of_ne h.1 fun heq => h.2 (censusKey_injective heq)

theorem IsCensus.unique {l : List κ} {entries entries' : List (κ × ℕ)} (h : IsCensus l entries)
    (h' : IsCensus l entries') : entries = entries' := by
  have hperm : entries.Perm entries' := by
    refine (List.perm_ext_iff_of_nodup (h.ordered.imp fun hlt heq => ?_)
      (h'.ordered.imp fun hlt heq => ?_)).2 fun entry => ?_
    · exact hlt.ne (congrArg censusKey heq)
    · exact hlt.ne (congrArg censusKey heq)
    · rw [h.mem_iff entry.1 entry.2, h'.mem_iff entry.1 entry.2]
  exact hperm.eq_of_pairwise (fun a b _ _ hab hba => absurd hab hba.asymm) h.ordered h'.ordered

theorem IsCensus.of_perm {l l' : List κ} {entries : List (κ × ℕ)} (hperm : l.Perm l')
    (h : IsCensus l entries) : IsCensus l' entries where
  mem_iff k n := by rw [h.mem_iff, hperm.mem_iff, hperm.count_eq]
  ordered := h.ordered

/-- The order of the list does not show in its census. -/
theorem census_of_perm {l l' : List κ} (hperm : l.Perm l') : census l = census l' :=
  (isCensus_census l).unique ((isCensus_census l').of_perm hperm.symm)

end Census

end Lib
