import PersonalDevin.Agent.Sessions
import Mathlib.Data.List.Perm.Basic

/-!
# What the statistics count

A successful attempt is booked under `advance_step` and a failed one under another decision, so the
entry of a strategy depends on nothing but how often it was booked. The order of the attempts does not
matter, though the confidence is cut off at both ends.
-/

namespace PersonalDevin.Agent

open Lib
open Memory (StoredPayload Streams Timestamp)

variable {F : Type} [ScoreArith F]

/-! ### Entries -/

omit [ScoreArith F] in
theorem Strategies.entry?_set_getD (strategies : Strategies F) (pattern pattern' : String)
    (decision' : Decision) :
    Strategies.entry? (strategies.set pattern (strategies.getD pattern .empty)) pattern' decision'
      = strategies.entry? pattern' decision' := by
  simp only [Strategies.entry?, Dict.getD, Dict.get?_set]
  by_cases hpattern : pattern' = pattern
  · simp [hpattern]
  · simp [hpattern]

/-- An entry that is there already stays. -/
def Strategies.putNew (strategies : Strategies F) (pattern : String) (decision : Decision)
    (stats : StrategyStats F) : Strategies F :=
  match strategies.entry? pattern decision with
  | some _ => strategies
  | none => strategies.put pattern decision stats

omit [ScoreArith F] in
theorem Strategies.entry?_putNew (strategies : Strategies F) (pattern : String) (decision : Decision)
    (stats : StrategyStats F) (pattern' : String) (decision' : Decision) :
    Strategies.entry? (strategies.putNew pattern decision stats) pattern' decision'
      = if pattern' = pattern ∧ decision' = decision
        then (strategies.entry? pattern decision).or (some stats)
        else strategies.entry? pattern' decision' := by
  rcases hentry : strategies.entry? pattern decision with _ | old
  · simp only [putNew, hentry]
    exact strategies.entry?_put pattern decision stats pattern' decision'
  · simp only [putNew, hentry]
    split
    · rename_i heq
      rw [heq.1, heq.2, hentry]
      rfl
    · rfl

omit [ScoreArith F] in
theorem entry?_foldl_putNew (pattern : String) (entries : List (Decision × StrategyStats F))
    (strategies : Strategies F) (pattern' : String) (decision' : Decision) :
    Strategies.entry? (entries.foldl
        (fun strategies (decision, stats) => Strategies.putNew strategies pattern decision stats)
        strategies) pattern' decision'
      = if pattern' = pattern then (strategies.entry? pattern decision').or (entries.lookup decision')
        else strategies.entry? pattern' decision' := by
  induction entries generalizing strategies with
  | nil =>
      split
      · rename_i hpattern
        rw [List.lookup_nil, Option.or_none, hpattern]
        rfl
      · rfl
  | cons entry rest ih =>
      obtain ⟨decision, stats⟩ := entry
      rw [List.foldl_cons, ih, Strategies.entry?_putNew, Strategies.entry?_putNew, lookup_cons_ite]
      by_cases hpattern : pattern' = pattern
      · by_cases hdecision : decision' = decision
        · simp only [hpattern, hdecision, and_self, if_true, Option.or_assoc]
          rfl
        · simp only [hpattern, hdecision, and_false, if_true, if_false]
      · simp only [hpattern, false_and, if_false]

omit [ScoreArith F] in
/-- **What a merge leaves of an entry.** -/
theorem Strategies.entry?_merge (strategies incoming : Strategies F) (pattern : String)
    (decision : Decision) :
    Strategies.entry? (strategies.merge incoming) pattern decision
      = (strategies.entry? pattern decision).or (incoming.entry? pattern decision) := by
  obtain ⟨entries, hnodup⟩ := incoming
  show Strategies.entry? (entries.foldl _ strategies) pattern decision
    = (strategies.entry? pattern decision).or (((entries.lookup pattern).getD .empty).get? decision)
  induction entries generalizing strategies with
  | nil => exact (Option.or_none).symm
  | cons entry rest ih =>
      obtain ⟨first, decisionMap⟩ := entry
      obtain ⟨hnot, hrest⟩ := List.nodup_cons.1 hnodup
      have hfirst := entry?_foldl_putNew first decisionMap.entries
        (strategies.set first (strategies.getD first .empty)) pattern decision
      rw [Strategies.entry?_set_getD, Strategies.entry?_set_getD] at hfirst
      rw [List.foldl_cons, ih _ hrest, lookup_cons_ite]
      refine (congrArg (Option.or · _) hfirst).trans ?_
      by_cases hpattern : pattern = first
      · have hnone : rest.lookup pattern = none := by
          rw [List.lookup_eq_none_iff]
          intro entry hmem
          refine bne_iff_ne.2 fun heq => hnot ?_
          show first ∈ rest.map Prod.fst
          rw [← hpattern, heq]
          exact List.mem_map_of_mem hmem
        rw [if_pos hpattern, if_pos hpattern, hnone, hpattern]
        exact Option.or_none
      · rw [if_neg hpattern, if_neg hpattern]

/-! ### Bookings -/

/-- The entry of a decision that was booked so often. -/
def booked (decision : Decision) : ℕ → Option (StrategyStats F)
  | 0 => none
  | n + 1 => some (((booked decision n).getD .initial).attempt decision (decision = .advanceStep))

theorem attempts_booked (decision : Decision) (n : ℕ) :
    ((booked decision n : Option (StrategyStats F)).getD .initial).attempts = n := by
  induction n with
  | zero => rfl
  | succ n ih => exact congrArg Nat.succ ih

theorem booked_injective (decision : Decision) :
    Function.Injective (booked decision : ℕ → Option (StrategyStats F)) := by
  intro n n' h
  rw [← attempts_booked (F := F) decision n, h, attempts_booked]

def LoopRecord.books (record : LoopRecord) (pattern : String) (decision : Decision) : Bool :=
  record.strategyPattern = pattern ∧ record.decision = decision

/-- Each entry is that of its number of records. -/
def Booked (strategies : Strategies F) (records : List LoopRecord) : Prop :=
  ∀ pattern decision, strategies.entry? pattern decision
    = booked decision (records.countP fun record => record.books pattern decision)

theorem booked_empty : Booked (.empty : Strategies F) [] := fun _ _ => rfl

/-- **One more record is one more booking.** -/
theorem Booked.learn {strategies : Strategies F} {records : List LoopRecord}
    (h : Booked strategies records) {record : LoopRecord}
    (hsuccess : record.success = decide (record.decision = .advanceStep)) :
    Booked (strategies.learn record) (records ++ [record]) := by
  intro pattern decision
  rw [Strategies.learn, Strategies.update, Strategies.entry?_put, List.countP_append,
    List.countP_singleton, Strategies.entry, h, hsuccess]
  by_cases hbooks : pattern = record.strategyPattern ∧ decision = record.decision
  · obtain ⟨rfl, rfl⟩ := hbooks
    rw [if_pos ⟨rfl, rfl⟩, LoopRecord.books, if_pos (by simp)]
    rfl
  · have hnot : record.books pattern decision = false := by
      rw [LoopRecord.books, decide_eq_false_iff_not]
      exact fun heq => hbooks ⟨heq.1.symm, heq.2.symm⟩
    rw [if_neg hbooks, hnot, h]
    rfl

theorem Booked.perm {strategies : Strategies F} {records records' : List LoopRecord}
    (h : Booked strategies records) (hperm : records.Perm records') : Booked strategies records' :=
  fun pattern decision => (h pattern decision).trans (congrArg _ (hperm.countP_eq _))

/-- The entries agree exactly if the numbers do. -/
theorem Booked.entry_eq_iff {strategies strategies' : Strategies F} {records records' : List LoopRecord}
    (h : Booked strategies records) (h' : Booked strategies' records') :
    (∀ pattern decision,
        strategies.entry? pattern decision = strategies'.entry? pattern decision)
      ↔ ∀ pattern decision, records.countP (fun record => record.books pattern decision)
        = records'.countP fun record => record.books pattern decision := by
  simp only [h _ _, h' _ _, (booked_injective _).eq_iff]

/-- Statistics of some of the records add nothing. -/
theorem Booked.merge {strategies strategies' : Strategies F} {records records' : List LoopRecord}
    (h : Booked strategies records) (h' : Booked strategies' records')
    (hsome : records'.Subperm records) : Booked (strategies.merge strategies') records := by
  intro pattern decision
  rw [Strategies.entry?_merge, h, h']
  have hle := hsome.countP_le fun record => record.books pattern decision
  rcases hcount : records.countP fun record => record.books pattern decision with _ | n
  · rw [hcount, Nat.le_zero] at hle
    rw [hcount, hle]
    rfl
  · rw [hcount]
    rfl

end PersonalDevin.Agent
