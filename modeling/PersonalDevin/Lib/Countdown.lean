import PersonalDevin.Lib.Dict
import Mathlib.Data.List.Sort
import Mathlib.Algebra.Order.Ring.Int
import Mathlib.Tactic.Ring

/-!
# Counting down

Counters lie in a dictionary, and whoever has its counter brought to zero joins a list kept in the order
of its keys. Nothing here is about a program: a scheduler lowers the counters of the tasks that waited
for the task it has taken.
-/

namespace Lib

variable {α κ : Type} [DecidableEq α] [LinearOrder κ]

/-- The counters, and those that are at zero. -/
structure Countdown (α : Type) where
  count : Dict α ℤ
  ready : List α

namespace Countdown

variable (key : α → κ)

/-- One counter is lowered. -/
def release (c : Countdown α) (a : α) : Countdown α :=
  let left := c.count.getD a 0 - 1
  { count := c.count.set a left
    ready := if left = 0 then c.ready.orderedInsert (key · ≤ key ·) a else c.ready }

variable {key}

theorem getD_set (d : Dict α ℤ) (a : α) (n : ℤ) (x : α) :
    (d.set a n).getD x 0 = if x = a then n else d.getD x 0 := by
  rw [Dict.getD, Dict.get?_set]
  split <;> rfl

theorem getD_release (c : Countdown α) (a x : α) :
    (release key c a).count.getD x 0 = c.count.getD x 0 - if x = a then 1 else 0 := by
  rw [release, getD_set]
  split
  · rename_i hx
    rw [hx]
  · rw [sub_zero]

theorem mem_release (c : Countdown α) (a x : α) :
    x ∈ (release key c a).ready ↔ x ∈ c.ready ∨ (x = a ∧ c.count.getD a 0 = 1) := by
  simp only [release, sub_eq_zero]
  split
  · rename_i hone
    rw [(List.perm_orderedInsert (key · ≤ key ·) a c.ready).mem_iff, List.mem_cons]
    simp [hone, or_comm]
  · rename_i hone
    simp [hone]

theorem pairwise_release {c : Countdown α} (h : c.ready.Pairwise (key · ≤ key ·)) (a : α) :
    (release key c a).ready.Pairwise (key · ≤ key ·) := by
  have : Std.Total fun a b => key a ≤ key b := ⟨fun a b => le_total (key a) (key b)⟩
  have : IsTrans α fun a b => key a ≤ key b := ⟨fun _ _ _ => le_trans⟩
  simp only [release]
  split
  · exact List.Pairwise.orderedInsert a c.ready h
  · exact h

theorem nodup_release {c : Countdown α} (h : c.ready.Nodup) {a : α} (hnew : a ∉ c.ready) :
    (release key c a).ready.Nodup := by
  simp only [release]
  split
  · rw [(List.perm_orderedInsert (key · ≤ key ·) a c.ready).nodup_iff, List.nodup_cons]
    exact ⟨hnew, h⟩
  · exact h

/-- **Lowering the counters of distinct elements**: those that were at one become ready, in order. -/
theorem foldl_release {l : List α} (hnodup : l.Nodup) {c : Countdown α}
    (hfresh : ∀ x ∈ c.ready, x ∉ l) (hsorted : c.ready.Pairwise (key · ≤ key ·))
    (hready : c.ready.Nodup) :
    (∀ x, (l.foldl (release key) c).count.getD x 0 = c.count.getD x 0 - if x ∈ l then 1 else 0)
      ∧ (l.foldl (release key) c).ready.Pairwise (key · ≤ key ·)
      ∧ (l.foldl (release key) c).ready.Nodup
      ∧ ∀ x, x ∈ (l.foldl (release key) c).ready
          ↔ x ∈ c.ready ∨ (x ∈ l ∧ c.count.getD x 0 = 1) := by
  induction l generalizing c with
  | nil => exact ⟨by simp, hsorted, hready, by simp⟩
  | cons a rest ih =>
      rw [List.nodup_cons] at hnodup
      have hnew : a ∉ c.ready := fun hmem => hfresh a hmem List.mem_cons_self
      have hfresh' : ∀ x ∈ (release key c a).ready, x ∉ rest := by
        intro x hx hrest
        rcases (mem_release c a x).1 hx with hold | ⟨rfl, _⟩
        · exact hfresh x hold (List.mem_cons_of_mem a hrest)
        · exact hnodup.1 hrest
      obtain ⟨ihcount, ihsorted, ihnodup, ihmem⟩ :=
        ih hnodup.2 hfresh' (pairwise_release hsorted a) (nodup_release hready hnew)
      refine ⟨fun x => ?_, ihsorted, ihnodup, fun x => ?_⟩
      · rw [List.foldl_cons, ihcount, getD_release]
        by_cases hx : x = a
        · simp [hx, hnodup.1]
        · simp [hx]
      · rw [List.foldl_cons, ihmem, mem_release, getD_release, List.mem_cons]
        by_cases hx : x = a
        · subst hx
          simp [hnodup.1]
        · simp [hx]

end Countdown

end Lib
