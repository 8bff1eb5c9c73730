import PersonalDevin.Lib.Actions
import Mathlib.Data.List.Nodup

/-!
# Numbering entries by the length of their list

Clients append entries to a shared list, each under the number it makes of the length of the list. The
length is read in one step and the entry appended in a later one, so two clients may take one number.
Nothing here is about a program.
-/

namespace Lib

/-- The numbers in the list, and the number each client has taken and not yet used. -/
structure Numbering (C ι : Type*) where
  log : List ι
  held : C → Option ι

inductive Draw (C : Type*) where
  | take (c : C)
  | append (c : C)
  | drop (c : C)
  | idle

namespace Numbering

variable {C ι : Type*}

def start : Numbering C ι where
  log := []
  held := fun _ => none

variable [DecidableEq C] (number : ℕ → ι)

def step (s : Numbering C ι) : Draw C → Numbering C ι
  | .take c => { s with held := Function.update s.held c (some (number s.log.length)) }
  | .append c =>
      match s.held c with
      | none => s
      | some n => { log := s.log ++ [n], held := Function.update s.held c none }
  | .drop c => { s with held := Function.update s.held c none }
  | .idle => s

/-- An append uses the number that its client would be given now. -/
def Fresh (s : Numbering C ι) : Draw C → Prop
  | .append c => ∀ n ∈ s.held c, n = number s.log.length
  | _ => True

/-- The list is numbered in order so far, and no number taken is ahead of it. -/
structure Good (s : Numbering C ι) : Prop where
  log_eq : s.log = (List.range s.log.length).map number
  held_le : ∀ c, ∀ n ∈ s.held c, ∃ k ≤ s.log.length, n = number k

variable {number}

theorem Good.step {s : Numbering C ι} (h : Good number s) {draw : Draw C}
    (hfresh : Fresh number s draw) : Good number (s.step number draw) := by
  cases draw with
  | take c =>
      refine ⟨h.log_eq, forall_held_update h.held_le ?_⟩
      rintro _ ⟨⟩
      exact ⟨_, Nat.le_refl _, rfl⟩
  | append c =>
      rcases hheld : s.held c with _ | n
      · simpa only [Numbering.step, hheld] using h
      · have hn := hfresh n hheld
        simp only [Numbering.step, hheld]
        refine ⟨?_, forall_held_update (fun c' m hmem => ?_) nofun⟩
        · rw [List.length_append, List.length_singleton, List.range_succ, List.map_append, ← h.log_eq, hn]
          rfl
        · obtain ⟨k, hk, hm⟩ := h.held_le c' m hmem
          exact ⟨k, by rw [List.length_append]; omega, hm⟩
  | drop c => exact ⟨h.log_eq, forall_held_update h.held_le nofun⟩
  | idle => exact h

/-- A stale append uses a number that the list has already. -/
theorem Good.break {s : Numbering C ι} (h : Good number s) {draw : Draw C}
    (hstale : ¬ Fresh number s draw) : ¬ (s.step number draw).log.Nodup := by
  cases draw with
  | append c =>
      rcases hheld : s.held c with _ | n
      · exact absurd (fun _ hmem => nomatch hheld ▸ hmem) hstale
      · obtain ⟨k, hk, hn⟩ := h.held_le c n hheld
        have hlt : k < s.log.length := by
          apply Nat.lt_of_le_of_ne hk
          intro heq
          apply hstale
          intro m hm
          obtain rfl : n = m := Option.some.inj (hheld.symm.trans hm)
          rw [hn, heq]
        have hmem : n ∈ s.log := by
          rw [h.log_eq, hn]
          exact List.mem_map_of_mem (List.mem_range.2 hlt)
        simp only [Numbering.step, hheld]
        exact fun hnodup => (List.nodup_append.1 hnodup).2.2 n hmem n (List.mem_singleton_self n) rfl
  | take c => exact absurd trivial hstale
  | drop c => exact absurd trivial hstale
  | idle => exact absurd trivial hstale

theorem not_nodup_step {s : Numbering C ι} (h : ¬ s.log.Nodup) (draw : Draw C) :
    ¬ (s.step number draw).log.Nodup := by
  cases draw with
  | append c =>
      rcases hheld : s.held c with _ | n
      · simpa only [Numbering.step, hheld] using h
      · simp only [Numbering.step, hheld]
        exact fun hnodup => h (List.nodup_append.1 hnodup).1
  | take c => exact h
  | drop c => exact h
  | idle => exact h

/-- **No number is used twice exactly if every append was fresh.** -/
theorem nodup_iff_fresh (hnumber : Function.Injective number) (draws : List (Draw C)) :
    (draws.foldl (step number) start).log.Nodup ↔ EachStep (step number) (Fresh number) start draws :=
  iff_eachStep (Good number) (fun s => ¬ s.log.Nodup) (fun s => s.log.Nodup)
    (fun _ _ hgood hfresh => hgood.step hfresh) (fun _ _ hgood hstale => hgood.break hstale)
    (fun _ draw hbad => not_nodup_step hbad draw)
    (fun _ hgood => hgood.log_eq ▸ List.Nodup.map hnumber List.nodup_range) (fun _ hbad => hbad)
    ⟨rfl, nofun⟩ draws

end Numbering

end Lib
