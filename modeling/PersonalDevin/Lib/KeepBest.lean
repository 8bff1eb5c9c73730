import PersonalDevin.Lib.Dict
import Mathlib.Data.List.Induction
import Mathlib.Data.List.Perm.Basic

/-!
# The best of each key in one pass

A pass over a list that keeps one eligible element of each key, replaces it by the next one that beats
it, and rejects all others. Nothing here is about a program.
-/

namespace Lib

variable {α κ : Type}

/-- What has been kept under the keys, and what has been rejected. -/
structure Selection (κ α : Type) where
  chosen : Dict κ α
  rejected : List α

section Pass

variable [DecidableEq κ] (key : α → κ) (eligible : α → Bool) (beats : α → α → Bool)

def Selection.consider (s : Selection κ α) (a : α) : Selection κ α :=
  if eligible a then
    match s.chosen.get? (key a) with
    | none => { s with chosen := s.chosen.set (key a) a }
    | some existing =>
        if beats a existing then
          { chosen := s.chosen.set (key a) a, rejected := s.rejected ++ [existing] }
        else { s with rejected := s.rejected ++ [a] }
  else { s with rejected := s.rejected ++ [a] }

def select (l : List α) : Selection κ α :=
  l.foldl (Selection.consider key eligible beats) ⟨Dict.empty, []⟩

end Pass

/-! ### The best -/

/-- How elements compare: one beats another, or is its equal. -/
structure Contest (beats equal : α → α → Bool) : Prop where
  irrefl : ∀ a, beats a a = false
  trans : ∀ a b c, beats a b = true → beats b c = true → beats a c = true
  congr : ∀ a b c, equal a b = true → beats b c = true → beats a c = true

variable {key : α → κ} {eligible : α → Bool} {beats equal : α → α → Bool} {l : List α} {k : κ}
  {a best : α}

variable (key eligible beats equal) in
/-- An eligible element of a key that no other one beats, and before which there is none of its
equals. -/
structure FirstBest (k : κ) (l : List α) (best : α) : Prop where
  key_eq : key best = k
  allowed : eligible best = true
  unbeaten : ∀ a ∈ l, key a = k → eligible a = true → beats a best = false
  first : ∃ before after, l = before ++ best :: after
    ∧ ∀ a ∈ before, key a = k → eligible a = true → equal a best = false

theorem FirstBest.mem (h : FirstBest key eligible beats equal k l best) : best ∈ l := by
  obtain ⟨before, after, rfl, -⟩ := h.first
  exact List.mem_append_right _ List.mem_cons_self

/-- An element that does not beat the best leaves it the best. -/
theorem FirstBest.concat (h : FirstBest key eligible beats equal k l best)
    (ha : key a = k → eligible a = true → beats a best = false) :
    FirstBest key eligible beats equal k (l ++ [a]) best where
  key_eq := h.key_eq
  allowed := h.allowed
  unbeaten b hb := by
    rcases List.mem_append.1 hb with hb | hb
    · exact h.unbeaten b hb
    · obtain rfl := List.mem_singleton.1 hb
      exact ha
  first := by
    obtain ⟨before, after, rfl, hfirst⟩ := h.first
    exact ⟨before, after ++ [a], List.append_assoc _ _ _, hfirst⟩

/-- An element that has neither a better nor an equal one before it is the best. -/
theorem firstBest_concat_self (hcontest : Contest beats equal) (hkey : key a = k)
    (ha : eligible a = true)
    (h : ∀ b ∈ l, key b = k → eligible b = true → beats b a = false ∧ equal b a = false) :
    FirstBest key eligible beats equal k (l ++ [a]) a where
  key_eq := hkey
  allowed := ha
  unbeaten b hb := by
    rcases List.mem_append.1 hb with hb | hb
    · exact fun hbkey heligible => (h b hb hbkey heligible).1
    · obtain rfl := List.mem_singleton.1 hb
      exact fun _ _ => hcontest.irrefl b
  first := ⟨l, [], rfl, fun b hb hbkey heligible => (h b hb hbkey heligible).2⟩

theorem FirstBest.replace (hcontest : Contest beats equal)
    (h : FirstBest key eligible beats equal k l best) (hkey : key a = k) (ha : eligible a = true)
    (hbeats : beats a best = true) : FirstBest key eligible beats equal k (l ++ [a]) a := by
  refine firstBest_concat_self hcontest hkey ha fun b hb hbkey heligible => ?_
  have hunbeaten := h.unbeaten b hb hbkey heligible
  constructor
  · by_contra hnot
    rw [hcontest.trans b a best (Bool.not_eq_false _ ▸ hnot) hbeats] at hunbeaten
    cases hunbeaten
  · by_contra hnot
    rw [hcontest.congr b a best (Bool.not_eq_false _ ▸ hnot) hbeats] at hunbeaten
    cases hunbeaten

/-! ### The pass -/

variable (key eligible beats equal) in
structure Selects [DecidableEq κ] (s : Selection κ α) (l : List α) : Prop where
  perm : (s.chosen.values ++ s.rejected).Perm l
  best : ∀ k a, s.chosen.get? k = some a → FirstBest key eligible beats equal k l a
  complete : ∀ a ∈ l, eligible a = true → (s.chosen.get? (key a)).isSome

theorem perm_exchange {values values' rejected : List α} {existing : α}
    (hset : (existing :: values').Perm (a :: values)) (h : (values ++ rejected).Perm l) :
    (values' ++ (rejected ++ [existing])).Perm (l ++ [a]) := by
  rw [← List.append_assoc]
  have hfirst : (values' ++ rejected ++ [existing]).Perm (existing :: values' ++ rejected) :=
    List.perm_append_singleton _ _
  have hlast : (a :: values ++ rejected).Perm (l ++ [a]) :=
    (h.cons a).trans (List.perm_append_singleton a l).symm
  exact hfirst.trans ((hset.append_right rejected).trans hlast)

section Step

variable [DecidableEq κ] {s : Selection κ α}

theorem Selects.reject (h : Selects key eligible beats equal s l)
    (ha : eligible a = true → ∃ best, s.chosen.get? (key a) = some best ∧ beats a best = false) :
    Selects key eligible beats equal { s with rejected := s.rejected ++ [a] } (l ++ [a]) where
  perm := by
    rw [← List.append_assoc]
    exact h.perm.append_right [a]
  best k best hbest := by
    refine (h.best k best hbest).concat fun hkey heligible => ?_
    obtain ⟨best', hbest', hbeats⟩ := ha heligible
    rw [hkey, hbest] at hbest'
    obtain rfl := Option.some.inj hbest'
    exact hbeats
  complete b hb heligible := by
    rcases List.mem_append.1 hb with hb | hb
    · exact h.complete b hb heligible
    · obtain rfl := List.mem_singleton.1 hb
      obtain ⟨best, hbest, -⟩ := ha heligible
      exact Option.isSome_iff_exists.2 ⟨best, hbest⟩

/-- An element that is kept is the best of its key, and leaves the other keys. -/
theorem Selects.choose {rejected : List α} (h : Selects key eligible beats equal s l)
    (hperm : ((s.chosen.set (key a) a).values ++ rejected).Perm (l ++ [a]))
    (hbest : FirstBest key eligible beats equal (key a) (l ++ [a]) a) :
    Selects key eligible beats equal ⟨s.chosen.set (key a) a, rejected⟩ (l ++ [a]) where
  perm := hperm
  best k best hget := by
    rw [Dict.get?_set] at hget
    split at hget
    · obtain rfl := Option.some.inj hget
      subst k
      exact hbest
    · rename_i hk
      exact (h.best k best hget).concat fun hkey _ => absurd hkey.symm hk
  complete b hb heligible := by
    rw [Dict.get?_set]
    split
    · rfl
    · rename_i hk
      rcases List.mem_append.1 hb with hb | hb
      · exact h.complete b hb heligible
      · exact absurd (congrArg key (List.mem_singleton.1 hb)) hk

/-- **What the pass does with one element.** -/
theorem Selects.consider (hcontest : Contest beats equal) (h : Selects key eligible beats equal s l)
    (a : α) : Selects key eligible beats equal (s.consider key eligible beats a) (l ++ [a]) := by
  unfold Selection.consider
  split
  · rename_i ha
    split
    · rename_i hnone
      refine h.choose ?_ (firstBest_concat_self hcontest rfl ha fun b hb hkey heligible => ?_)
      · rw [Dict.values_set_of_none hnone, List.append_assoc]
        refine (List.perm_append_comm.append_left _).trans ?_
        rw [← List.append_assoc]
        exact h.perm.append_right [a]
      · have hsome := h.complete b hb heligible
        rw [hkey, hnone] at hsome
        cases hsome
    · rename_i existing hexisting
      split
      · rename_i hbeats
        exact h.choose (perm_exchange (Dict.values_set_perm hexisting a) h.perm)
          ((h.best _ existing hexisting).replace hcontest rfl ha hbeats)
      · rename_i hbeats
        exact h.reject fun _ => ⟨existing, hexisting, Bool.eq_false_iff.2 hbeats⟩
  · rename_i ha
    exact h.reject fun htrue => absurd htrue ha

end Step

/-- **The pass keeps the first best element of each key**, and loses none. -/
theorem selects_select [DecidableEq κ] (hcontest : Contest beats equal) (l : List α) :
    Selects key eligible beats equal (select key eligible beats l) l := by
  induction l using List.reverseRecOn with
  | nil => exact ⟨.refl _, fun _ _ h => (nomatch h), fun _ h => absurd h List.not_mem_nil⟩
  | append_singleton rest a ih =>
      rw [select, List.foldl_append]
      exact ih.consider hcontest a

end Lib
