import PersonalDevin.Lib.Actions
import Mathlib.Data.List.Infix

/-!
# A list that clients read and write back

Clients add entries to a shared list: a client reads the whole list, and later replaces it by what it
has read with its entry at the end. Nothing stops another client in between. An addition that replaces
a list it has not read loses what was added since, and the list never gets back to the length it
should have. Nothing here is about a program.
-/

namespace Lib

/-- The list, what each client has read and not yet written back, and the entries that were added. -/
structure SharedList (C α : Type*) where
  content : List α
  held : C → Option (List α)
  added : List α

inductive Access (C α : Type*) where
  | read (c : C)
  | write (c : C) (entry : α)
  | drop (c : C)
  | idle

namespace SharedList

variable {C α : Type*}

def start (initial : List α) : SharedList C α where
  content := initial
  held := fun _ => none
  added := []

variable [DecidableEq C]

def step (s : SharedList C α) : Access C α → SharedList C α
  | .read c => { s with held := Function.update s.held c (some s.content) }
  | .write c entry =>
      match s.held c with
      | none => s
      | some old =>
          { content := old ++ [entry]
            held := Function.update s.held c none
            added := s.added ++ [entry] }
  | .drop c => { s with held := Function.update s.held c none }
  | .idle => s

/-- A write replaces the list that its client has read. -/
def Fresh (s : SharedList C α) : Access C α → Prop
  | .write c _ => ∀ old ∈ s.held c, old = s.content
  | _ => True

/-- Nothing was lost so far. -/
structure Good (initial : List α) (s : SharedList C α) : Prop where
  content_eq : s.content = initial ++ s.added
  held_prefix : ∀ c, ∀ old ∈ s.held c, old <+: s.content

/-- Something was lost: neither the list nor what any client has read of it is long enough. -/
structure Bad (initial : List α) (s : SharedList C α) : Prop where
  content_lt : s.content.length < initial.length + s.added.length
  held_lt : ∀ c, ∀ old ∈ s.held c, old.length < initial.length + s.added.length

variable {initial : List α}

theorem Good.step {s : SharedList C α} (h : Good initial s) {access : Access C α}
    (hfresh : Fresh s access) : Good initial (s.step access) := by
  cases access with
  | read c =>
      refine ⟨h.content_eq, forall_held_update h.held_prefix ?_⟩
      rintro _ ⟨⟩
      exact List.prefix_refl _
  | write c entry =>
      rcases hheld : s.held c with _ | old
      · simpa only [SharedList.step, hheld] using h
      · obtain rfl := hfresh old hheld
        simp only [SharedList.step, hheld]
        refine ⟨?_, forall_held_update (fun c' other hmem => ?_) nofun⟩
        · rw [h.content_eq, List.append_assoc]
        · exact (h.held_prefix c' other hmem).trans (List.prefix_append _ _)
  | drop c => exact ⟨h.content_eq, forall_held_update h.held_prefix nofun⟩
  | idle => exact h

theorem Good.break {s : SharedList C α} (h : Good initial s) {access : Access C α}
    (hstale : ¬ Fresh s access) : Bad initial (s.step access) := by
  cases access with
  | write c entry =>
      rcases hheld : s.held c with _ | old
      · exact absurd (fun _ hmem => nomatch hheld ▸ hmem) hstale
      · have hprefix := h.held_prefix c old hheld
        have hlength : s.content.length = initial.length + s.added.length := by
          rw [h.content_eq, List.length_append]
        have hshort : old.length < s.content.length := by
          apply lt_of_le_of_ne hprefix.length_le
          intro heq
          apply hstale
          intro other hother
          obtain rfl : old = other := Option.some.inj (hheld.symm.trans hother)
          exact hprefix.eq_of_length heq
        simp only [SharedList.step, hheld]
        refine ⟨?_, forall_held_update (fun c' other hmem => ?_) nofun⟩
        · simp only [List.length_append, List.length_singleton]
          omega
        · have hother := (h.held_prefix c' other hmem).length_le
          simp only [List.length_append, List.length_singleton]
          omega
  | read c => exact absurd trivial hstale
  | drop c => exact absurd trivial hstale
  | idle => exact absurd trivial hstale

theorem Bad.step {s : SharedList C α} (h : Bad initial s) (access : Access C α) :
    Bad initial (s.step access) := by
  cases access with
  | read c =>
      refine ⟨h.content_lt, forall_held_update h.held_lt ?_⟩
      rintro _ ⟨⟩
      exact h.content_lt
  | write c entry =>
      rcases hheld : s.held c with _ | old
      · simpa only [SharedList.step, hheld] using h
      · have hold := h.held_lt c old hheld
        simp only [SharedList.step, hheld]
        refine ⟨?_, forall_held_update (fun c' other hmem => ?_) nofun⟩
        · simp only [List.length_append, List.length_singleton]
          omega
        · have hother := h.held_lt c' other hmem
          simp only [List.length_append, List.length_singleton]
          omega
  | drop c => exact ⟨h.content_lt, forall_held_update h.held_lt nofun⟩
  | idle => exact h

/-- **The list ends with what was added exactly if every write was fresh.** -/
theorem perm_iff_fresh (initial : List α) (accesses : List (Access C α)) :
    (accesses.foldl step (start initial)).content.Perm
        (initial ++ (accesses.foldl step (start initial)).added)
      ↔ EachStep step Fresh (start initial) accesses :=
  iff_eachStep (Good initial) (Bad initial) (fun s => s.content.Perm (initial ++ s.added))
    (fun _ _ hgood hfresh => hgood.step hfresh) (fun _ _ hgood hstale => hgood.break hstale)
    (fun _ access hbad => hbad.step access) (fun _ hgood => hgood.content_eq ▸ List.Perm.refl _)
    (fun s hbad hperm => by
      have hlength := hperm.length_eq
      rw [List.length_append] at hlength
      exact absurd hlength hbad.content_lt.ne)
    ⟨(List.append_nil _).symm, nofun⟩ accesses

end SharedList

end Lib
