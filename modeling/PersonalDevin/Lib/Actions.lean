import Mathlib.Data.List.Basic
import Mathlib.Logic.Function.Basic

/-!
# Runs of a system that takes actions

A system is a step function on states, and a run a list of actions, so a statement about every list is
one about every order of the actions. A condition on every step is read off the states before the
steps. The rule at the end is for properties that hold up to the first step that breaks the condition
and never again. Nothing here is about a program.
-/

namespace Lib

variable {S A S' A' : Type*}

/-- Every step of a run meets a condition on the state before it. -/
def EachStep (step : S → A → S) (P : S → A → Prop) : S → List A → Prop
  | _, [] => True
  | s, a :: rest => P s a ∧ EachStep step P (step s a) rest

variable {step : S → A → S} {P : S → A → Prop}

theorem foldl_invariant {Inv : S → Prop} (hstep : ∀ s a, Inv s → Inv (step s a)) {s : S}
    (h : Inv s) (actions : List A) : Inv (actions.foldl step s) := by
  induction actions generalizing s with
  | nil => exact h
  | cons a rest ih => exact ih (hstep s a h)

theorem eachStep_congr {P' : S → A → Prop} (hP : ∀ s a, P s a ↔ P' s a) (s : S) (actions : List A) :
    EachStep step P s actions ↔ EachStep step P' s actions := by
  induction actions generalizing s with
  | nil => exact Iff.rfl
  | cons a rest ih => exact and_congr (hP s a) (ih _)

theorem eachStep_forall {ι : Type*} {P : ι → S → A → Prop} {s : S} {actions : List A} :
    EachStep step (fun s a => ∀ i, P i s a) s actions ↔ ∀ i, EachStep step (P i) s actions := by
  induction actions generalizing s with
  | nil => exact iff_of_true trivial fun _ => trivial
  | cons a rest ih =>
      rw [EachStep, ih]
      exact forall_and.symm

theorem eachStep_of_invariant (Inv : S → Prop) (hstep : ∀ s a, Inv s → Inv (step s a))
    (hP : ∀ s a, Inv s → P s a) {s : S} (h : Inv s) (actions : List A) : EachStep step P s actions := by
  induction actions generalizing s with
  | nil => trivial
  | cons a rest ih => exact ⟨hP s a h, ih (hstep s a h)⟩

theorem eachStep_forall_mem (step : S → A → S) (s : S) {P : A → Prop} {actions : List A} :
    EachStep step (fun _ a => P a) s actions ↔ ∀ a ∈ actions, P a := by
  induction actions generalizing s with
  | nil => exact iff_of_true trivial fun _ hmem => absurd hmem List.not_mem_nil
  | cons a rest ih => rw [EachStep, ih, List.forall_mem_cons]

/-- **The rule of no return.** As long as every step meets the condition the state stays good, the
first step that does not makes it bad, and then it stays bad. -/
theorem iff_eachStep (Good Bad Q : S → Prop) (hgood : ∀ s a, Good s → P s a → Good (step s a))
    (hbreak : ∀ s a, Good s → ¬ P s a → Bad (step s a)) (hbad : ∀ s a, Bad s → Bad (step s a))
    (hkept : ∀ s, Good s → Q s) (hlost : ∀ s, Bad s → ¬ Q s) {s : S} (h : Good s)
    (actions : List A) : Q (actions.foldl step s) ↔ EachStep step P s actions := by
  induction actions generalizing s with
  | nil => exact iff_of_true (hkept s h) trivial
  | cons a rest ih =>
      by_cases hstep : P s a
      · exact (ih (hgood s a h hstep)).trans (and_iff_right hstep).symm
      · exact iff_of_false (hlost _ (foldl_invariant hbad (hbreak s a h hstep) rest))
          fun heach => hstep heach.1

/-! ### Projections

A projection takes each step of the system to a step of a simpler one. The action it takes there may
depend on the state. -/

def projectActions (step : S → A → S) (label : S → A → A') : S → List A → List A'
  | _, [] => []
  | s, a :: rest => label s a :: projectActions step label (step s a) rest

variable {step' : S' → A' → S'} {project : S → S'} {label : S → A → A'}

theorem project_foldl (hproject : ∀ s a, project (step s a) = step' (project s) (label s a)) (s : S)
    (actions : List A) :
    project (actions.foldl step s) = (projectActions step label s actions).foldl step' (project s) := by
  induction actions generalizing s with
  | nil => rfl
  | cons a rest ih =>
      rw [List.foldl_cons, ih, hproject]
      rfl

theorem eachStep_project {P' : S' → A' → Prop}
    (hproject : ∀ s a, project (step s a) = step' (project s) (label s a))
    (hP : ∀ s a, P s a ↔ P' (project s) (label s a)) (s : S) (actions : List A) :
    EachStep step P s actions
      ↔ EachStep step' P' (project s) (projectActions step label s actions) := by
  induction actions generalizing s with
  | nil => exact Iff.rfl
  | cons a rest ih =>
      rw [projectActions, EachStep, EachStep, ← hproject]
      exact and_congr (hP s a) (ih _)

/-! ### What clients hold

Each client holds at most one thing between two of its steps. -/

theorem forall_held_update {C α : Type*} [DecidableEq C] {held : C → Option α} {Holds : α → Prop}
    {c : C} {new : Option α} (h : ∀ c, ∀ x ∈ held c, Holds x) (hnew : ∀ x ∈ new, Holds x) :
    ∀ c', ∀ x ∈ Function.update held c new c', Holds x := by
  intro c' x hmem
  by_cases heq : c' = c
  · rw [heq, Function.update_self] at hmem
    exact hnew x hmem
  · rw [Function.update_of_ne heq] at hmem
    exact h c' x hmem

section Held

variable {C α β κ : Type*} [DecidableEq κ] (key : α → κ) (value : α → β)

/-- A part of what is held, if it is about the given key. -/
def heldAt (k : κ) : Option α → Option β
  | some x => if key x = k then some (value x) else none
  | none => none

theorem heldAt_self (x : α) : heldAt key value (key x) (some x) = some (value x) := if_pos rfl

theorem heldAt_of_ne {k : κ} (x : α) (h : key x ≠ k) : heldAt key value k (some x) = none :=
  if_neg h

variable {key value} [DecidableEq C]

theorem heldAt_update (k : κ) (held : C → Option α) (c : C) (new : Option α) :
    (fun c' => heldAt key value k (Function.update held c new c'))
      = Function.update (fun c' => heldAt key value k (held c')) c (heldAt key value k new) :=
  Function.comp_update (heldAt key value k) held c new

theorem update_heldAt_none {k : κ} {held : C → Option α} {c : C}
    (h : heldAt key value k (held c) = none) :
    Function.update (fun c' => heldAt key value k (held c')) c none
      = fun c' => heldAt key value k (held c') :=
  Function.update_eq_self_iff.2 h.symm

end Held

end Lib
