import Mathlib.Data.List.Forall2
import Mathlib.Data.Rat.Defs
import Mathlib.Algebra.Order.Field.Rat

/-!
# The fraction of a list with a property

Two properties of which one implies the other hold of the same fraction of a list only if they hold of
the same elements.
-/

namespace Lib

variable {α β : Type*} {p q : α → Bool} {l : List α}

/-- The fraction of the elements that have the property. -/
def fraction (p : α → Bool) (l : List α) : ℚ := (l.countP p : ℚ) / l.length

theorem fraction_map (p : β → Bool) (f : α → β) (l : List α) :
    fraction p (l.map f) = fraction (fun a => p (f a)) l := by
  rw [fraction, fraction, List.countP_map, List.length_map]
  rfl

/-- What holds of all elements holds of the whole list. -/
theorem fraction_of_forall (hne : l ≠ []) (h : ∀ a ∈ l, p a = true) : fraction p l = 1 := by
  have hlength : (l.length : ℚ) ≠ 0 :=
    Nat.cast_ne_zero.2 fun hzero => hne (List.eq_nil_of_length_eq_zero hzero)
  rw [fraction, List.countP_eq_length.2 h, div_self hlength]

/-- Properties that agree along a pairing hold of the same fraction of the two lists. -/
theorem fraction_eq_of_paired {R : α → β → Prop} {l' : List β} {p' : β → Bool}
    (h : List.Forall₂ R l l') (hp : ∀ a b, R a b → p a = p' b) : fraction p l = fraction p' l' := by
  have hcount : l.countP p = l'.countP p' := by
    induction h with
    | nil => rfl
    | cons hfirst _ ih => rw [List.countP_cons, List.countP_cons, ih, hp _ _ hfirst]
  rw [fraction, fraction, hcount, h.length_eq]

theorem countP_eq_iff_of_imp (himp : ∀ a ∈ l, p a = true → q a = true) :
    l.countP p = l.countP q ↔ ∀ a ∈ l, p a = q a := by
  induction l with
  | nil => simp
  | cons a rest ih =>
      obtain ⟨hfirst, hrest⟩ := List.forall_mem_cons.1 himp
      have hmono : rest.countP p ≤ rest.countP q := List.countP_mono_left hrest
      rw [List.forall_mem_cons, ← ih hrest, List.countP_cons, List.countP_cons]
      cases hp : p a <;> cases hq : q a
      · simp
      · simp only [Bool.false_eq_true, if_false, if_true, false_and, iff_false]
        omega
      · rw [hfirst hp] at hq
        cases hq
      · simp

/-- **Two fractions of one list are equal only if the properties agree on it.** -/
theorem fraction_eq_iff_of_imp (hne : l ≠ []) (himp : ∀ a ∈ l, p a = true → q a = true) :
    fraction p l = fraction q l ↔ ∀ a ∈ l, p a = q a := by
  have hlength : (l.length : ℚ) ≠ 0 :=
    Nat.cast_ne_zero.2 fun h => hne (List.eq_nil_of_length_eq_zero h)
  rw [← countP_eq_iff_of_imp himp, fraction, fraction, div_left_inj' hlength, Nat.cast_inj]

end Lib
