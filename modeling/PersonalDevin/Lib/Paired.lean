import PersonalDevin.Lib.Effects
import Mathlib.Data.List.Forall2

/-!
# Lists paired element by element

What `List.Forall₂` says about single elements and about the images of the two lists.
-/

namespace Lib

variable {α β γ : Type*} {R : α → β → Prop} {l : List α} {l' : List β}

theorem exists_of_mem_left (h : List.Forall₂ R l l') {a : α} (ha : a ∈ l) : ∃ b ∈ l', R a b := by
  induction h with
  | nil => cases ha
  | cons hfirst _ ih =>
      rcases List.mem_cons.1 ha with rfl | hrest
      · exact ⟨_, List.mem_cons_self, hfirst⟩
      · obtain ⟨b, hb, hab⟩ := ih hrest
        exact ⟨b, List.mem_cons_of_mem _ hb, hab⟩

theorem exists_of_mem_right (h : List.Forall₂ R l l') {b : β} (hb : b ∈ l') : ∃ a ∈ l, R a b :=
  exists_of_mem_left h.flip hb

/-- Two functions that agree along the pairing have the same images. -/
theorem map_eq_of_paired {f : α → γ} {g : β → γ} (h : List.Forall₂ R l l')
    (hfg : ∀ a b, R a b → f a = g b) : l.map f = l'.map g := by
  induction h with
  | nil => rfl
  | cons hfirst _ ih => rw [List.map_cons, List.map_cons, hfg _ _ hfirst, ih]

theorem paired_concat (h : List.Forall₂ R l l') {a : α} {b : β} (hab : R a b) :
    List.Forall₂ R (l ++ [a]) (l' ++ [b]) :=
  List.rel_append h (.cons hab .nil)

theorem mapM_eq_some_iff {f : α → Option β} :
    l.mapM f = some l' ↔ List.Forall₂ (fun a b => f a = some b) l l' := by
  induction l generalizing l' with
  | nil => simp [eq_comm]
  | cons a rest ih =>
      rw [List.forall₂_cons_left_iff, List.mapM_cons]
      simp only [Option.bind_eq_bind, Option.bind_eq_some_iff, Option.pure_def, Option.some.injEq, ih]
      constructor
      · rintro ⟨b, hb, tail, htail, rfl⟩
        exact ⟨b, tail, hb, htail, rfl⟩
      · rintro ⟨b, tail, hb, htail, rfl⟩
        exact ⟨b, hb, tail, htail, rfl⟩

/-- A fallible map that succeeds along a pairing gives a list that is paired with the first. -/
theorem exists_mapM_of_paired {f : β → Option γ} {Q : α → γ → Prop} (h : List.Forall₂ R l l')
    (hf : ∀ a b, R a b → ∃ c, f b = some c ∧ Q a c) :
    ∃ l'', l'.mapM f = some l'' ∧ List.Forall₂ Q l l'' := by
  simp only [mapM_eq_some_iff]
  induction h with
  | nil => exact ⟨[], .nil, .nil⟩
  | cons hfirst _ ih =>
      obtain ⟨c, hc, hq⟩ := hf _ _ hfirst
      obtain ⟨rest, hrest, hqs⟩ := ih
      exact ⟨c :: rest, .cons hc hrest, .cons hq hqs⟩

theorem mapM_isSome_iff {f : α → Option β} :
    (l.mapM f).isSome = true ↔ ∀ a ∈ l, (f a).isSome = true := by
  induction l with
  | nil => simp
  | cons a rest ih =>
      rw [List.forall_mem_cons, ← ih, List.mapM_cons]
      rcases f a with _ | b
      · simp
      · rcases rest.mapM f with _ | tail <;> simp

section Except

variable {ε α β : Type} {f : α → Except ε β} {l : List α}

theorem mapM_eq_ok_iff {l' : List β} :
    l.mapM f = .ok l' ↔ List.Forall₂ (fun a b => f a = .ok b) l l' := by
  induction l generalizing l' with
  | nil =>
      rw [List.mapM_nil, List.forall₂_nil_left_iff]
      constructor
      · rintro ⟨⟩
        rfl
      · rintro rfl
        rfl
  | cons a rest ih =>
      rw [List.forall₂_cons_left_iff, List.mapM_cons, except_bind_eq_ok_iff]
      constructor
      · rintro ⟨b, hb, htail⟩
        obtain ⟨tail, hrest, ⟨⟩⟩ := except_bind_eq_ok_iff.1 htail
        exact ⟨b, tail, hb, ih.1 hrest, rfl⟩
      · rintro ⟨b, tail, hb, htail, rfl⟩
        exact ⟨b, hb, except_bind_eq_ok_iff.2 ⟨tail, ih.2 htail, rfl⟩⟩

/-- A list has its images where every element has one. -/
theorem exists_mapM_ok (h : ∀ a ∈ l, ∃ b, f a = .ok b) : ∃ l', l.mapM f = .ok l' := by
  simp only [mapM_eq_ok_iff]
  induction l with
  | nil => exact ⟨[], .nil⟩
  | cons a rest ih =>
      obtain ⟨⟨b, hb⟩, hrest⟩ := List.forall_mem_cons.1 h
      obtain ⟨l', hl'⟩ := ih hrest
      exact ⟨b :: l', .cons hb hl'⟩

end Except

end Lib
