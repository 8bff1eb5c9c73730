import PersonalDevin.Lib.FloatOrder

/-!
# Bounded floats, and NaN

A float that is computed of bounded numbers is bounded, so that it is finite; and what is computed of
NaN is NaN.
-/

namespace Lib.Binary64

variable {x y c : Binary64}

/-! ### Bounds -/

/-- A finite number between the bound and its negative. -/
def Within (bound : ℕ) (x : Binary64) : Prop :=
  ∃ value representable, x = finite value representable ∧ |value| ≤ bound

theorem Within.isFinite {bound : ℕ} (h : Within bound x) : x.IsFinite := by
  obtain ⟨value, hvalue, hx, _⟩ := h
  exact ⟨value, hvalue, hx⟩

theorem abs_nearest_le {q : ℚ} {bound : ℕ} (hbound : bound < 2 ^ 53) (h : |q| ≤ bound) :
    |nearest q| ≤ bound := by
  have hself : nearest (bound : ℚ) = bound := by
    have hint : nearest ((bound : ℤ) : ℚ) = ((bound : ℤ) : ℚ) := nearest_intCast (by
      rw [Nat.abs_cast]
      exact_mod_cast hbound)
    rwa [Int.cast_natCast] at hint
  obtain ⟨hlow, hhigh⟩ := abs_le.1 h
  have hup := nearest_mono hhigh
  have hdown := nearest_mono hlow
  rw [nearest_neg] at hdown
  rw [hself] at hup hdown
  exact abs_le.2 ⟨hdown, hup⟩

/-- **What is rounded within bounds stays within them.** -/
theorem within_ofRat {q : ℚ} {bound : ℕ} (hbound : bound < 2 ^ 53) (h : |q| ≤ bound) :
    Within bound (ofRat q) := by
  have hrep : Representable ((bound : ℤ) : ℚ) := representable_intCast (by
    rw [Nat.abs_cast]
    exact_mod_cast hbound)
  have hlargest : (bound : ℚ) ≤ largest := by
    have habs := hrep.abs_le
    rwa [Int.cast_natCast, Nat.abs_cast] at habs
  rw [ofRat, dif_pos ((h.trans hlargest).trans_lt largest_lt_overflow)]
  exact ⟨_, _, rfl, abs_nearest_le hbound h⟩

theorem within_ratio {part total : ℕ} (h : part ≤ total) : Within 1 (ratio part total) := by
  refine within_ofRat (by decide) ?_
  rw [abs_of_nonneg (by positivity), Nat.cast_one]
  exact div_le_one_of_le₀ (by exact_mod_cast h) (Nat.cast_nonneg total)

theorem Within.round {bound : ℕ} (h : Within bound x) (hbound : bound < 2 ^ 53) (decimals : ℕ) :
    Within bound (x.round decimals) := by
  obtain ⟨value, _, rfl, hvalue⟩ := h
  refine within_ofRat hbound ?_
  have habs : |value| ≤ (bound : ℤ) := by rwa [Int.cast_natCast]
  simpa using abs_roundDecimals_le habs

theorem Within.neg {bound : ℕ} (h : Within bound x) : Within bound (-x) := by
  obtain ⟨value, hvalue, rfl, habs⟩ := h
  exact ⟨-value, hvalue.neg, rfl, (abs_neg value).trans_le habs⟩

theorem Within.add {m n : ℕ} (hx : Within m x) (hy : Within n y) (hbound : m + n < 2 ^ 53) :
    Within (m + n) (x + y) := by
  obtain ⟨a, _, rfl, ha⟩ := hx
  obtain ⟨b, _, rfl, hb⟩ := hy
  refine within_ofRat hbound ((abs_add_le a b).trans ?_)
  push_cast
  exact add_le_add ha hb

theorem Within.sub {m n : ℕ} (hx : Within m x) (hy : Within n y) (hbound : m + n < 2 ^ 53) :
    Within (m + n) (x - y) := hx.add hy.neg hbound

theorem Within.mul {m n : ℕ} (hx : Within m x) (hy : Within n y) (hbound : m * n < 2 ^ 53) :
    Within (m * n) (x * y) := by
  obtain ⟨a, _, rfl, ha⟩ := hx
  obtain ⟨b, _, rfl, hb⟩ := hy
  refine within_ofRat hbound ?_
  rw [abs_mul]
  push_cast
  exact mul_le_mul ha hb (abs_nonneg b) (Nat.cast_nonneg m)

/-! ### NaN -/

theorem add_nan (x : Binary64) : x + nan = nan := by
  rcases x with ⟨_, _⟩ | _ | _ <;> rfl

theorem not_nan_lt (x : Binary64) : ¬ nan < x := fun h => (ne_nan_of_lt h).1 rfl

theorem not_lt_nan (x : Binary64) : ¬ x < nan := fun h => (ne_nan_of_lt h).2 rfl

theorem not_nan_atMost (x : Binary64) : nan.atMost x = false := rfl

theorem not_atMost_nan (x : Binary64) : x.atMost nan = false := by
  rcases x with ⟨_, _⟩ | _ | _ <;> rfl

theorem finite_ne_nan {q : ℚ} (hq : Representable q) : finite q hq ≠ nan := fun h => by cases h

theorem infinite_ne_nan (negative : Bool) : infinite negative ≠ nan := fun h => by cases h

theorem finite_ne_infinite {q : ℚ} (hq : Representable q) (negative : Bool) :
    finite q hq ≠ infinite negative := fun h => by cases h

/-- A difference by its positive first part is NaN exactly if that is infinite or the other is NaN. -/
theorem sub_div_eq_nan_iff (hpos : 0 < x) :
    (x - y) / x = nan ↔ x = infinite false ∨ y = nan := by
  rw [zero_eq] at hpos
  rcases x with ⟨a, ha⟩ | (_ | _) | _
  · have hne : a ≠ 0 := (of_decide_eq_true hpos : (0 : ℚ) < a).ne'
    have hquotient : ∀ b : ℚ, div (ofRat b) (finite a ha) ≠ nan := by
      intro b
      unfold ofRat
      split
      · show (if a = 0 then _ else ofRat _) ≠ nan
        rw [if_neg hne]
        exact ofRat_ne_nan _
      · exact infinite_ne_nan _
    rcases y with ⟨b, hb⟩ | _ | _
    · exact iff_of_false (hquotient _) (not_or.2 ⟨finite_ne_infinite _ _, finite_ne_nan _⟩)
    · exact iff_of_false (infinite_ne_nan _)
        (not_or.2 ⟨finite_ne_infinite _ _, infinite_ne_nan _⟩)
    · exact iff_of_true rfl (.inr rfl)
  · refine iff_of_true ?_ (.inl rfl)
    rcases y with ⟨_, _⟩ | (_ | _) | _ <;> rfl
  · cases hpos
  · cases hpos

theorem maximum_ne_nan (hx : x ≠ nan) (hc : c ≠ nan) : x.maximum c ≠ nan := by
  rw [maximum]
  split
  · exact hc
  · exact hx

/-- **A clamp lets NaN through**, and nothing else becomes NaN in it. -/
theorem clamp_eq_nan_iff {low high : Binary64} (hlow : low ≠ nan) (hhigh : high ≠ nan) :
    (x.minimum high).maximum low = nan ↔ x = nan := by
  constructor
  · intro h
    by_contra hx
    exact maximum_ne_nan (minimum_ne_nan hx hhigh) hlow h
  · rintro rfl
    rw [minimum, if_neg (not_lt_nan high), maximum, if_neg (not_nan_lt low)]

theorem round_eq_nan_iff {decimals : ℕ} : x.round decimals = nan ↔ x = nan := by
  constructor
  · intro h
    by_contra hx
    exact round_ne_nan hx decimals h
  · rintro rfl
    rfl

/-- Numbers are in one order or the other. -/
theorem lt_of_not_atMost (hx : x ≠ nan) (hy : y ≠ nan) (h : x.atMost y = false) : y < x := by
  rcases lt_trichotomy_of_ne_nan hx hy with hlt | hsame | hgt
  · rw [atMost, show less x y = true from hlt] at h
    cases h
  · rw [atMost, hsame, Bool.or_true] at h
    cases h
  · exact hgt

theorem atMost_of_not_lt (hx : x ≠ nan) (hy : y ≠ nan) (h : ¬ y < x) : x.atMost y = true := by
  by_contra hnot
  exact h (lt_of_not_atMost hx hy (Bool.eq_false_iff.2 hnot))

end Lib.Binary64
