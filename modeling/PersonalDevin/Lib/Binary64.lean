import PersonalDevin.Lib.Decimal
import Mathlib.Data.Int.Log
import Mathlib.Order.WithBot

/-!
# Floating point

The numbers of the format binary64, of which a finite one is kept as the rational number that it is. An
operation is the exact one, rounded once to the nearest number, and of two nearest ones to the even
one. Zero has no sign here, and there is one NaN.
-/

namespace Lib

/-! ### Finite numbers -/

/-- A number with 53 binary digits and an exponent in range. -/
def Representable (q : ℚ) : Prop :=
  ∃ mantissa exponent : ℤ, |mantissa| < 2 ^ 53 ∧ -1074 ≤ exponent ∧ exponent ≤ 971
    ∧ q = mantissa * 2 ^ exponent

/-- The largest finite number. -/
def largest : ℚ := (2 ^ 53 - 1) * 2 ^ (971 : ℤ)

theorem representable_intCast {n : ℤ} (h : |n| < 2 ^ 53) : Representable n :=
  ⟨n, 0, h, by decide, by decide, by rw [zpow_zero, mul_one]⟩

theorem Representable.neg {q : ℚ} (h : Representable q) : Representable (-q) := by
  obtain ⟨mantissa, exponent, hmantissa, hlow, hhigh, rfl⟩ := h
  exact ⟨-mantissa, exponent, by rwa [abs_neg], hlow, hhigh, by push_cast; ring⟩

theorem Representable.abs_le {q : ℚ} (h : Representable q) : |q| ≤ largest := by
  obtain ⟨mantissa, exponent, hmantissa, -, hhigh, rfl⟩ := h
  have hdigits : |(mantissa : ℚ)| ≤ 2 ^ 53 - 1 := by
    have hle : |mantissa| ≤ 2 ^ 53 - 1 := by omega
    exact_mod_cast hle
  have hpower : (2 : ℚ) ^ exponent ≤ 2 ^ (971 : ℤ) := zpow_le_zpow_right₀ (by norm_num) hhigh
  rw [abs_mul, abs_of_pos (zpow_pos (by norm_num : (0 : ℚ) < 2) exponent)]
  exact mul_le_mul hdigits hpower (zpow_nonneg (by norm_num) _) (by norm_num)

/-! ### Rounding -/

/-- The exponent at which a number has 53 digits, or the smallest one. -/
def exponentOf (q : ℚ) : ℤ := max (Int.log 2 |q| - 52) (-1074)

/-- The nearest number with 53 digits. -/
def nearest (q : ℚ) : ℚ := roundHalfEven (q / 2 ^ exponentOf q) * 2 ^ exponentOf q

/-- From here on the nearest number is beyond the largest one. -/
def overflow : ℚ := (2 ^ 53 - 1 / 2) * 2 ^ (971 : ℤ)

theorem abs_roundHalfEven_sub_le (q : ℚ) : |(roundHalfEven q : ℚ) - q| ≤ 1 / 2 := by
  have hlow : (⌊q⌋ : ℚ) ≤ q := Int.floor_le q
  have hhigh : q < ⌊q⌋ + 1 := Int.lt_floor_add_one q
  rw [roundHalfEven, abs_le]
  split_ifs <;> push_cast <;> constructor <;> linarith

theorem roundHalfEven_lt {p q : ℚ} (h : p + 1 < q) : roundHalfEven p < roundHalfEven q := by
  have hp := (abs_le.1 (abs_roundHalfEven_sub_le p)).2
  have hq := (abs_le.1 (abs_roundHalfEven_sub_le q)).1
  have hlt : (roundHalfEven p : ℚ) < roundHalfEven q := by linarith
  exact_mod_cast hlt

/-- Numbers that are more than one unit apart are rounded at least one unit apart. -/
theorem roundDecimals_add_le {decimals : ℕ} {p q : ℚ} (h : p + 1 / 10 ^ decimals < q) :
    roundDecimals decimals p + 1 / 10 ^ decimals ≤ roundDecimals decimals q := by
  have hpower : (0 : ℚ) < 10 ^ decimals := by positivity
  have hunits : units decimals p + 1 ≤ units decimals q := by
    apply roundHalfEven_lt
    have hscaled := mul_lt_mul_of_pos_right h hpower
    rwa [add_mul, one_div, inv_mul_cancel₀ hpower.ne'] at hscaled
  rw [roundDecimals, roundDecimals, ← add_div]
  exact (div_le_div_iff_of_pos_right hpower).2 (by exact_mod_cast hunits)

theorem abs_roundHalfEven_le {q : ℚ} {n : ℤ} (h : |q| < n + 1 / 2) : |roundHalfEven q| ≤ n := by
  have hnear : |(roundHalfEven q : ℚ)| - |q| ≤ 1 / 2 :=
    (abs_sub_abs_le_abs_sub _ _).trans (abs_roundHalfEven_sub_le q)
  have hlt : ((|roundHalfEven q| : ℤ) : ℚ) < (n + 1 : ℤ) := by
    push_cast
    linarith
  exact Int.lt_add_one_iff.1 (by exact_mod_cast hlt)

theorem lt_zpow_exponentOf (q : ℚ) : |q| < 2 ^ 53 * 2 ^ exponentOf q := by
  have hlog : |q| < 2 ^ (Int.log 2 |q| + 1) := by
    have := Int.lt_zpow_succ_log_self (by decide : 1 < 2) |q|
    exact_mod_cast this
  have hexponent : Int.log 2 |q| + 1 ≤ 53 + exponentOf q := by
    rw [exponentOf]
    omega
  calc |q| < 2 ^ (Int.log 2 |q| + 1) := hlog
    _ ≤ 2 ^ (53 + exponentOf q) := zpow_le_zpow_right₀ (by norm_num) hexponent
    _ = 2 ^ 53 * 2 ^ exponentOf q := by rw [zpow_add₀ (by norm_num)]; rfl

theorem abs_nearest_sub_le {q : ℚ} (h : |q| ≤ 2) : |nearest q - q| ≤ 1 / 2 ^ 52 := by
  have hexponent : exponentOf q ≤ -51 := by
    rcases eq_or_ne q 0 with rfl | hne
    · rw [exponentOf, abs_zero, Int.log_zero_right]
      decide
    · have hbound : |q| < (2 : ℕ) ^ (2 : ℤ) := h.trans_lt (by norm_num)
      have hlog : Int.log 2 |q| < 2 := (Int.lt_zpow_iff_log_lt (by decide) (abs_pos.2 hne)).1 hbound
      rw [exponentOf]
      omega
  have hpower : (0 : ℚ) < 2 ^ exponentOf q := zpow_pos (by norm_num) _
  calc |nearest q - q| = |(roundHalfEven (q / 2 ^ exponentOf q) : ℚ) - q / 2 ^ exponentOf q|
        * 2 ^ exponentOf q := by
        rw [nearest, ← abs_of_pos hpower, ← abs_mul, abs_of_pos hpower, sub_mul,
          div_mul_cancel₀ _ hpower.ne']
    _ ≤ 1 / 2 * 2 ^ (-51 : ℤ) := mul_le_mul (abs_roundHalfEven_sub_le _)
        (zpow_le_zpow_right₀ (by norm_num) hexponent) hpower.le (by norm_num)
    _ = 1 / 2 ^ 52 := by norm_num

theorem largest_lt_overflow : largest < overflow :=
  mul_lt_mul_of_pos_right (by norm_num) (zpow_pos (by norm_num) _)

theorem exponentOf_intCast_le {n : ℤ} (h : |n| < 2 ^ 53) : exponentOf n ≤ 0 := by
  refine max_le ?_ (by decide)
  have hlog : Int.log 2 |(n : ℚ)| < 53 := by
    rcases eq_or_ne n 0 with rfl | hne
    · simp
    · rw [← Int.lt_zpow_iff_log_lt (by decide) (by positivity)]
      exact_mod_cast h
  omega

theorem nearest_intCast {n : ℤ} (h : |n| < 2 ^ 53) : nearest n = n := by
  obtain ⟨k, hk⟩ := Int.exists_eq_neg_ofNat (exponentOf_intCast_le h)
  have hscaled : (n : ℚ) / 2 ^ exponentOf n = ((n * 2 ^ k : ℤ) : ℚ) := by
    rw [hk, zpow_neg, zpow_natCast, div_inv_eq_mul]
    push_cast
    rfl
  rw [nearest, hscaled, roundHalfEven_intCast, ← hscaled]
  exact div_mul_cancel₀ _ (zpow_ne_zero _ two_ne_zero)

theorem overflow_lt : overflow < (2 : ℕ) ^ (1024 : ℤ) := by
  rw [overflow, show (1024 : ℤ) = 53 + 971 from rfl, zpow_add₀ (by norm_num)]
  exact mul_lt_mul_of_pos_right (by norm_num) (zpow_pos (by norm_num) _)

theorem exponentOf_le {q : ℚ} (h : |q| < overflow) : exponentOf q ≤ 971 := by
  rcases eq_or_ne q 0 with rfl | hne
  · rw [exponentOf, abs_zero, Int.log_zero_right]
    decide
  · have hbound : |q| < (2 : ℕ) ^ (1024 : ℤ) := h.trans overflow_lt
    have hlog : Int.log 2 |q| < 1024 :=
      (Int.lt_zpow_iff_log_lt (by decide) (abs_pos.2 hne)).1 hbound
    rw [exponentOf]
    omega

/-- **Below the overflow the nearest number is in range.** -/
theorem representable_nearest {q : ℚ} (h : |q| < overflow) : Representable (nearest q) := by
  obtain ⟨e, he⟩ : ∃ e, exponentOf q = e := ⟨_, rfl⟩
  have hlow : -1074 ≤ e := he ▸ le_max_right _ _
  have hhigh : e ≤ 971 := he ▸ exponentOf_le h
  have hpower : (0 : ℚ) < 2 ^ e := zpow_pos (by norm_num) e
  have hquotient : |q / 2 ^ e| = |q| / 2 ^ e := by rw [abs_div, abs_of_pos hpower]
  have hdigits : |roundHalfEven (q / 2 ^ e)| ≤ 2 ^ 53 := by
    apply abs_roundHalfEven_le
    have hlt : |q| / 2 ^ e < 2 ^ 53 := (div_lt_iff₀ hpower).2 (he ▸ lt_zpow_exponentOf q)
    rw [hquotient]
    push_cast
    linarith
  rw [nearest, he]
  rcases lt_or_eq_of_le hdigits with hlt | heq
  · exact ⟨_, e, hlt, hlow, hhigh, rfl⟩
  · -- One digit too many: the number is a power of two, and not beyond the largest exponent.
    have hsmaller : e < 971 := by
      by_contra hnot
      have hlast : e = 971 := by omega
      have hhalf : |q| / 2 ^ e < (2 ^ 53 - 1 : ℤ) + 1 / 2 := by
        rw [div_lt_iff₀ hpower, hlast]
        exact h.trans_eq (by norm_num [overflow])
      have := abs_roundHalfEven_le (hquotient.trans_lt hhalf)
      omega
    have hshift : ∀ mantissa : ℤ, ((2 * mantissa : ℤ) : ℚ) * 2 ^ e = mantissa * 2 ^ (e + 1) := by
      intro mantissa
      rw [zpow_add_one₀ (by norm_num)]
      push_cast
      ring
    rcases eq_or_eq_neg_of_abs_eq heq with hpos | hneg
    · exact ⟨2 ^ 52, e + 1, by decide, by omega, by omega, by rw [hpos, ← hshift]; norm_num⟩
    · exact ⟨-2 ^ 52, e + 1, by decide, by omega, by omega, by rw [hneg, ← hshift]; norm_num⟩

/-! ### Numbers -/

inductive Binary64 where
  | finite (value : ℚ) (representable : Representable value)
  | infinite (negative : Bool)
  | nan
  deriving DecidableEq

namespace Binary64

/-- The number that a rational number is rounded to. -/
def ofRat (q : ℚ) : Binary64 :=
  if h : |q| < overflow then finite (nearest q) (representable_nearest h) else infinite (q < 0)

def ofInt (n : ℤ) : Binary64 := ofRat n

instance : OfNat Binary64 n := ⟨ofInt n⟩

def neg : Binary64 → Binary64
  | finite value representable => finite (-value) representable.neg
  | infinite negative => infinite !negative
  | nan => nan

instance : Neg Binary64 := ⟨neg⟩

def add : Binary64 → Binary64 → Binary64
  | nan, _ => nan
  | _, nan => nan
  | finite a _, finite b _ => ofRat (a + b)
  | finite _ _, infinite negative => infinite negative
  | infinite negative, finite _ _ => infinite negative
  | infinite negative, infinite negative' =>
      if negative = negative' then infinite negative else nan

instance : Add Binary64 := ⟨add⟩

instance : Sub Binary64 := ⟨fun a b => a + -b⟩

def mul : Binary64 → Binary64 → Binary64
  | nan, _ => nan
  | _, nan => nan
  | finite a _, finite b _ => ofRat (a * b)
  | finite a _, infinite negative => if a = 0 then nan else infinite (negative ^^ a < 0)
  | infinite negative, finite b _ => if b = 0 then nan else infinite (negative ^^ b < 0)
  | infinite negative, infinite negative' => infinite (negative ^^ negative')

instance : Mul Binary64 := ⟨mul⟩

def div : Binary64 → Binary64 → Binary64
  | nan, _ => nan
  | _, nan => nan
  | finite a _, finite b _ =>
      if b = 0 then if a = 0 then nan else infinite (a < 0) else ofRat (a / b)
  | finite _ _, infinite _ => 0
  | infinite negative, finite b _ => infinite (negative ^^ b < 0)
  | infinite _, infinite _ => nan

instance : Div Binary64 := ⟨div⟩

/-- Smaller; NaN is not, and nothing is smaller than it. -/
def less : Binary64 → Binary64 → Bool
  | nan, _ => false
  | _, nan => false
  | finite a _, finite b _ => a < b
  | finite _ _, infinite negative => !negative
  | infinite negative, finite _ _ => negative
  | infinite negative, infinite negative' => negative && !negative'

instance : LT Binary64 := ⟨fun a b => less a b = true⟩

instance (a b : Binary64) : Decidable (a < b) := inferInstanceAs (Decidable (less a b = true))

/-- Equal; NaN is equal to nothing. -/
def same : Binary64 → Binary64 → Bool
  | finite a _, finite b _ => a = b
  | infinite negative, infinite negative' => negative = negative'
  | _, _ => false

/-- At most; NaN is not, and nothing is at most it. -/
def atMost (a b : Binary64) : Bool := less a b || same a b

/-- The quotient by a number of things. -/
def divNat : Binary64 → ℕ → Binary64
  | finite a _, n => ofRat (a / n)
  | x, _ => x

/-- The quotient of two numbers of things. -/
def ratio (part total : ℕ) : Binary64 := ofRat (part / total)

def round (decimals : ℕ) : Binary64 → Binary64
  | finite a _ => ofRat (roundDecimals decimals a)
  | x => x

/-- The first, unless the second is smaller. -/
def minimum (a b : Binary64) : Binary64 := if b < a then b else a

/-- The first, unless the second is larger. -/
def maximum (a b : Binary64) : Binary64 := if a < b then b else a

/-! ### The order -/

protected theorem lt_irrefl (a : Binary64) : ¬ a < a := by
  intro h
  change less a a = true at h
  rcases a with ⟨a, _⟩ | negative | _
  · exact lt_irrefl a (of_decide_eq_true h)
  · cases negative <;> cases h
  · cases h

protected theorem lt_trans {a b c : Binary64} (hab : a < b) (hbc : b < c) : a < c := by
  change less a b = true at hab
  change less b c = true at hbc
  show less a c = true
  rcases a with ⟨a, _⟩ | n | _ <;> rcases b with ⟨b, _⟩ | n' | _ <;>
    rcases c with ⟨c, _⟩ | n'' | _
  · exact decide_eq_true ((of_decide_eq_true hab).trans (of_decide_eq_true hbc))
  all_goals simp_all [less]

/-- A number is greater than what its equals are greater than. -/
theorem lt_of_lt_of_same {a b c : Binary64} (hab : a < b) (hsame : same c b = true) : a < c := by
  change less a b = true at hab
  show less a c = true
  rcases a with ⟨a, _⟩ | n | _ <;> rcases b with ⟨b, _⟩ | n' | _ <;>
    rcases c with ⟨c, _⟩ | n'' | _ <;> simp_all [less, same]

theorem same_comm (a b : Binary64) : same a b = same b a := by
  rcases a with ⟨a, _⟩ | n | _ <;> rcases b with ⟨b, _⟩ | n' | _ <;> simp [same, eq_comm]

/-- Two numbers that are not NaN are equal, or one is greater. -/
theorem lt_trichotomy_of_ne_nan {a b : Binary64} (ha : a ≠ nan) (hb : b ≠ nan) :
    a < b ∨ same a b = true ∨ b < a := by
  show less a b = true ∨ same a b = true ∨ less b a = true
  rcases a with ⟨a, _⟩ | n | _ <;> rcases b with ⟨b, _⟩ | n' | _
  · simpa [less, same] using lt_trichotomy a b
  all_goals simp_all [less, same]
  all_goals cases n <;> simp_all

/-- A number among the rational numbers with a least and a greatest one. -/
def extended : Binary64 → WithBot (WithTop ℚ)
  | finite a _ => ((a : WithTop ℚ) : WithBot (WithTop ℚ))
  | infinite false => ((⊤ : WithTop ℚ) : WithBot (WithTop ℚ))
  | infinite true => ⊥
  | nan => ⊥

theorem lt_iff_extended {a b : Binary64} (ha : a ≠ nan) (hb : b ≠ nan) :
    a < b ↔ a.extended < b.extended := by
  show less a b = true ↔ _
  rcases a with ⟨a, _⟩ | n | _ <;> rcases b with ⟨b, _⟩ | n' | _
  · simp [less, extended]
  all_goals simp_all only [less, extended, ne_eq, not_true_eq_false, reduceCtorEq, not_false_eq_true]
  · cases n'
    · exact iff_of_true rfl (WithBot.coe_lt_coe.2 (WithTop.coe_lt_top a))
    · simp
  · cases n <;> simp
  · cases n <;> cases n' <;> simp
/-! ### Finite results -/

def IsFinite (x : Binary64) : Prop := ∃ value representable, x = finite value representable

theorem isFinite_ofRat {q : ℚ} (h : |q| ≤ largest) : (ofRat q).IsFinite := by
  rw [ofRat, dif_pos (h.trans_lt largest_lt_overflow)]
  exact ⟨_, _, rfl⟩

/-- An integer of 53 digits is a float as it is. -/
theorem ofInt_eq_finite {n : ℤ} (h : |n| < 2 ^ 53) : ofInt n = finite n (representable_intCast h) := by
  have hlt : |(n : ℚ)| < overflow := (representable_intCast h).abs_le.trans_lt largest_lt_overflow
  rw [ofInt, ofRat, dif_pos hlt]
  congr 1
  exact nearest_intCast h

theorem ofRat_ne_nan (q : ℚ) : ofRat q ≠ nan := by
  unfold ofRat
  split
  · exact nofun
  · exact nofun

theorem add_ne_nan {x y : Binary64} (hx : x ≠ nan) (hy : y.IsFinite) : x + y ≠ nan := by
  obtain ⟨b, _, rfl⟩ := hy
  show add x _ ≠ nan
  rcases x with ⟨a, _⟩ | n | _
  · exact ofRat_ne_nan _
  · exact nofun
  · exact absurd rfl hx

theorem finite_add_ne_nan {x y : Binary64} (hx : x.IsFinite) (hy : y ≠ nan) : x + y ≠ nan := by
  obtain ⟨a, _, rfl⟩ := hx
  show add _ y ≠ nan
  rcases y with ⟨b, _⟩ | n | _
  · exact ofRat_ne_nan _
  · exact nofun
  · exact absurd rfl hy

theorem mul_ne_nan {x y : Binary64} (hx : x.IsFinite) (hy : y.IsFinite) : x * y ≠ nan := by
  obtain ⟨a, _, rfl⟩ := hx
  obtain ⟨b, _, rfl⟩ := hy
  exact ofRat_ne_nan _

theorem IsFinite.neg {x : Binary64} (h : x.IsFinite) : (-x).IsFinite := by
  obtain ⟨a, ha, rfl⟩ := h
  exact ⟨-a, ha.neg, rfl⟩

/-- A finite number stays finite when a unit at most is added. -/
theorem isFinite_add {x y : Binary64} (hx : x.IsFinite) (hy : y.IsFinite)
    (hsmall : ∀ b hb, y = finite b hb → |b| ≤ 1) : (x + y).IsFinite := by
  obtain ⟨a, ha, rfl⟩ := hx
  obtain ⟨b, hb, rfl⟩ := hy
  have hlt : |a + b| < overflow := by
    have hgap : largest + 1 < overflow := by
      obtain ⟨unit, hunit⟩ : ∃ unit : ℚ, 2 ^ (971 : ℤ) = unit := ⟨_, rfl⟩
      have hlarge : 2 < unit := by
        rw [← hunit]
        calc (2 : ℚ) < 2 ^ (2 : ℤ) := by norm_num
          _ ≤ 2 ^ (971 : ℤ) := zpow_le_zpow_right₀ (by norm_num) (by decide)
      rw [largest, overflow, hunit]
      linarith only [hlarge]
    linarith [abs_add_le a b, ha.abs_le, hsmall b hb rfl]
  show (ofRat (a + b)).IsFinite
  rw [ofRat, dif_pos hlt]
  exact ⟨_, _, rfl⟩

theorem one_le_largest : 1 ≤ largest :=
  one_le_mul_of_one_le_of_one_le (by norm_num) (one_le_zpow₀ (by norm_num) (by decide))

theorem isFinite_divNat {x : Binary64} (h : x.IsFinite) {n : ℕ} (hn : 0 < n) :
    (x.divNat n).IsFinite := by
  obtain ⟨a, ha, rfl⟩ := h
  refine isFinite_ofRat (le_trans ?_ ha.abs_le)
  rw [abs_div, Nat.abs_cast]
  exact div_le_self (abs_nonneg a) (by exact_mod_cast hn)

theorem isFinite_ratio {part total : ℕ} (h : part ≤ total) : (ratio part total).IsFinite := by
  refine isFinite_ofRat (le_trans ?_ one_le_largest)
  rw [abs_of_nonneg (by positivity)]
  exact div_le_one_of_le₀ (by exact_mod_cast h) (Nat.cast_nonneg total)

theorem abs_roundDecimals_le {decimals : ℕ} {q : ℚ} {n : ℤ} (h : |q| ≤ n) :
    |roundDecimals decimals q| ≤ n := by
  have hpower : (0 : ℚ) < 10 ^ decimals := by positivity
  have hunits : |units decimals q| ≤ n * 10 ^ decimals := by
    apply abs_roundHalfEven_le
    rw [abs_mul, abs_of_pos hpower]
    push_cast
    have := mul_le_mul_of_nonneg_right h hpower.le
    linarith
  rw [roundDecimals, abs_div, abs_of_pos hpower, div_le_iff₀ hpower]
  exact_mod_cast hunits

theorem exists_largest_eq_intCast : ∃ n : ℤ, largest = n := by
  obtain ⟨k, hk⟩ : ∃ k : ℕ, (k : ℤ) = 971 := ⟨971, rfl⟩
  refine ⟨(2 ^ 53 - 1) * 2 ^ k, ?_⟩
  rw [largest, ← hk, zpow_natCast]
  push_cast
  norm_num

theorem isFinite_round {x : Binary64} (h : x.IsFinite) (decimals : ℕ) :
    (x.round decimals).IsFinite := by
  obtain ⟨a, ha, rfl⟩ := h
  obtain ⟨n, hn⟩ := exists_largest_eq_intCast
  exact isFinite_ofRat ((abs_roundDecimals_le (ha.abs_le.trans_eq hn)).trans_eq hn.symm)

/-! ### Rounding to decimals -/

theorem exists_ofRat_eq {q : ℚ} (h : |q| ≤ 2) :
    ∃ value representable, ofRat q = finite value representable ∧ |value - q| ≤ 1 / 2 ^ 52 := by
  have hpower : (1 : ℚ) ≤ 2 ^ (971 : ℤ) := one_le_zpow₀ (by norm_num) (by decide)
  have hdigits : (2 : ℚ) < 2 ^ 53 - 1 / 2 := by norm_num
  have hlt : |q| < overflow :=
    (h.trans_lt hdigits).trans_le (le_mul_of_one_le_right (by norm_num) hpower)
  rw [ofRat, dif_pos hlt]
  exact ⟨_, _, rfl, abs_nearest_sub_le h⟩

/-- **Numbers that are more than a unit of the last decimal apart**, and by more than the format blurs,
are rounded to different floats. -/
theorem round_ofRat_ne {decimals : ℕ} (hdecimals : (1 : ℚ) / 2 ^ 51 < 1 / 10 ^ decimals) {p q : ℚ}
    (hp : |p| ≤ 1) (hq : |q| ≤ 1) (h : p + 1 / 10 ^ decimals + 1 / 2 ^ 51 < q) :
    (ofRat p).round decimals ≠ (ofRat q).round decimals := by
  obtain ⟨p', hp', hofRatp, hnearp⟩ := exists_ofRat_eq (hp.trans one_le_two)
  obtain ⟨q', hq', hofRatq, hnearq⟩ := exists_ofRat_eq (hq.trans one_le_two)
  have hsplit : (1 : ℚ) / 2 ^ 51 = 1 / 2 ^ 52 + 1 / 2 ^ 52 := by norm_num
  have hapart : p' + 1 / 10 ^ decimals < q' := by
    have := (abs_le.1 hnearp).2
    have := (abs_le.1 hnearq).1
    linarith
  have hbound : ∀ {x x' : ℚ}, |x| ≤ 1 → |x' - x| ≤ 1 / 2 ^ 52 → |roundDecimals decimals x'| ≤ 2 := by
    intro x x' hx hnear
    have hx' : |x'| ≤ (2 : ℤ) := by
      have hsum := abs_sub_abs_le_abs_sub x' x
      push_cast
      linarith [show (1 : ℚ) / 2 ^ 52 ≤ 1 by norm_num]
    exact_mod_cast abs_roundDecimals_le hx'
  obtain ⟨p'', hp'', hroundp, hlastp⟩ := exists_ofRat_eq (hbound hp hnearp)
  obtain ⟨q'', hq'', hroundq, hlastq⟩ := exists_ofRat_eq (hbound hq hnearq)
  have hrounded := roundDecimals_add_le hapart
  have hlt : p'' < q'' := by
    have := (abs_le.1 hlastp).2
    have := (abs_le.1 hlastq).1
    linarith
  rw [hofRatp, hofRatq, round, round, hroundp, hroundq]
  exact fun heq => hlt.ne (Binary64.finite.inj heq)

/-! ### Zero -/

theorem ofRat_zero : ofRat 0 = 0 := congrArg ofRat Int.cast_zero.symm

theorem zero_eq :
    (0 : Binary64) = finite 0 (representable_intCast (by decide : |(0 : ℤ)| < 2 ^ 53)) := by
  decide +kernel

theorem sub_self_of_isFinite {x : Binary64} (h : x.IsFinite) : x - x = 0 := by
  obtain ⟨a, ha, rfl⟩ := h
  show ofRat (a + -a) = 0
  rw [add_neg_cancel, ofRat_zero]

/-- Nothing by a positive number. -/
theorem zero_div_of_pos {x : Binary64} (h : 0 < x) : 0 / x = 0 := by
  rw [zero_eq] at h ⊢
  cases x with
  | nan => cases h
  | infinite negative => exact zero_eq
  | finite a ha =>
      have hpos : (0 : ℚ) < a := of_decide_eq_true h
      show (if a = 0 then _ else ofRat (0 / a)) = _
      rw [if_neg hpos.ne', zero_div, ofRat_zero, zero_eq]

/-! ### Numbers of things -/

theorem nearest_nonneg {q : ℚ} (h : 0 ≤ q) : 0 ≤ nearest q := by
  have hpower : (0 : ℚ) < 2 ^ exponentOf q := zpow_pos (by norm_num) _
  have hfloor : 0 ≤ ⌊q / 2 ^ exponentOf q⌋ := Int.floor_nonneg.2 (div_nonneg h hpower.le)
  have hround : 0 ≤ roundHalfEven (q / 2 ^ exponentOf q) := by
    rw [roundHalfEven]
    split_ifs <;> omega
  exact mul_nonneg (by exact_mod_cast hround) hpower.le

theorem ofRat_cases {q : ℚ} (h : 0 ≤ q) :
    (∃ a ha, ofRat q = finite a ha ∧ 0 ≤ a) ∨ ofRat q = infinite false := by
  rw [ofRat]
  split
  · rename_i hlt
    exact .inl ⟨nearest q, representable_nearest hlt, rfl, nearest_nonneg h⟩
  · rw [decide_eq_false (not_lt.2 h)]
    exact .inr rfl

/-- A number of times a positive number is finite, or above every finite number. -/
theorem ofInt_mul_cases (n : ℕ) {x : Binary64} (hx : x.IsFinite) (hpos : 0 < x) :
    (ofInt n * x).IsFinite ∨ ofInt n * x = infinite false := by
  obtain ⟨b, hb, rfl⟩ := hx
  rw [zero_eq] at hpos
  have hb : 0 < b := of_decide_eq_true hpos
  rcases ofRat_cases (Nat.cast_nonneg (α := ℚ) n) with ⟨a, ha, heq, hnonneg⟩ | heq
  · rw [ofInt, Int.cast_natCast, heq]
    rcases ofRat_cases (mul_nonneg hnonneg hb.le) with ⟨c, hc, hproduct, _⟩ | hproduct
    · exact .inl ⟨c, hc, hproduct⟩
    · exact .inr hproduct
  · rw [ofInt, Int.cast_natCast, heq]
    right
    show (if b = 0 then nan else infinite (false ^^ b < 0)) = _
    rw [if_neg hb.ne', decide_eq_false hb.not_gt]
    rfl

end Binary64

end Lib
