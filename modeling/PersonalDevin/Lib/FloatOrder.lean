import PersonalDevin.Lib.Binary64

/-!
# Rounding keeps the order

To an integer, to decimals and to the nearest number of the format. A computation with floats that
is made of such steps is monotone, so two of its values tell where it crosses a threshold.
-/

namespace Lib

/-! ### To integers and decimals -/

theorem floor_le_roundHalfEven (q : ℚ) : ⌊q⌋ ≤ roundHalfEven q := by
  rw [roundHalfEven]
  split_ifs <;> omega

theorem roundHalfEven_le_floor_add_one (q : ℚ) : roundHalfEven q ≤ ⌊q⌋ + 1 := by
  rw [roundHalfEven]
  split_ifs <;> omega

theorem roundHalfEven_mono {p q : ℚ} (h : p ≤ q) : roundHalfEven p ≤ roundHalfEven q := by
  rcases (Int.floor_mono h).lt_or_eq with hlt | heq
  · exact (roundHalfEven_le_floor_add_one p).trans ((Int.add_one_le_iff.2 hlt).trans
      (floor_le_roundHalfEven q))
  · rw [roundHalfEven, roundHalfEven, heq]
    split_ifs <;> first | omega | linarith

/-- A number and its negative are rounded alike. -/
theorem roundHalfEven_neg (q : ℚ) : roundHalfEven (-q) = -roundHalfEven q := by
  rcases eq_or_ne (q - ⌊q⌋) 0 with hinteger | hfraction
  · have hq : q = (⌊q⌋ : ℤ) := sub_eq_zero.1 hinteger
    rw [hq, ← Int.cast_neg, roundHalfEven_intCast, roundHalfEven_intCast]
  · have hpos : 0 < q - ⌊q⌋ := lt_of_le_of_ne (sub_nonneg.2 (Int.floor_le q)) hfraction.symm
    have hfloor : ⌊-q⌋ = -⌊q⌋ - 1 := by
      rw [Int.floor_eq_iff]
      push_cast
      constructor
      · linarith [Int.lt_floor_add_one q]
      · linarith
    rw [roundHalfEven, roundHalfEven, hfloor]
    push_cast
    split_ifs <;> first | omega | linarith

theorem roundDecimals_mono (decimals : ℕ) {p q : ℚ} (h : p ≤ q) :
    roundDecimals decimals p ≤ roundDecimals decimals q := by
  have hpower : (0 : ℚ) < 10 ^ decimals := by positivity
  have hunits : units decimals p ≤ units decimals q :=
    roundHalfEven_mono (mul_le_mul_of_nonneg_right h hpower.le)
  exact (div_le_div_iff_of_pos_right hpower).2 (by exact_mod_cast hunits)

/-! ### To the nearest number -/

theorem exponentOf_neg (q : ℚ) : exponentOf (-q) = exponentOf q := by
  rw [exponentOf, exponentOf, abs_neg]

theorem exponentOf_le_exponentOf {p q : ℚ} (hp : 0 < p) (h : p ≤ q) :
    exponentOf p ≤ exponentOf q := by
  have hlog : Int.log 2 |p| ≤ Int.log 2 |q| := by
    rw [abs_of_pos hp, abs_of_pos (hp.trans_le h)]
    exact Int.log_mono_right hp h
  rw [exponentOf, exponentOf]
  omega

theorem nearest_neg (q : ℚ) : nearest (-q) = -nearest q := by
  rw [nearest, nearest, exponentOf_neg, neg_div, roundHalfEven_neg, Int.cast_neg, neg_mul]

/-- With its digits before the point a number is rounded to at most one digit more. -/
theorem nearest_le_zpow (q : ℚ) : nearest q ≤ 2 ^ 53 * 2 ^ exponentOf q := by
  have hpower : (0 : ℚ) < 2 ^ exponentOf q := zpow_pos (by norm_num) _
  have hdigits : q / 2 ^ exponentOf q ≤ ((2 ^ 53 : ℤ) : ℚ) := by
    rw [div_le_iff₀ hpower]
    push_cast
    exact (le_abs_self q).trans (lt_zpow_exponentOf q).le
  have hround := roundHalfEven_mono hdigits
  rw [roundHalfEven_intCast] at hround
  exact mul_le_mul_of_nonneg_right (by exact_mod_cast hround) hpower.le

/-- A number with an exponent above the smallest has 53 digits, and so has the nearest one. -/
theorem zpow_le_nearest {q : ℚ} (hq : 0 < q) (h : -1074 < exponentOf q) :
    2 ^ 52 * 2 ^ exponentOf q ≤ nearest q := by
  have hpower : (0 : ℚ) < 2 ^ exponentOf q := zpow_pos (by norm_num) _
  have hexponent : exponentOf q = Int.log 2 q - 52 := by
    rw [exponentOf, abs_of_pos hq] at h ⊢
    omega
  have hdigits : ((2 ^ 52 : ℤ) : ℚ) ≤ q / 2 ^ exponentOf q := by
    rw [le_div_iff₀ hpower, hexponent]
    calc ((2 ^ 52 : ℤ) : ℚ) * 2 ^ (Int.log 2 q - 52) = ((2 : ℕ) : ℚ) ^ Int.log 2 q := by
          rw [zpow_sub₀ (by norm_num)]
          push_cast
          field_simp
      _ ≤ q := Int.zpow_log_le_self (by decide) hq
  have hround := roundHalfEven_mono hdigits
  rw [roundHalfEven_intCast] at hround
  exact mul_le_mul_of_nonneg_right (by exact_mod_cast hround) hpower.le

theorem nearest_le_of_pos {p q : ℚ} (hp : 0 < p) (h : p ≤ q) : nearest p ≤ nearest q := by
  rcases (exponentOf_le_exponentOf hp h).lt_or_eq with hlt | heq
  · have hlowest : -1074 ≤ exponentOf p := le_max_right _ _
    calc nearest p ≤ 2 ^ 53 * 2 ^ exponentOf p := nearest_le_zpow p
      _ ≤ 2 ^ 53 * 2 ^ (exponentOf q - 1) := by
          refine mul_le_mul_of_nonneg_left ?_ (by norm_num)
          exact zpow_le_zpow_right₀ (by norm_num) (by omega)
      _ = 2 ^ 52 * 2 ^ exponentOf q := by
          rw [zpow_sub_one₀ (by norm_num)]
          ring
      _ ≤ nearest q := zpow_le_nearest (hp.trans_le h) (by omega)
  · rw [nearest, nearest, heq]
    have hpower : (0 : ℚ) < 2 ^ exponentOf q := zpow_pos (by norm_num) _
    have hround := roundHalfEven_mono ((div_le_div_iff_of_pos_right hpower).2 h)
    exact mul_le_mul_of_nonneg_right (by exact_mod_cast hround) hpower.le

/-- **Rounding to the nearest number is monotone.** -/
theorem nearest_mono {p q : ℚ} (h : p ≤ q) : nearest p ≤ nearest q := by
  rcases lt_or_ge 0 p with hp | hp
  · exact nearest_le_of_pos hp h
  · rcases lt_or_ge q 0 with hq | hq
    · have hneg := nearest_le_of_pos (neg_pos.2 hq) (neg_le_neg h)
      rwa [nearest_neg, nearest_neg, neg_le_neg_iff] at hneg
    · have hlow : nearest p ≤ 0 := by
        have hnonneg := Binary64.nearest_nonneg (neg_nonneg.2 hp)
        rwa [nearest_neg, neg_nonneg] at hnonneg
      exact hlow.trans (Binary64.nearest_nonneg hq)

/-! ### Of floats -/

namespace Binary64

theorem extended_ofRat_mono {p q : ℚ} (h : p ≤ q) : (ofRat p).extended ≤ (ofRat q).extended := by
  rw [ofRat, ofRat]
  split_ifs with hp hq hq
  · exact WithBot.coe_le_coe.2 (WithTop.coe_le_coe.2 (nearest_mono h))
  · have hpos : ¬ q < 0 := fun hneg => hq (by
      rw [abs_of_neg hneg]
      exact (neg_le_neg h).trans_lt ((neg_le_abs p).trans_lt hp))
    rw [decide_eq_false hpos]
    exact WithBot.coe_le_coe.2 le_top
  · have hneg : p < 0 := by
      by_contra hnot
      refine hp ?_
      rw [abs_of_nonneg (not_lt.1 hnot)]
      exact h.trans_lt ((le_abs_self q).trans_lt hq)
    rw [decide_eq_true hneg]
    exact bot_le
  · by_cases hneg : p < 0
    · rw [decide_eq_true hneg]
      exact bot_le
    · rw [decide_eq_false hneg, decide_eq_false fun hq => hneg (h.trans_lt hq)]

variable {x y c : Binary64}

theorem extended_le_infinite (x : Binary64) : x.extended ≤ (infinite false).extended :=
  match x with
  | finite _ _ => WithBot.coe_le_coe.2 le_top
  | infinite false => le_rfl
  | infinite true => bot_le
  | nan => bot_le

/-- What it takes for a float to be lower than another: it is at the bottom of the order, or the
other at its top, or both are finite. -/
theorem extended_le_cases (h : x.extended ≤ y.extended) :
    y = infinite false ∨ x = infinite true ∨ x = nan
      ∨ ∃ a ha b hb, x = finite a ha ∧ y = finite b hb ∧ a ≤ b := by
  rcases y with ⟨b, hb⟩ | (_ | _) | _
  · rcases x with ⟨a, ha⟩ | (_ | _) | _
    · exact .inr (.inr (.inr ⟨a, ha, b, hb, rfl, rfl,
        WithTop.coe_le_coe.1 (WithBot.coe_le_coe.1 h)⟩))
    · exact absurd (WithBot.coe_le_coe.1 h) (not_le.2 (WithTop.coe_lt_top b))
    · exact .inr (.inl rfl)
    · exact .inr (.inr (.inl rfl))
  · exact .inl rfl
  -- Nothing but the bottom itself is at most the bottom.
  all_goals
    rcases x with ⟨a, ha⟩ | (_ | _) | _
    · exact absurd (le_bot_iff.1 h) WithBot.coe_ne_bot
    · exact absurd (le_bot_iff.1 h) WithBot.coe_ne_bot
    · exact .inr (.inl rfl)
    · exact .inr (.inr (.inl rfl))

/-- What is computed by rounding is lower where it is lower before, at the infinities as among
finite numbers. -/
theorem extended_map_mono {f : Binary64 → Binary64} (hinfinite : ∀ b, f (infinite b) = infinite b)
    (hnan : f nan = nan)
    (hfinite : ∀ a ha b hb, a ≤ b → (f (finite a ha)).extended ≤ (f (finite b hb)).extended)
    (h : x.extended ≤ y.extended) : (f x).extended ≤ (f y).extended := by
  rcases extended_le_cases h with rfl | rfl | rfl | ⟨a, ha, b, hb, rfl, rfl, hle⟩
  · rw [hinfinite]
    exact extended_le_infinite _
  · rw [hinfinite]
    exact bot_le
  · rw [hnan]
    exact bot_le
  · exact hfinite a ha b hb hle

theorem extended_round_mono (decimals : ℕ) (h : x.extended ≤ y.extended) :
    (x.round decimals).extended ≤ (y.round decimals).extended :=
  extended_map_mono (f := round decimals) (fun _ => rfl) rfl
    (fun _ _ _ _ hle => extended_ofRat_mono (roundDecimals_mono decimals hle)) h

theorem extended_add_mono (hc : c.IsFinite) (h : x.extended ≤ y.extended) :
    (c + x).extended ≤ (c + y).extended := by
  obtain ⟨c, hc, rfl⟩ := hc
  exact extended_map_mono (f := add (finite c hc)) (fun _ => rfl) rfl
    (fun _ _ _ _ hle => extended_ofRat_mono (add_le_add le_rfl hle)) h

/-- A finite number above zero. -/
structure IsPositive (c : Binary64) : Prop where
  finite : c.IsFinite
  pos : 0 < c

theorem IsPositive.exists_eq (h : c.IsPositive) : ∃ value representable, 0 < value
    ∧ c = .finite value representable := by
  obtain ⟨value, representable, rfl⟩ := h.finite
  have hpos := h.pos
  rw [zero_eq] at hpos
  exact ⟨value, representable, of_decide_eq_true hpos, rfl⟩

theorem infinite_mul (hc : c.IsPositive) (negative : Bool) :
    infinite negative * c = infinite negative := by
  obtain ⟨value, representable, hpos, rfl⟩ := hc.exists_eq
  show (if value = 0 then nan else infinite (negative ^^ value < 0)) = _
  rw [if_neg hpos.ne', decide_eq_false hpos.not_gt, Bool.xor_false]

theorem nan_mul (c : Binary64) : nan * c = nan := rfl

theorem extended_mul_mono (hc : c.IsPositive) (h : x.extended ≤ y.extended) :
    (x * c).extended ≤ (y * c).extended := by
  refine extended_map_mono (f := (· * c)) (infinite_mul hc) (nan_mul c) (fun a _ b _ hle => ?_) h
  obtain ⟨value, representable, hpos, rfl⟩ := hc.exists_eq
  exact extended_ofRat_mono (mul_le_mul_of_nonneg_right hle hpos.le)

theorem extended_neg_anti (hx : x ≠ nan) (h : x.extended ≤ y.extended) :
    (-y).extended ≤ (-x).extended := by
  rcases extended_le_cases h with rfl | rfl | rfl | ⟨a, ha, b, hb, rfl, rfl, hle⟩
  · exact bot_le
  · exact extended_le_infinite _
  · exact absurd rfl hx
  · exact WithBot.coe_le_coe.2 (WithTop.coe_le_coe.2 (neg_le_neg hle))

/-! ### Thresholds -/

theorem ne_nan_of_lt (h : x < y) : x ≠ nan ∧ y ≠ nan := by
  change less x y = true at h
  constructor
  · rintro rfl
    cases h
  · rintro rfl
    rcases x with ⟨_, _⟩ | _ | _ <;> cases h

/-- What is lower than a number below the threshold is below it. -/
theorem lt_of_extended_le (hx : x ≠ nan) (h : x.extended ≤ y.extended) (hlt : y < c) : x < c := by
  obtain ⟨hy, hc⟩ := ne_nan_of_lt hlt
  exact (lt_iff_extended hx hc).2 (h.trans_lt ((lt_iff_extended hy hc).1 hlt))

theorem lt_of_lt_of_extended_le (hy : y ≠ nan) (hlt : c < x) (h : x.extended ≤ y.extended) :
    c < y := by
  obtain ⟨hc, hx⟩ := ne_nan_of_lt hlt
  exact (lt_iff_extended hc hy).2 (((lt_iff_extended hc hx).1 hlt).trans_le h)

theorem extended_le_of_not_lt (hx : x ≠ nan) (hy : y ≠ nan) (h : ¬ y < x) :
    x.extended ≤ y.extended :=
  not_lt.1 fun hlt => h ((lt_iff_extended hy hx).2 hlt)

theorem extended_minimum_mono (hc : c ≠ nan) (hx : x ≠ nan) (h : x.extended ≤ y.extended) :
    (c.minimum x).extended ≤ (c.minimum y).extended := by
  rw [minimum, minimum]
  split_ifs with hlow _ hother
  · exact h
  · exact ((lt_iff_extended hx hc).1 hlow).le
  · exact absurd (lt_of_extended_le hx h hother) hlow
  · exact le_rfl

theorem round_ne_nan (hx : x ≠ nan) (decimals : ℕ) : x.round decimals ≠ nan := by
  rcases x with ⟨_, _⟩ | _ | _
  · exact ofRat_ne_nan _
  · exact nofun
  · exact absurd rfl hx

theorem mul_ne_nan_of_isPositive (hx : x ≠ nan) (hc : c.IsPositive) : x * c ≠ nan := by
  rcases x with ⟨_, _⟩ | _ | _
  · obtain ⟨_, _, _, rfl⟩ := hc.exists_eq
    exact ofRat_ne_nan _
  · rw [infinite_mul hc]
    exact nofun
  · exact absurd rfl hx

theorem minimum_ne_nan (hc : c ≠ nan) (hx : x ≠ nan) : c.minimum x ≠ nan := by
  rw [minimum]
  split
  · exact hx
  · exact hc

/-- A number of so many decimals that is above one is at least the next one. -/
theorem succ_le_of_lt_round {decimals : ℕ} {k : ℤ}
    (h : ofRat (k / 10 ^ decimals) < x.round decimals) :
    (ofRat ((k + 1 : ℤ) / 10 ^ decimals)).extended ≤ (x.round decimals).extended := by
  rcases x with ⟨a, ha⟩ | (_ | _) | _
  · have hunits : k < units decimals a := by
      by_contra hnot
      have hle : ((units decimals a : ℤ) : ℚ) / 10 ^ decimals ≤ k / 10 ^ decimals := by
        have hcast : (units decimals a : ℚ) ≤ k := by exact_mod_cast not_lt.1 hnot
        gcongr
      have hlt := (lt_iff_extended (ofRat_ne_nan _) (ofRat_ne_nan _)).1 h
      exact hlt.not_ge (extended_ofRat_mono hle)
    refine extended_ofRat_mono ?_
    have hcast : ((k + 1 : ℤ) : ℚ) ≤ units decimals a := by exact_mod_cast hunits
    rw [roundDecimals]
    gcongr
  · exact extended_le_infinite _
  · change less (ofRat (k / 10 ^ decimals)) (infinite true) = true at h
    rcases hof : ofRat (k / 10 ^ decimals) with ⟨_, _⟩ | (_ | _) | _ <;> rw [hof] at h <;> cases h
  · exact absurd rfl (ne_nan_of_lt h).2

end Binary64

end Lib
