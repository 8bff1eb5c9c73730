import PersonalDevin.Agent.Bookings
import PersonalDevin.Lib.Binary64
import Mathlib.Data.Prod.Lex
import Mathlib.Order.WithBot

/-!
# The choice after repeated retries

`_select_best_decision` moves `retry_same` to the end of the candidates where the recent failures show
repeated retries, and then sorts them all by score and rank. The scores are those of the source here:
floats.
-/

namespace PersonalDevin.Agent

open Lib

instance : ScoreArith Binary64 where
  hundredths n := .ofRat (n / 100)
  ofNat n := .ofInt n
  add := (· + ·)
  sub := (· - ·)
  mul := (· * ·)
  div := (· / ·)
  less a b := a < b

theorem scoreLess_iff {a b : Binary64} : ScoreArith.less a b = true ↔ a < b := decide_eq_true_iff

/-! ### The best of the candidates -/

/-- A greater score is before a smaller one, and of equal scores the smaller rank. -/
def scoredKey (scored : Binary64 × Decision) : (WithBot (WithTop ℚ))ᵒᵈ ×ₗ ℕ :=
  toLex (OrderDual.toDual scored.1.extended, scored.2.rank)

theorem scoredBefore_iff {a b : Binary64 × Decision} (ha : a.1 ≠ .nan) (hb : b.1 ≠ .nan) :
    scoredBefore a b = true ↔ scoredKey a < scoredKey b := by
  have hless : ∀ {x y : Binary64}, x ≠ .nan → y ≠ .nan →
      (ScoreArith.less x y = true ↔ x.extended < y.extended) :=
    fun hx hy => scoreLess_iff.trans (Binary64.lt_iff_extended hx hy)
  rw [scoredKey, scoredKey, Prod.Lex.toLex_lt_toLex, scoredBefore, Bool.or_eq_true, Bool.and_eq_true,
    Bool.not_eq_true', ← Bool.not_eq_true, hless hb ha, hless ha hb, decide_eq_true_iff,
    OrderDual.toDual_lt_toDual]
  rcases lt_trichotomy a.1.extended b.1.extended with hlt | heq | hgt
  · simp [hlt, hlt.not_gt, hlt.ne]
  · simp [heq]
  · simp [hgt, hgt.ne']

/-- **What heads the sorted list**: none of the candidates is before it. -/
theorem bestScored_le {best : Binary64 × Decision} {rest : List (Binary64 × Decision)}
    (h : ∀ scored ∈ best :: rest, scored.1 ≠ .nan) :
    ∀ scored ∈ best :: rest, scoredKey (bestScored best rest) ≤ scoredKey scored := by
  induction rest generalizing best with
  | nil =>
      intro scored hmem
      rw [List.mem_singleton.1 hmem]
      exact le_rfl
  | cons first rest ih =>
      obtain ⟨hbest, hfirst, hrest⟩ :
          best.1 ≠ .nan ∧ first.1 ≠ .nan ∧ ∀ scored ∈ rest, scored.1 ≠ .nan := by
        simpa only [List.forall_mem_cons] using h
      rw [bestScored]
      by_cases hbefore : scoredBefore first best = true
      · rw [if_pos hbefore]
        have hleast := ih (List.forall_mem_cons.2 ⟨hfirst, hrest⟩)
        refine List.forall_mem_cons.2 ⟨?_, hleast⟩
        exact (hleast first List.mem_cons_self).trans ((scoredBefore_iff hfirst hbest).1 hbefore).le
      · rw [if_neg hbefore]
        obtain ⟨hhead, htail⟩ := List.forall_mem_cons.1 (ih (List.forall_mem_cons.2 ⟨hbest, hrest⟩))
        have hkey := not_lt.1 (mt (scoredBefore_iff hfirst hbest).2 hbefore)
        exact List.forall_mem_cons.2 ⟨hhead, List.forall_mem_cons.2 ⟨hhead.trans hkey, htail⟩⟩

/-! ### Scores -/

section Scores

variable {strategies : Strategies Binary64} {failureThreshold : ℤ} {attemptCount : ℕ}
  {pattern : String}

/-- The rates and confidences learned for a pattern are numbers. -/
def Strategies.Numeric (strategies : Strategies Binary64) (pattern : String) : Prop :=
  ∀ decision stats, strategies.entry? pattern decision = some stats →
    stats.successRate.IsFinite ∧ stats.confidence.IsFinite

theorem isFinite_hundredths {n : ℕ} (h : n ≤ 200) :
    (ScoreArith.hundredths n : Binary64).IsFinite := by
  have hle : (n : ℚ) / 100 ≤ 2 := by
    rw [div_le_iff₀ (by norm_num)]
    exact (Nat.cast_le.2 h).trans_eq (by norm_num)
  obtain ⟨value, hvalue, hfinite, -⟩ := Binary64.exists_ofRat_eq (q := (n : ℚ) / 100) (by
    rw [abs_of_nonneg (by positivity)]
    exact hle)
  exact ⟨value, hvalue, hfinite⟩

theorem Strategies.Numeric.entry (h : strategies.Numeric pattern) (decision : Decision) :
    (strategies.entry pattern decision).successRate.IsFinite
      ∧ (strategies.entry pattern decision).confidence.IsFinite := by
  rw [Strategies.entry]
  rcases hentry : strategies.entry? pattern decision with _ | stats
  · exact ⟨isFinite_hundredths (by decide), isFinite_hundredths (by decide)⟩
  · exact h decision stats hentry

/-- A penalty or a bonus is a number, of however many attempts. -/
theorem isFinite_capped (n : ℕ) {each cap : ℕ} (heach : each ≤ 200) (hcap : cap ≤ 200)
    (hpos : (0 : Binary64) < ScoreArith.hundredths each) :
    (minScore (ScoreArith.mul (ScoreArith.ofNat n) (ScoreArith.hundredths each))
      (ScoreArith.hundredths cap) : Binary64).IsFinite := by
  have hcap := isFinite_hundredths hcap
  have hproduct := Binary64.ofInt_mul_cases n (isFinite_hundredths heach) hpos
  unfold minScore
  split
  · exact hcap
  · rename_i hnot
    refine hproduct.resolve_right fun hinfinite => hnot ?_
    obtain ⟨c, hc, heq⟩ := hcap
    show decide (ScoreArith.hundredths cap < Binary64.ofInt n * ScoreArith.hundredths each) = true
    rw [hinfinite, heq]
    rfl

/-- A confidence that is raised or lowered by so many hundredths is a number. -/
theorem isFinite_shifted {confidence : Binary64} (h : confidence.IsFinite) {n : ℕ} (hn : n ≤ 50) :
    (ScoreArith.add confidence (ScoreArith.hundredths n)).IsFinite
      ∧ (ScoreArith.sub confidence (ScoreArith.hundredths n)).IsFinite := by
  have hhalf : ((n : ℚ) / 100) ≤ 1 / 2 := by
    rw [div_le_iff₀ (by norm_num)]
    exact (Nat.cast_le.2 hn).trans_eq (by norm_num)
  obtain ⟨value, hvalue, hfinite, hnear⟩ := Binary64.exists_ofRat_eq (q := (n : ℚ) / 100) (by
    rw [abs_of_nonneg (by positivity)]
    linarith)
  have hsmall : |value| ≤ 1 := by
    have hpos : (0 : ℚ) ≤ n / 100 := by positivity
    have hblur : (1 : ℚ) / 2 ^ 52 ≤ 1 / 2 := by norm_num
    obtain ⟨hlow, hhigh⟩ := abs_le.1 hnear
    exact abs_le.2 ⟨by linarith, by linarith⟩
  have hshift : (ScoreArith.hundredths n : Binary64) = .finite value hvalue := hfinite
  rw [hshift]
  constructor
  · refine Binary64.isFinite_add h ⟨_, _, rfl⟩ fun b _ heq => ?_
    exact Binary64.finite.inj heq ▸ hsmall
  · refine Binary64.isFinite_add h (Binary64.IsFinite.neg ⟨_, _, rfl⟩) fun b _ heq => ?_
    rw [← Binary64.finite.inj heq, abs_neg]
    exact hsmall

theorem isFinite_lowered {confidence : Binary64} (h : confidence.IsFinite) {n : ℕ} (hn : n ≤ 50) :
    (maxScore (ScoreArith.hundredths 10)
      (ScoreArith.sub confidence (ScoreArith.hundredths n))).IsFinite := by
  unfold maxScore
  split
  · exact (isFinite_shifted h hn).2
  · exact isFinite_hundredths (by decide)

/-- **Every score is a number, or beyond all of them**. -/
theorem decisionScore_ne_nan (h : strategies.Numeric pattern) (decision : Decision) :
    decisionScore strategies failureThreshold attemptCount pattern decision ≠ .nan := by
  obtain ⟨hrate, hconfidence⟩ := h.entry decision
  have hused : (if decision = .retrySame ∧ failureThreshold ≤ attemptCount then
      maxScore (ScoreArith.hundredths 10) (ScoreArith.sub
        (strategies.entry pattern decision).confidence (ScoreArith.hundredths 25))
      else (strategies.entry pattern decision).confidence).IsFinite := by
    split
    · exact isFinite_lowered hconfidence (by decide)
    · exact hconfidence
  have hprior : decision.prior ≤ 200 := by
    cases decision <;> decide
  have hbonus := isFinite_capped (strategies.entry pattern decision).successes
    (by decide : 3 ≤ 200) (by decide : 30 ≤ 200) (by decide +kernel)
  have hpenalty := isFinite_capped (strategies.entry pattern decision).attempts
    (by decide : 2 ≤ 200) (by decide : 20 ≤ 200) (by decide +kernel)
  refine Binary64.add_ne_nan (Binary64.add_ne_nan ?_ hbonus) hpenalty.neg
  exact Binary64.finite_add_ne_nan (isFinite_hundredths hprior) (Binary64.mul_ne_nan hrate hused)

/-- The score of a candidate, beside it. -/
def scoredDecision (strategies : Strategies Binary64) (failureThreshold : ℤ) (attemptCount : ℕ)
    (pattern : String) (decision : Decision) : Binary64 × Decision :=
  (decisionScore strategies failureThreshold attemptCount pattern decision, decision)

theorem rank_injOn_candidates {context : Fields} {retryable : Bool} {d d' : Decision}
    (hd : d ∈ candidates context pattern retryable) (hd' : d' ∈ candidates context pattern retryable)
    (h : d.rank = d'.rank) : d = d' := by
  have hmem : ∀ d ∈ candidates context pattern retryable,
      d ∈ [Decision.adjustPlan, .abort, .retrySame] := by
    unfold candidates
    split_ifs <;> decide
  have hrank : ∀ d ∈ [Decision.adjustPlan, .abort, .retrySame],
      ∀ d' ∈ [Decision.adjustPlan, .abort, .retrySame], d.rank = d'.rank → d = d' := by
    decide
  exact hrank d (hmem d hd) d' (hmem d' hd') h

/-- **The choice is the candidate of the best score and rank**, in whatever order the candidates come. -/
theorem selectBestDecision_eq_iff (h : strategies.Numeric pattern) (context : Fields)
    (retryable : Bool) (d : Decision) :
    selectBestDecision strategies failureThreshold attemptCount context pattern retryable = d
      ↔ d ∈ candidates context pattern retryable
        ∧ ∀ other ∈ candidates context pattern retryable,
          scoredKey (scoredDecision strategies failureThreshold attemptCount pattern d)
            ≤ scoredKey (scoredDecision strategies failureThreshold attemptCount pattern other) := by
  obtain ⟨first, rest, hcandidates⟩ := List.exists_cons_of_ne_nil
    (candidates_ne_nil context pattern retryable)
  have hleast := @bestScored_le
    (scoredDecision strategies failureThreshold attemptCount pattern first)
    (rest.map (scoredDecision strategies failureThreshold attemptCount pattern)) (by
      rw [← List.map_cons, List.forall_mem_map]
      exact fun d _ => decisionScore_ne_nan h d)
  have hmem := bestScored_mem (scoredDecision strategies failureThreshold attemptCount pattern first)
    (rest.map (scoredDecision strategies failureThreshold attemptCount pattern))
  rw [← List.map_cons, List.forall_mem_map, ← hcandidates] at hleast
  rw [← List.map_cons, ← hcandidates] at hmem
  obtain ⟨best, hbest, hscored⟩ := List.mem_map.1 hmem
  have hselect : selectBestDecision strategies failureThreshold attemptCount context pattern retryable
      = best := by
    rw [selectBestDecision, hcandidates]
    exact congrArg Prod.snd hscored.symm
  rw [← hscored] at hleast
  rw [hselect]
  constructor
  · rintro rfl
    exact ⟨hbest, hleast⟩
  · rintro ⟨hd, hleast'⟩
    have heq := le_antisymm (hleast d hd) (hleast' best hbest)
    exact rank_injOn_candidates hbest hd (congrArg (fun key => (ofLex key).2) heq)

theorem retrySame_mem_candidates_iff (context : Fields) (pattern : String) (retryable : Bool) :
    .retrySame ∈ candidates context pattern retryable
      ↔ pattern ≠ "invalid_plan" ∧ retryable = true := by
  unfold candidates
  split_ifs <;> simp [*]

/-- What `retry_same` has to be better than, where it is a candidate. -/
theorem forall_candidates_iff {context : Fields} {retryable : Bool}
    (hretry : .retrySame ∈ candidates context pattern retryable) (p : Decision → Prop) :
    (∀ other ∈ candidates context pattern retryable, p other)
      ↔ p .retrySame ∧ p .adjustPlan ∧ p .abort := by
  obtain ⟨hpattern, hretryable⟩ := (retrySame_mem_candidates_iff context pattern retryable).1 hretry
  rw [candidates, if_neg hpattern, if_pos hretryable]
  split_ifs
  · simp only [List.forall_mem_cons, List.not_mem_nil, false_imp_iff, implies_true, and_true]
    exact and_comm.trans and_assoc |>.trans ⟨fun ⟨a, b, c⟩ => ⟨b, c, a⟩, fun ⟨a, b, c⟩ => ⟨c, a, b⟩⟩
  · simp only [List.forall_mem_cons, List.not_mem_nil, false_imp_iff, implies_true, and_true]

/-- **When a repeated retry is not chosen again**: where it is no candidate, or another candidate has a
score that beats it. Moving it to the end of the candidates decides nothing. -/
theorem not_retried_iff (h : strategies.Numeric pattern) (failureThreshold : ℤ) (attemptCount : ℕ)
    (context : Fields) (retryable : Bool) :
    (2 ≤ countRecentPatternFailures context pattern .retrySame →
        selectBestDecision strategies failureThreshold attemptCount context pattern retryable
          ≠ .retrySame)
      ↔ countRecentPatternFailures context pattern .retrySame < 2
        ∨ pattern = "invalid_plan" ∨ retryable = false
        ∨ ¬ decisionScore strategies failureThreshold attemptCount pattern .adjustPlan
            < decisionScore strategies failureThreshold attemptCount pattern .retrySame
        ∨ decisionScore strategies failureThreshold attemptCount pattern .retrySame
            < decisionScore strategies failureThreshold attemptCount pattern .abort := by
  have hnan : ∀ decision,
      decisionScore strategies failureThreshold attemptCount pattern decision ≠ .nan :=
    decisionScore_ne_nan h
  -- The ranks decide between equal scores: first `adjust_plan`, then `retry_same`, then `abort`.
  have hadjust : scoredKey (scoredDecision strategies failureThreshold attemptCount pattern .retrySame)
        ≤ scoredKey (scoredDecision strategies failureThreshold attemptCount pattern .adjustPlan)
      ↔ decisionScore strategies failureThreshold attemptCount pattern .adjustPlan
          < decisionScore strategies failureThreshold attemptCount pattern .retrySame := by
    rw [← not_lt, ← scoredBefore_iff (hnan _) (hnan _)]
    simp only [scoredBefore, scoredDecision, Decision.rank, Nat.zero_lt_one, decide_true,
      Bool.and_true, Bool.or_eq_true, Bool.not_eq_true', ← Bool.not_eq_true, scoreLess_iff, not_or,
      not_not]
    exact and_iff_right_of_imp fun hlt hgt => Binary64.lt_irrefl _ (Binary64.lt_trans hlt hgt)
  have habort : scoredKey (scoredDecision strategies failureThreshold attemptCount pattern .retrySame)
        ≤ scoredKey (scoredDecision strategies failureThreshold attemptCount pattern .abort)
      ↔ ¬ decisionScore strategies failureThreshold attemptCount pattern .retrySame
          < decisionScore strategies failureThreshold attemptCount pattern .abort := by
    rw [← not_lt, ← scoredBefore_iff (hnan _) (hnan _)]
    simp [scoredBefore, scoredDecision, Decision.rank, scoreLess_iff]
  by_cases hretry : .retrySame ∈ candidates context pattern retryable
  · have hcandidate := (retrySame_mem_candidates_iff context pattern retryable).1 hretry
    rw [ne_eq, selectBestDecision_eq_iff h, and_iff_right hretry, forall_candidates_iff hretry,
      and_iff_right le_rfl, hadjust, habort]
    simp only [hcandidate.1, hcandidate.2, Bool.true_eq_false, false_or, not_and, not_not]
    rw [← not_le, imp_iff_not_or, imp_iff_not_or]
  · have hother : pattern = "invalid_plan" ∨ retryable = false := by
      by_contra hnot
      rw [not_or, Bool.not_eq_false] at hnot
      exact hretry ((retrySame_mem_candidates_iff context pattern retryable).2 hnot)
    refine iff_of_true (fun _ heq => hretry ?_) (.inr (or_assoc.1 (.inl hother)))
    exact ((selectBestDecision_eq_iff h context retryable _).1 heq).1

end Scores

/-! ### What is learned

The rates and confidences that the controller books and merges are numbers.
-/

/-- An entry of at most so many attempts. -/
structure StrategyStats.LearnedFrom (n : ℕ) (stats : StrategyStats Binary64) : Prop where
  attempts_le : stats.attempts ≤ n
  successes_le : stats.successes ≤ stats.attempts
  rate : stats.successRate.IsFinite
  confidence : stats.confidence.IsFinite

theorem isFinite_successRate {successes attempts : ℕ} (h : successes ≤ attempts) (hpos : 0 < attempts)
    (hfew : attempts < 2 ^ 53) :
    (ScoreArith.div (ScoreArith.ofNat successes) (ScoreArith.ofNat attempts) : Binary64).IsFinite := by
  have hexact : ∀ n : ℕ, n ≤ attempts → |(n : ℤ)| < 2 ^ 53 := by
    intro n hn
    rw [Nat.abs_cast]
    exact_mod_cast hn.trans_lt hfew
  have hne : ((attempts : ℤ) : ℚ) ≠ 0 := by exact_mod_cast hpos.ne'
  show (Binary64.ofInt successes / Binary64.ofInt attempts).IsFinite
  rw [Binary64.ofInt_eq_finite (hexact _ h), Binary64.ofInt_eq_finite (hexact _ le_rfl)]
  show (if ((attempts : ℤ) : ℚ) = 0 then _
    else Binary64.ofRat (((successes : ℤ) : ℚ) / ((attempts : ℤ) : ℚ))).IsFinite
  rw [if_neg hne, Int.cast_natCast, Int.cast_natCast]
  exact Binary64.isFinite_ratio h

theorem isFinite_updateConfidence {current : Binary64} (h : current.IsFinite) (decision : Decision)
    (success : Bool) : (updateConfidence current decision success).IsFinite := by
  unfold updateConfidence
  split
  · unfold minScore
    split
    · exact (isFinite_shifted h (by decide)).1
    · exact isFinite_hundredths (by decide)
  · dsimp only
    split
    · exact isFinite_lowered h (by decide)
    · exact isFinite_lowered h (by decide)
    · exact isFinite_lowered h (by decide)

theorem learnedFrom_initial (n : ℕ) : (StrategyStats.initial : StrategyStats Binary64).LearnedFrom n where
  attempts_le := Nat.zero_le n
  successes_le := le_rfl
  rate := isFinite_hundredths (by decide)
  confidence := isFinite_hundredths (by decide)

theorem StrategyStats.LearnedFrom.mono {n n' : ℕ} {stats : StrategyStats Binary64}
    (h : stats.LearnedFrom n) (hle : n ≤ n') : stats.LearnedFrom n' :=
  ⟨h.attempts_le.trans hle, h.successes_le, h.rate, h.confidence⟩

theorem StrategyStats.LearnedFrom.attempt {n : ℕ} {stats : StrategyStats Binary64}
    (h : stats.LearnedFrom n) (hfew : n + 1 < 2 ^ 53) (decision : Decision) (success : Bool) :
    (stats.attempt decision success).LearnedFrom (n + 1) := by
  have hattempts := h.attempts_le
  have hsuccesses : (if success then stats.successes + 1 else stats.successes) ≤ stats.attempts + 1 := by
    have hle := h.successes_le
    split
    · omega
    · omega
  refine ⟨Nat.succ_le_succ hattempts, hsuccesses, ?_, isFinite_updateConfidence h.confidence _ _⟩
  exact isFinite_successRate hsuccesses (Nat.succ_pos _) (by omega)

def Strategies.LearnedFrom (n : ℕ) (strategies : Strategies Binary64) : Prop :=
  ∀ pattern decision stats, strategies.entry? pattern decision = some stats → stats.LearnedFrom n

theorem Strategies.LearnedFrom.numeric {n : ℕ} {strategies : Strategies Binary64}
    (h : strategies.LearnedFrom n) (pattern : String) : strategies.Numeric pattern :=
  fun decision stats hentry => ⟨(h pattern decision stats hentry).rate,
    (h pattern decision stats hentry).confidence⟩

theorem learnedFrom_empty : Strategies.LearnedFrom 0 .empty := by
  intro pattern decision stats hentry
  cases hentry

theorem Strategies.LearnedFrom.mono {n n' : ℕ} {strategies : Strategies Binary64}
    (h : strategies.LearnedFrom n) (hle : n ≤ n') : strategies.LearnedFrom n' :=
  fun pattern decision stats hentry => (h pattern decision stats hentry).mono hle

theorem Strategies.LearnedFrom.update {n : ℕ} {strategies : Strategies Binary64}
    (h : strategies.LearnedFrom n) (hfew : n + 1 < 2 ^ 53) (pattern : String) (decision : Decision)
    (success : Bool) : (strategies.update pattern decision success).LearnedFrom (n + 1) := by
  intro pattern' decision' stats hentry
  rw [Strategies.update, Strategies.entry?_put] at hentry
  split at hentry
  · obtain rfl := Option.some.inj hentry
    refine StrategyStats.LearnedFrom.attempt ?_ hfew decision success
    rw [Strategies.entry]
    rcases hold : strategies.entry? pattern decision with _ | old
    · exact learnedFrom_initial n
    · exact h pattern decision old hold
  · exact (h pattern' decision' stats hentry).mono (Nat.le_succ n)

theorem Strategies.LearnedFrom.learnRecords {n : ℕ} {strategies : Strategies Binary64}
    (h : strategies.LearnedFrom n) {records : List Value} (hfew : n + records.length < 2 ^ 53) :
    Strategies.LearnedFrom (n + records.length) (records.foldl learnRecord strategies) := by
  induction records generalizing n strategies with
  | nil => exact h
  | cons record rest ih =>
      rw [List.length_cons] at hfew ⊢
      have hfirst : Strategies.LearnedFrom (n + 1) (learnRecord strategies record) := by
        have hkeep : strategies.LearnedFrom (n + 1) := h.mono (Nat.le_succ n)
        unfold learnRecord
        split
        · dsimp only
          split
          · exact hkeep
          · exact h.update (by omega) _ _ _
        · exact hkeep
      rw [Nat.add_comm rest.length 1, ← Nat.add_assoc] at hfew ⊢
      exact ih hfirst hfew

theorem Strategies.LearnedFrom.merge {n : ℕ} {strategies incoming : Strategies Binary64}
    (h : strategies.LearnedFrom n) (h' : incoming.LearnedFrom n) :
    (strategies.merge incoming).LearnedFrom n := by
  intro pattern decision stats hentry
  rw [Strategies.entry?_merge, Option.or_eq_some_iff] at hentry
  rcases hentry with hlive | ⟨-, hincoming⟩
  · exact h pattern decision stats hlive
  · exact h' pattern decision stats hincoming

/-- **What a run starts with is learned**: the statistics of the controller, with those rebuilt of the
records in its context. -/
theorem Strategies.LearnedFrom.started {n : ℕ} {strategies : Strategies Binary64}
    (h : strategies.LearnedFrom n) {context : Fields} {recent : List Value}
    (hrecent : context.get? "recent" = some (.list recent)) (hfew : recent.length < 2 ^ 53) :
    (strategies.merge (buildStrategyStats context)).LearnedFrom (n + recent.length) := by
  have hrebuilt : Strategies.LearnedFrom recent.length (buildStrategyStats context) := by
    rw [buildStrategyStats, hrecent]
    exact Nat.zero_add recent.length ▸
      learnedFrom_empty.learnRecords ((Nat.zero_add recent.length).symm ▸ hfew)
  exact (Strategies.LearnedFrom.mono h (Nat.le_add_right _ _)).merge
    (hrebuilt.mono (Nat.le_add_left _ _))

/-! ### After two failed retries -/

def failedRetry : Value :=
  .dict [("strategy_pattern", .str "runtime_error"), ("decision", .str "retry_same"),
    ("classification", .dict [("error_type", .str "runtime_error")]), ("success", .bool false)]

def retriedTwice : Fields :=
  [("recent", .list [failedRetry, failedRetry]), ("recent_failures", .list [failedRetry, failedRetry])]

def nothingLearned : Strategies Binary64 := .empty

/-- What the controller has learned of the two failures. -/
def learnedTwice : Strategies Binary64 :=
  (nothingLearned.update "runtime_error" .retrySame false).update "runtime_error" .retrySame false

/-- What it has after a restart. -/
def rebuiltTwice : Strategies Binary64 := learnedTwice.merge (buildStrategyStats retriedTwice)

theorem numeric_rebuiltTwice (pattern : String) : rebuiltTwice.Numeric pattern :=
  have hlearned : learnedTwice.LearnedFrom 2 :=
    Strategies.LearnedFrom.update (learnedFrom_empty.update (by decide) _ _ _) (by decide) _ _ _
  have hstarted : rebuiltTwice.LearnedFrom (2 + [failedRetry, failedRetry].length) :=
    hlearned.started rfl (by decide)
  hstarted.numeric pattern

theorem retriedTwice_not_retried_iff :
    (2 ≤ countRecentPatternFailures retriedTwice "runtime_error" .retrySame →
        selectBestDecision rebuiltTwice 3 2 retriedTwice "runtime_error" true ≠ .retrySame)
      ↔ countRecentPatternFailures retriedTwice "runtime_error" .retrySame < 2
        ∨ "runtime_error" = "invalid_plan" ∨ true = false
        ∨ ¬ decisionScore rebuiltTwice 3 2 "runtime_error" .adjustPlan
            < decisionScore rebuiltTwice 3 2 "runtime_error" .retrySame
        ∨ decisionScore rebuiltTwice 3 2 "runtime_error" .retrySame
            < decisionScore rebuiltTwice 3 2 "runtime_error" .abort :=
  not_retried_iff (numeric_rebuiltTwice _) 3 2 retriedTwice true

/-- Two penalties leave `retry_same` a score of 0.56, and `adjust_plan` has 0.55. -/
theorem learnedTwice_retries_again :
    2 ≤ countRecentPatternFailures retriedTwice "runtime_error" .retrySame
      ∧ selectBestDecision learnedTwice 3 2 retriedTwice "runtime_error" true = .retrySame := by
  decide +kernel

end PersonalDevin.Agent
