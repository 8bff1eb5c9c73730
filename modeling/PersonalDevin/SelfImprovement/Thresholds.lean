import PersonalDevin.Lib.FloatOrder
import PersonalDevin.SelfImprovement.Policy

/-!
# What the thresholds come to

A pattern has a confidence, an adaptation a share of it, and the policy lets pass what is not below
its threshold: floats, rounded in every step. Each step is monotone, so the values on both sides of
the threshold tell which patterns lead to an adaptation that passes.
-/

namespace PersonalDevin.SelfImprovement

open Lib
open Patterns
open AdaptationPolicy (defaultPolicy)

/-! ### Rules -/

namespace Patterns.Rule

def actionType : Rule → ImprovementType
  | retry => .adjustPolicy
  | guard => .increaseConfidence
  | timeout => .changeStrategy
  | strategy => .changeStrategy
  | policy => .adjustPolicy

def target : Rule → String
  | retry => "retry_limit"
  | guard => "policy_gate"
  | timeout => "timeout"
  | strategy => "execution_strategy"
  | policy => "confidence_threshold"

/-- What is left of the confidence in the pattern. -/
def share : Rule → Binary64
  | retry => .ofRat (95 / 100)
  | guard => .ofRat (85 / 100)
  | timeout => .ofRat (9 / 10)
  | strategy => .ofRat (9 / 10)
  | policy => .ofRat (8 / 10)

theorem target_injective {r r' : Rule} (h : r.target = r'.target) : r = r' := by
  cases r <;> cases r' <;> first | rfl | exact absurd h (by decide)

theorem isPositive_share (rule : Rule) : rule.share.IsPositive where
  finite := by
    cases rule <;> exact Binary64.isFinite_ofRat (le_trans (by norm_num) Binary64.one_le_largest)
  pos := by cases rule <;> decide +kernel

/-- The confidence in the adaptation, by the one in the pattern. -/
def score (rule : Rule) (confidence : Binary64) : Binary64 := (confidence * rule.share).round 4

theorem score_mono (rule : Rule) {x y : Binary64} (h : x.extended ≤ y.extended) :
    (rule.score x).extended ≤ (rule.score y).extended :=
  Binary64.extended_round_mono 4 (Binary64.extended_mul_mono rule.isPositive_share h)

theorem score_ne_nan (rule : Rule) {x : Binary64} (h : x ≠ .nan) : rule.score x ≠ .nan :=
  Binary64.round_ne_nan (Binary64.mul_ne_nan_of_isPositive h rule.isPositive_share) 4

end Patterns.Rule

/-! ### Confidences -/

namespace Patterns

/-- The confidence in a pattern of an error that occurs so often. -/
def errorConfidence (count : ℕ) : Binary64 :=
  (Binary64.ofRat (95 / 100)).minimum
    ((Binary64.ofRat (5 / 10) + Binary64.ratio count 10).round 4)

/-- The confidence in the pattern of so many slow executions. -/
def latencyConfidence (count : ℕ) : Binary64 :=
  ((Binary64.ofRat (9 / 10)).minimum
    (Binary64.ofRat (6 / 10) + Binary64.ratio count 20)).round 4

/-- The confidence in the pattern of a low average rate. -/
def rateConfidence (rate : Binary64) : Binary64 :=
  ((Binary64.ofRat (9 / 10)).minimum (1 - rate)).round 4

theorem isFinite_tenths {q : ℚ} (h : |q| ≤ 1) : (Binary64.ofRat q).IsFinite :=
  Binary64.isFinite_ofRat (h.trans Binary64.one_le_largest)

theorem extended_ratio_mono (total : ℕ) {m n : ℕ} (h : m ≤ n) :
    (Binary64.ratio m total).extended ≤ (Binary64.ratio n total).extended :=
  Binary64.extended_ofRat_mono (div_le_div_of_nonneg_right (by exact_mod_cast h)
    (Nat.cast_nonneg total))

theorem errorConfidence_mono {m n : ℕ} (h : m ≤ n) :
    (errorConfidence m).extended ≤ (errorConfidence n).extended := by
  have hhalf : (Binary64.ofRat (5 / 10)).IsFinite := isFinite_tenths (by norm_num)
  have hsum := Binary64.extended_add_mono hhalf (extended_ratio_mono 10 h)
  refine Binary64.extended_minimum_mono (Binary64.ofRat_ne_nan _) ?_
    (Binary64.extended_round_mono 4 hsum)
  exact Binary64.round_ne_nan (Binary64.finite_add_ne_nan hhalf (Binary64.ofRat_ne_nan _)) 4

theorem errorConfidence_ne_nan (count : ℕ) : errorConfidence count ≠ .nan := by
  have hhalf : (Binary64.ofRat (5 / 10)).IsFinite := isFinite_tenths (by norm_num)
  exact Binary64.minimum_ne_nan (Binary64.ofRat_ne_nan _) (Binary64.round_ne_nan
    (Binary64.finite_add_ne_nan hhalf (Binary64.ofRat_ne_nan _)) 4)

theorem latencyConfidence_mono {m n : ℕ} (h : m ≤ n) :
    (latencyConfidence m).extended ≤ (latencyConfidence n).extended := by
  have hbase : (Binary64.ofRat (6 / 10)).IsFinite := isFinite_tenths (by norm_num)
  have hsum := Binary64.extended_add_mono hbase (extended_ratio_mono 20 h)
  refine Binary64.extended_round_mono 4 (Binary64.extended_minimum_mono (Binary64.ofRat_ne_nan _)
    ?_ hsum)
  exact Binary64.finite_add_ne_nan hbase (Binary64.ofRat_ne_nan _)

theorem sub_ne_nan {x y : Binary64} (hx : x.IsFinite) (hy : y ≠ .nan) : x - y ≠ .nan := by
  refine Binary64.finite_add_ne_nan hx ?_
  rcases y with ⟨_, _⟩ | _ | _
  · exact nofun
  · exact nofun
  · exact absurd rfl hy

theorem isFinite_one : (1 : Binary64).IsFinite := isFinite_tenths (by norm_num)

theorem rateConfidence_ne_nan {rate : Binary64} (h : rate ≠ .nan) : rateConfidence rate ≠ .nan :=
  Binary64.round_ne_nan (Binary64.minimum_ne_nan (Binary64.ofRat_ne_nan _)
    (sub_ne_nan isFinite_one h)) 4

theorem rateConfidence_anti {rate rate' : Binary64} (hrate : rate ≠ .nan) (hrate' : rate' ≠ .nan)
    (h : rate.extended ≤ rate'.extended) :
    (rateConfidence rate').extended ≤ (rateConfidence rate).extended := by
  have hsub : (1 - rate').extended ≤ (1 - rate).extended :=
    Binary64.extended_add_mono isFinite_one (Binary64.extended_neg_anti hrate h)
  exact Binary64.extended_round_mono 4 (Binary64.extended_minimum_mono (Binary64.ofRat_ne_nan _)
    (sub_ne_nan isFinite_one hrate') hsub)

/-! ### Where the thresholds are -/

def Passes (score : Binary64) : Prop := ¬ score < defaultPolicy.confidenceThreshold

instance (score : Binary64) : Decidable (Passes score) := inferInstanceAs (Decidable (¬ _))

theorem Passes.mono {score score' : Binary64} (h : Passes score) (hscore : score ≠ .nan)
    (hle : score.extended ≤ score'.extended) : Passes score' :=
  fun hlow => h (Binary64.lt_of_extended_le hscore hle hlow)

theorem passes_retry {count : ℕ} (h : 2 ≤ count) :
    Passes (Rule.retry.score (errorConfidence count)) := by
  have htwo : Passes (Rule.retry.score (errorConfidence 2)) := by decide +kernel
  exact htwo.mono (Rule.score_ne_nan _ (errorConfidence_ne_nan 2))
    (Rule.score_mono _ (errorConfidence_mono h))

theorem passes_guard_iff {count : ℕ} (h : 2 ≤ count) :
    Passes (Rule.guard.score (errorConfidence count)) ↔ 3 ≤ count := by
  constructor
  · intro hpasses
    by_contra hnot
    obtain rfl : count = 2 := by omega
    revert hpasses
    decide +kernel
  · intro hthree
    have hpasses : Passes (Rule.guard.score (errorConfidence 3)) := by decide +kernel
    exact hpasses.mono (Rule.score_ne_nan _ (errorConfidence_ne_nan 3))
      (Rule.score_mono _ (errorConfidence_mono hthree))

theorem passes_timeout_iff {count : ℕ} (h : 1 ≤ count) :
    Passes (Rule.timeout.score (latencyConfidence count)) ↔ 2 ≤ count := by
  constructor
  · intro hpasses
    by_contra hnot
    obtain rfl : count = 1 := by omega
    revert hpasses
    decide +kernel
  · intro htwo
    have hpasses : Passes (Rule.timeout.score (latencyConfidence 2)) := by decide +kernel
    have hnumber : Rule.timeout.score (latencyConfidence 2) ≠ .nan := by decide +kernel
    exact hpasses.mono hnumber (Rule.score_mono _ (latencyConfidence_mono htwo))

/-- A score that crosses the threshold between two neighboring rates of four decimals. -/
theorem passes_rate_iff (rule : Rule) (k : ℤ)
    (hpasses : Passes (rule.score (rateConfidence (.ofRat (k / 10 ^ 4)))))
    (hfails : ¬ Passes (rule.score (rateConfidence (.ofRat ((k + 1 : ℤ) / 10 ^ 4)))))
    (hnan : Passes (rule.score (rateConfidence .nan))) (rate : Binary64) :
    Passes (rule.score (rateConfidence (rate.round 4)))
      ↔ ¬ Binary64.ofRat (k / 10 ^ 4) < rate.round 4 := by
  by_cases hrate : rate.round 4 = .nan
  · rw [hrate]
    refine iff_of_true hnan fun hlt => (Binary64.ne_nan_of_lt hlt).2 rfl
  · constructor
    · intro hpass hlt
      have hle := Binary64.succ_le_of_lt_round hlt
      refine hfails (hpass.mono (rule.score_ne_nan (rateConfidence_ne_nan hrate)) ?_)
      exact rule.score_mono (rateConfidence_anti (Binary64.ofRat_ne_nan _) hrate hle)
    · intro hnot
      have hle := Binary64.extended_le_of_not_lt hrate (Binary64.ofRat_ne_nan _) hnot
      refine hpasses.mono (rule.score_ne_nan (rateConfidence_ne_nan (Binary64.ofRat_ne_nan _))) ?_
      exact rule.score_mono (rateConfidence_anti hrate (Binary64.ofRat_ne_nan _) hle)

theorem passes_strategy_iff (rate : Binary64) :
    Passes (Rule.strategy.score (rateConfidence (rate.round 4)))
      ↔ ¬ Binary64.ofRat (3333 / 10 ^ 4) < rate.round 4 :=
  passes_rate_iff .strategy 3333 (by decide +kernel) (by decide +kernel) (by decide +kernel) rate

theorem passes_policy_iff (rate : Binary64) :
    Passes (Rule.policy.score (rateConfidence (rate.round 4)))
      ↔ ¬ Binary64.ofRat (2500 / 10 ^ 4) < rate.round 4 :=
  passes_rate_iff .policy 2500 (by decide +kernel) (by decide +kernel) (by decide +kernel) rate

/-- Of two errors that recur, the one with the higher score is the more frequent one, up to five
times. -/
theorem min_count_le_of_not_lt (rule : Rule) (hrule : rule = .retry ∨ rule = .guard) {m n : ℕ}
    (hm : 2 ≤ m) (h : ¬ rule.score (errorConfidence m) < rule.score (errorConfidence n)) :
    min n 5 ≤ min m 5 := by
  by_contra hnot
  have hless : m + 1 ≤ n := by omega
  have hstep : rule.score (errorConfidence m) < rule.score (errorConfidence (m + 1)) := by
    obtain rfl | rfl | rfl : m = 2 ∨ m = 3 ∨ m = 4 := by omega
    all_goals rcases hrule with rfl | rfl <;> decide +kernel
  exact h (Binary64.lt_of_lt_of_extended_le (rule.score_ne_nan (errorConfidence_ne_nan n)) hstep
    (rule.score_mono (errorConfidence_mono hless)))

/-! ### The patterns of a detection -/

variable {py : Patterns.Interpreter} {executions : List Patterns.ExecutionRecord}
  {failures : List FailureRecord}

/-- The executions that took longer than three seconds. -/
def slow (executions : List Patterns.ExecutionRecord) : List Patterns.ExecutionRecord :=
  executions.filter fun execution => decide (3 < execution.latency)

theorem mem_repeatedFailures_iff {pattern : Pattern} :
    pattern ∈ repeatedFailures py failures ↔ ∃ error, Recurs failures error
      ∧ repeatedFailure py error ((errorsOf failures).count error) = some pattern := by
  simp only [repeatedFailures, List.mem_filterMap, Prod.exists, mem_sortedCounts_iff]
  constructor
  · rintro ⟨error, _, ⟨-, rfl⟩, hpattern⟩
    refine ⟨error, ?_, hpattern⟩
    by_contra hfew
    rw [repeatedFailure, if_pos (not_le.1 hfew)] at hpattern
    cases hpattern
  · rintro ⟨error, hrecurs, hpattern⟩
    have hpos : 0 < (errorsOf failures).count error := lt_of_lt_of_le (by decide) hrecurs
    exact ⟨error, _, ⟨List.count_pos_iff.1 hpos, rfl⟩, hpattern⟩

theorem mem_repeatedFailures {pattern : Pattern} (h : pattern ∈ repeatedFailures py failures) :
    ∃ error, Recurs failures error ∧ pattern.patternId = errorPatternId py error
      ∧ pattern.confidence = errorConfidence ((errorsOf failures).count error) := by
  obtain ⟨error, hrecurs, hpattern⟩ := mem_repeatedFailures_iff.1 h
  rw [repeatedFailure, if_neg (not_lt.2 hrecurs)] at hpattern
  obtain rfl := Option.some.inj hpattern
  exact ⟨error, hrecurs, rfl, rfl⟩

theorem exists_of_recurs (py : Patterns.Interpreter) {error : String} (h : Recurs failures error) :
    ∃ pattern ∈ repeatedFailures py failures,
      pattern.confidence = errorConfidence ((errorsOf failures).count error) := by
  obtain ⟨pattern, hpattern⟩ : ∃ pattern,
      repeatedFailure py error ((errorsOf failures).count error) = some pattern := by
    rw [repeatedFailure, if_neg (not_lt.2 h)]
    exact ⟨_, rfl⟩
  have hmem := mem_repeatedFailures_iff.2 ⟨error, h, hpattern⟩
  rw [repeatedFailure, if_neg (not_lt.2 h)] at hpattern
  obtain rfl := Option.some.inj hpattern
  exact ⟨_, hmem, rfl⟩

theorem mem_repeatedFailures_confidence (c : Binary64) :
    c ∈ (repeatedFailures py failures).map Pattern.confidence
      ↔ ∃ error, Recurs failures error ∧ c = errorConfidence ((errorsOf failures).count error) := by
  rw [List.mem_map]
  constructor
  · rintro ⟨pattern, hmem, rfl⟩
    obtain ⟨error, hrecurs, -, hconfidence⟩ := mem_repeatedFailures hmem
    exact ⟨error, hrecurs, hconfidence⟩
  · rintro ⟨error, hrecurs, rfl⟩
    exact exists_of_recurs py hrecurs

theorem highLatency_confidences :
    (highLatency py executions).map Pattern.confidence
      = if slow executions = [] then [] else [latencyConfidence (slow executions).length] := by
  have hempty : (slow executions).isEmpty = decide (slow executions = []) := by
    cases slow executions <;> rfl
  unfold highLatency
  show List.map _ (if (slow executions).isEmpty then _ else _) = _
  rw [hempty]
  by_cases hslow : slow executions = []
  · rw [if_pos (decide_eq_true hslow), if_pos hslow]
    rfl
  · rw [if_neg (by rwa [decide_eq_true_eq]), if_neg hslow]
    rfl

theorem mem_highLatency_confidence (c : Binary64) :
    c ∈ (highLatency py executions).map Pattern.confidence
      ↔ slow executions ≠ [] ∧ c = latencyConfidence (slow executions).length := by
  rw [highLatency_confidences]
  split <;> simp [*]

/-- The executions have the rates, and on the average they are below the threshold. -/
structure LowOnAverage (py : Patterns.Interpreter) (executions : List Patterns.ExecutionRecord)
    (rates : List Binary64) : Prop where
  some : executions ≠ []
  read : executions.mapM ExecutionRecord.successRate = .ok rates
  below : (Binary64.ofRat (7 / 10)).atMost (average py rates) = false

theorem mem_lowSuccessRate_confidence {low : List Pattern} (h : lowSuccessRate py executions = .ok low)
    (c : Binary64) : c ∈ low.map Pattern.confidence
      ↔ ∃ rates, LowOnAverage py executions rates ∧ c = rateConfidence (average py rates) := by
  unfold lowSuccessRate at h
  split at h
  · rename_i hnone
    cases h
    refine iff_of_false List.not_mem_nil ?_
    rintro ⟨_, hlow, -⟩
    exact hlow.some (List.isEmpty_iff.1 hnone)
  · rename_i hsome
    obtain ⟨rates, hrates, h⟩ := except_bind_eq_ok_iff.1 h
    dsimp only at h
    split at h
    · rename_i hhigh
      cases h
      refine iff_of_false List.not_mem_nil ?_
      rintro ⟨rates', hlow, -⟩
      obtain rfl : rates = rates' := Except.ok.inj (hrates.symm.trans hlow.read)
      cases hhigh.symm.trans hlow.below
    · rename_i hlow
      cases h
      have hlow : LowOnAverage py executions rates :=
        ⟨fun hnil => hsome (List.isEmpty_iff.2 hnil), hrates, Bool.eq_false_iff.2 hlow⟩
      refine List.mem_singleton.trans ⟨fun hc => ⟨rates, hlow, hc⟩, ?_⟩
      rintro ⟨rates', hlow', hc⟩
      obtain rfl : rates = rates' := Except.ok.inj (hrates.symm.trans hlow'.read)
      exact hc

/-- A pattern of the kind is seen with the confidence. -/
def Seen (py : Patterns.Interpreter) (executions : List Patterns.ExecutionRecord)
    (failures : List FailureRecord) (c : Binary64) : PatternKind → Prop
  | .repeatedFailure => ∃ error, Recurs failures error
      ∧ c = errorConfidence ((errorsOf failures).count error)
  | .highLatency => slow executions ≠ [] ∧ c = latencyConfidence (slow executions).length
  | .lowSuccessRate => ∃ rates, LowOnAverage py executions rates
      ∧ c = rateConfidence (average py rates)

/-- What the detection rule for a kind finds, where the one for low rates finds `low`. -/
def foundBy (py : Patterns.Interpreter) (executions : List Patterns.ExecutionRecord)
    (failures : List FailureRecord) (low : List Pattern) : PatternKind → List Pattern
  | .repeatedFailure => repeatedFailures py failures
  | .highLatency => highLatency py executions
  | .lowSuccessRate => low

theorem kind_of_mem_foundBy {low : List Pattern} (hlow : lowSuccessRate py executions = .ok low)
    (kind : PatternKind) {pattern : Pattern}
    (hmem : pattern ∈ foundBy py executions failures low kind) : pattern.kind = kind := by
  cases kind with
  | repeatedFailure => exact (repeatedFailures_named failures pattern hmem).2
  | highLatency => exact ((highLatency_atMostOne executions).named pattern hmem).2
  | lowSuccessRate => exact ((lowSuccessRate_atMostOne hlow).named pattern hmem).2

/-- The patterns of each kind are what the detection rule for it finds. -/
theorem mem_detect {patterns : List Pattern} (h : detect py executions failures = .ok patterns) :
    ∃ low, lowSuccessRate py executions = .ok low ∧ ∀ pattern,
      pattern ∈ patterns ↔ pattern ∈ foundBy py executions failures low pattern.kind := by
  obtain ⟨low, hlow, h⟩ := except_bind_eq_ok_iff.1 h
  cases h
  refine ⟨low, hlow, fun pattern => ?_⟩
  have hkind : ∀ kind, pattern ∈ foundBy py executions failures low kind → pattern.kind = kind :=
    fun kind => kind_of_mem_foundBy hlow kind
  rw [List.mem_insertionSort, List.mem_append, List.mem_append]
  constructor
  · rintro ((hmem | hmem) | hmem)
    · rwa [hkind .repeatedFailure hmem]
    · rwa [hkind .highLatency hmem]
    · rwa [hkind .lowSuccessRate hmem]
  · intro hmem
    cases hkind : pattern.kind <;> rw [hkind] at hmem
    · exact .inl (.inl hmem)
    · exact .inl (.inr hmem)
    · exact .inr hmem

theorem exists_error_of_mem {patterns : List Pattern}
    (h : detect py executions failures = .ok patterns) {pattern : Pattern}
    (hmem : pattern ∈ patterns) (hkind : pattern.kind = .repeatedFailure) :
    ∃ error, Recurs failures error ∧ pattern.patternId = errorPatternId py error
      ∧ pattern.confidence = errorConfidence ((errorsOf failures).count error) := by
  obtain ⟨low, -, hdetect⟩ := mem_detect h
  rw [hdetect, hkind] at hmem
  exact mem_repeatedFailures hmem

/-- **The patterns of a detection**, by their kinds and confidences. -/
theorem exists_pattern_iff {patterns : List Pattern}
    (h : detect py executions failures = .ok patterns) (kind : PatternKind) (c : Binary64) :
    (∃ pattern ∈ patterns, pattern.kind = kind ∧ pattern.confidence = c)
      ↔ Seen py executions failures c kind := by
  obtain ⟨low, hlow, hdetect⟩ := mem_detect h
  have hfound : (∃ pattern ∈ patterns, pattern.kind = kind ∧ pattern.confidence = c)
      ↔ c ∈ (foundBy py executions failures low kind).map Pattern.confidence := by
    rw [List.mem_map]
    constructor
    · rintro ⟨pattern, hmem, rfl, hconfidence⟩
      exact ⟨pattern, (hdetect pattern).1 hmem, hconfidence⟩
    · rintro ⟨pattern, hmem, hconfidence⟩
      obtain rfl := kind_of_mem_foundBy hlow kind hmem
      exact ⟨pattern, (hdetect pattern).2 hmem, rfl, hconfidence⟩
  rw [hfound]
  cases kind with
  | repeatedFailure => exact mem_repeatedFailures_confidence c
  | highLatency => exact mem_highLatency_confidence c
  | lowSuccessRate => exact mem_lowSuccessRate_confidence hlow c

/-! ### What speaks for a rule -/

def Rule.kind : Rule → PatternKind
  | retry => .repeatedFailure
  | guard => .repeatedFailure
  | timeout => .highLatency
  | strategy => .lowSuccessRate
  | policy => .lowSuccessRate

theorem mem_rulesFor_iff {rule : Rule} {kind : PatternKind} :
    rule ∈ rulesFor kind ↔ kind = rule.kind := by
  cases rule <;> cases kind <;> decide

/-- The executions have rates, and their average is not above the limit. -/
def RateUpTo (py : Patterns.Interpreter) (executions : List Patterns.ExecutionRecord)
    (limit : Binary64) : Prop :=
  executions ≠ [] ∧ ∃ rates, executions.mapM ExecutionRecord.successRate = .ok rates
    ∧ ¬ limit < average py rates

/-- What the memory has to hold for an adaptation of the rule to be approved. -/
def Evidence (py : Patterns.Interpreter) (executions : List Patterns.ExecutionRecord)
    (failures : List FailureRecord) : Rule → Prop
  | .retry => ∃ error, 2 ≤ (errorsOf failures).count error
  | .guard => ∃ error, 3 ≤ (errorsOf failures).count error
  | .timeout => 2 ≤ (slow executions).length
  | .strategy => RateUpTo py executions (.ofRat (3333 / 10 ^ 4))
  | .policy => RateUpTo py executions (.ofRat (2500 / 10 ^ 4))

theorem exists_low_iff {limit : Binary64} (hlimit : limit < .ofRat (7 / 10)) :
    (∃ rates, LowOnAverage py executions rates ∧ ¬ limit < average py rates)
      ↔ RateUpTo py executions limit := by
  constructor
  · rintro ⟨rates, hlow, hnot⟩
    exact ⟨hlow.some, rates, hlow.read, hnot⟩
  · rintro ⟨hsome, rates, hread, hnot⟩
    refine ⟨rates, ⟨hsome, hread, ?_⟩, hnot⟩
    by_contra hhigh
    rcases Bool.or_eq_true_iff.1 (Bool.not_eq_false _ ▸ hhigh) with hless | hsame
    · exact hnot (Binary64.lt_trans hlimit hless)
    · exact hnot (Binary64.lt_of_lt_of_same hlimit (Binary64.same_comm _ _ ▸ hsame))

/-- A rule for low rates whose score passes up to a limit passes up to it on the average. -/
theorem exists_passing_low_iff {rule : Rule} {limit : Binary64} (hlimit : limit < .ofRat (7 / 10))
    (hpasses : ∀ rate : Binary64,
      Passes (rule.score (rateConfidence (rate.round 4))) ↔ ¬ limit < rate.round 4) :
    (∃ c, Seen py executions failures c .lowSuccessRate ∧ Passes (rule.score c))
      ↔ RateUpTo py executions limit := by
  rw [← exists_low_iff hlimit]
  constructor
  · rintro ⟨_, ⟨rates, hlow, rfl⟩, hpass⟩
    exact ⟨rates, hlow, (hpasses _).1 hpass⟩
  · rintro ⟨rates, hlow, hnot⟩
    exact ⟨_, ⟨rates, hlow, rfl⟩, (hpasses _).2 hnot⟩

theorem exists_passing_seen_iff (rule : Rule) :
    (∃ c, Seen py executions failures c rule.kind ∧ Passes (rule.score c))
      ↔ Evidence py executions failures rule := by
  cases rule with
  | retry =>
      constructor
      · rintro ⟨_, ⟨error, hrecurs, -⟩, -⟩
        exact ⟨error, hrecurs⟩
      · rintro ⟨error, hrecurs⟩
        exact ⟨_, ⟨error, hrecurs, rfl⟩, passes_retry hrecurs⟩
  | guard =>
      constructor
      · rintro ⟨_, ⟨error, hrecurs, rfl⟩, hpasses⟩
        exact ⟨error, (passes_guard_iff hrecurs).1 hpasses⟩
      · rintro ⟨error, hthree⟩
        have hrecurs : Recurs failures error := (Nat.le_succ 2).trans hthree
        exact ⟨_, ⟨error, hrecurs, rfl⟩, (passes_guard_iff hrecurs).2 hthree⟩
  | timeout =>
      constructor
      · rintro ⟨_, ⟨hslow, rfl⟩, hpasses⟩
        exact (passes_timeout_iff (List.length_pos_of_ne_nil hslow)).1 hpasses
      · intro htwo
        have hpos : 1 ≤ (slow executions).length := (Nat.le_succ 1).trans htwo
        exact ⟨_, ⟨List.ne_nil_of_length_pos hpos, rfl⟩, (passes_timeout_iff hpos).2 htwo⟩
  | strategy => exact exists_passing_low_iff (by decide +kernel) passes_strategy_iff
  | policy => exact exists_passing_low_iff (by decide +kernel) passes_policy_iff

/-- **The thresholds of the detector and of the policy together.** -/
theorem exists_passing_iff {patterns : List Pattern}
    (h : detect py executions failures = .ok patterns) (rule : Rule) :
    (∃ pattern ∈ patterns, pattern.kind = rule.kind ∧ Passes (rule.score pattern.confidence))
      ↔ Evidence py executions failures rule := by
  rw [← exists_passing_seen_iff rule]
  constructor
  · rintro ⟨pattern, hmem, hkind, hpasses⟩
    exact ⟨_, (exists_pattern_iff h _ _).1 ⟨pattern, hmem, hkind, rfl⟩, hpasses⟩
  · rintro ⟨c, hseen, hpasses⟩
    obtain ⟨pattern, hmem, hkind, rfl⟩ := (exists_pattern_iff h _ _).2 hseen
    exact ⟨pattern, hmem, hkind, hpasses⟩

end Patterns

end PersonalDevin.SelfImprovement
