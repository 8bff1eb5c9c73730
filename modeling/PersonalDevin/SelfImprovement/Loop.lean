import PersonalDevin.SelfImprovement.Analyzer
import PersonalDevin.SelfImprovement.Thresholds

/-!
# The self-improvement loop

`SelfImprovementLoop.run`: from the newest records of the memory to the adaptations that the policy
approves, for each rule exactly where the records speak for it.
-/

namespace PersonalDevin.SelfImprovement

open Lib
open Memory
open Memory.MemoryService (getRecent)
open Patterns
open AdaptationPolicy (IsBest Splits defaultPolicy key splits_validate)

variable {T : Type}

/-! ### The loop -/

namespace Analyzer

structure LoadedFailure (T : Type) extends Patterns.FailureRecord where
  recordId : String
  source : String
  timestamp : T

def loadFailure (std : Interpreter T) (memory : MemoryRecord T) : LoadedFailure T where
  error := textField memory.data "error" "unknown"
  recordId := memory.id
  source := textField memory.data "source" "unknown"
  timestamp := std.inUtc memory.timestamp

/-- `load_failures`: where `get_recent` raises it finds no entries. -/
def loadFailures [Timestamp T] [Zoned T] (std : Interpreter T) (now : T) (streams : Streams)
    (limit : ℤ) : List (LoadedFailure T) :=
  (((getRecent now streams limit).getD []).filter fun memory => memory.type = .failure).map
    (loadFailure std)

end Analyzer

structure AdaptationResult where
  patternsDetected : List Pattern
  adaptationsGenerated : List SelfImprovementAdaptation
  adaptationsApproved : List SelfImprovementAdaptation
  adaptationsRejected : List SelfImprovementAdaptation

structure SelfImprovementLoop where
  policy : AdaptationPolicy
  memoryLimit : ℤ

namespace SelfImprovementLoop

/-- `SelfImprovementLoop()`. -/
def default : SelfImprovementLoop where
  policy := defaultPolicy
  memoryLimit := 200

variable (loop : SelfImprovementLoop) (py : Patterns.Interpreter)

/-- What the loop makes of the records that it has loaded. -/
def improve (executions : List Patterns.ExecutionRecord) (failures : List FailureRecord) :
    Except Fault AdaptationResult := do
  let patterns ← detect py executions failures
  let adaptations ← generate py patterns
  let (approved, rejected) := loop.policy.validate adaptations
  return ⟨patterns, adaptations, approved, rejected⟩

/-- `run`, with the times at which the memory is read, or nothing where it raises. -/
def run [Timestamp T] [Zoned T] (std : Analyzer.Interpreter T) (now now' : T) (streams : Streams) :
    Option AdaptationResult := do
  let executions ← Analyzer.loadExecutions std now streams loop.memoryLimit
  let failures := Analyzer.loadFailures std now' streams loop.memoryLimit
  let improved := loop.improve py (executions.map (·.toExecutionRecord))
    (failures.map (·.toFailureRecord))
  improved.toOption

end SelfImprovementLoop

namespace Patterns

variable {py : Patterns.Interpreter} {executions : List Patterns.ExecutionRecord}
  {failures : List FailureRecord}

/-! ### The adaptations of a generation -/

/-- What a rule makes of a pattern of its kind. -/
structure FromRule (rule : Rule) (pattern : Pattern) (a : SelfImprovementAdaptation) : Prop where
  kind : pattern.kind = rule.kind
  id : a.adaptationId = adaptationId rule pattern.patternId
  source : a.sourcePatternId = pattern.patternId
  key_eq : key a = (rule.actionType, rule.target)
  score : a.confidenceScore = rule.score pattern.confidence

theorem fromRule_of_adapt {pattern : Pattern} {adaptations : List SelfImprovementAdaptation}
    (h : adapt py pattern = .ok adaptations) :
    (∀ a ∈ adaptations, ∃ rule, FromRule rule pattern a)
      ∧ ∀ rule : Rule, pattern.kind = rule.kind → ∃ a ∈ adaptations, FromRule rule pattern a := by
  rw [adapt] at h
  cases hkind : pattern.kind <;> rw [hkind] at h
  · cases h
    refine ⟨fun a ha => ?_, fun rule hrule => ?_⟩
    · rcases List.mem_pair.1 ha with rfl | rfl
      · exact ⟨.retry, hkind, rfl, rfl, rfl, rfl⟩
      · exact ⟨.guard, hkind, rfl, rfl, rfl, rfl⟩
    · rw [← mem_rulesFor_iff] at hrule
      rcases List.mem_pair.1 hrule with rfl | rfl
      · exact ⟨_, List.mem_cons_self, hkind, rfl, rfl, rfl, rfl⟩
      · exact ⟨_, List.mem_cons_of_mem _ List.mem_cons_self, hkind, rfl, rfl, rfl, rfl⟩
  · obtain ⟨value, -, h⟩ := except_bind_eq_ok_iff.1 h
    cases h
    refine ⟨fun a ha => ?_, fun rule hrule => ?_⟩
    · rw [List.mem_singleton.1 ha]
      exact ⟨.timeout, hkind, rfl, rfl, rfl, rfl⟩
    · rw [← mem_rulesFor_iff] at hrule
      rw [List.mem_singleton.1 hrule]
      exact ⟨_, List.mem_cons_self, hkind, rfl, rfl, rfl, rfl⟩
  · cases h
    refine ⟨fun a ha => ?_, fun rule hrule => ?_⟩
    · rcases List.mem_pair.1 ha with rfl | rfl
      · exact ⟨.strategy, hkind, rfl, rfl, rfl, rfl⟩
      · exact ⟨.policy, hkind, rfl, rfl, rfl, rfl⟩
    · rw [← mem_rulesFor_iff] at hrule
      rcases List.mem_pair.1 hrule with rfl | rfl
      · exact ⟨_, List.mem_cons_self, hkind, rfl, rfl, rfl, rfl⟩
      · exact ⟨_, List.mem_cons_of_mem _ List.mem_cons_self, hkind, rfl, rfl, rfl, rfl⟩

structure Adapts (patterns : List Pattern) (adaptations : List SelfImprovementAdaptation) :
    Prop where
  sound : ∀ a ∈ adaptations, ∃ rule, ∃ pattern ∈ patterns, FromRule rule pattern a
  complete : ∀ pattern ∈ patterns, ∀ rule : Rule, pattern.kind = rule.kind →
    ∃ a ∈ adaptations, FromRule rule pattern a

theorem adapts_of_mapM {patterns : List Pattern} {lists : List (List SelfImprovementAdaptation)}
    (h : patterns.mapM (adapt py) = .ok lists) : Adapts patterns lists.flatten := by
  have hpaired := mapM_eq_ok_iff.1 h
  constructor
  · intro a ha
    obtain ⟨made, hmade, ha⟩ := List.mem_flatten.1 ha
    obtain ⟨pattern, hmem, hadapt⟩ := exists_of_mem_right hpaired hmade
    obtain ⟨rule, hrule⟩ := (fromRule_of_adapt hadapt).1 a ha
    exact ⟨rule, pattern, hmem, hrule⟩
  · intro pattern hmem rule hkind
    obtain ⟨made, hmade, hadapt⟩ := exists_of_mem_left hpaired hmem
    obtain ⟨a, ha, hrule⟩ := (fromRule_of_adapt hadapt).2 rule hkind
    exact ⟨a, List.mem_flatten.2 ⟨made, hmade, ha⟩, hrule⟩

theorem adapts_of_generate {patterns : List Pattern} {adaptations : List SelfImprovementAdaptation}
    (h : generate py patterns = .ok adaptations) : Adapts patterns adaptations := by
  obtain ⟨lists, hlists, h⟩ := except_bind_eq_ok_iff.1 h
  cases h
  have hadapts := adapts_of_mapM hlists
  refine ⟨fun a ha => hadapts.sound a ((List.mem_insertionSort _).1 ha), ?_⟩
  intro pattern hmem rule hkind
  obtain ⟨a, ha, hrule⟩ := hadapts.complete pattern hmem rule hkind
  exact ⟨a, (List.mem_insertionSort _).2 ha, hrule⟩

end Patterns

/-! ### What the loop approves -/

namespace SelfImprovementLoop

variable {py : Patterns.Interpreter} {executions : List Patterns.ExecutionRecord}
  {failures : List FailureRecord}

theorem admits_iff (a : SelfImprovementAdaptation) :
    defaultPolicy.admits a = true ↔ Passes a.confidenceScore := by
  rw [AdaptationPolicy.admits, Bool.and_eq_true, Bool.not_eq_true', decide_eq_false_iff_not]
  exact and_iff_left rfl

/-- What the default loop approves on the records: for each rule one adaptation where there is
evidence for it, and nothing else; of the errors that recur one of the most frequent, up to five
times. -/
structure Approves (py : Patterns.Interpreter) (executions : List Patterns.ExecutionRecord)
    (failures : List FailureRecord) (result : AdaptationResult) : Prop where
  approved : ∀ a ∈ result.adaptationsApproved, ∃ rule, ∃ pattern ∈ result.patternsDetected,
    FromRule rule pattern a
  oneEach : (result.adaptationsApproved.map (·.target)).Nodup
  evidence : ∀ rule : Rule, (∃ a ∈ result.adaptationsApproved, a.target = rule.target)
    ↔ Evidence py executions failures rule
  frequent : ∀ a ∈ result.adaptationsApproved, ∀ rule ∈ rulesFor .repeatedFailure,
    a.target = rule.target → ∃ error, Recurs failures error
      ∧ a.sourcePatternId = errorPatternId py error
      ∧ ∀ other, min ((errorsOf failures).count other) 5 ≤ min ((errorsOf failures).count error) 5

section Approved

variable {patterns : List Pattern} {adaptations approved rejected : List SelfImprovementAdaptation}

/-- There is an approved adaptation of a rule exactly if the rule makes one that passes. -/
theorem exists_approved_iff (hadapts : Adapts patterns adaptations)
    (hsplits : Splits defaultPolicy adaptations approved rejected) (rule : Rule) :
    (∃ a ∈ approved, a.target = rule.target)
      ↔ ∃ pattern ∈ patterns, pattern.kind = rule.kind
        ∧ Passes (rule.score pattern.confidence) := by
  constructor
  · rintro ⟨a, ha, htarget⟩
    have hbest := hsplits.best a ha
    obtain ⟨rule', pattern, hmem, hrule⟩ := hadapts.sound a hbest.mem
    obtain rfl : rule' = rule :=
      Rule.target_injective ((congrArg Prod.snd hrule.key_eq).symm.trans htarget)
    exact ⟨pattern, hmem, hrule.kind, hrule.score ▸ (admits_iff a).1 hbest.admitted⟩
  · rintro ⟨pattern, hmem, hkind, hpasses⟩
    obtain ⟨a, ha, hrule⟩ := hadapts.complete pattern hmem rule hkind
    have hone := hsplits.one a ha ((admits_iff a).2 (hrule.score ▸ hpasses))
    obtain ⟨b, hb, hkey⟩ := List.countP_pos_iff.1 (hone.symm ▸ Nat.one_pos)
    have htargets := congrArg Prod.snd ((of_decide_eq_true hkey).trans hrule.key_eq)
    exact ⟨b, hb, htargets⟩

theorem nodup_targets (hadapts : Adapts patterns adaptations)
    (hsplits : Splits defaultPolicy adaptations approved rejected) :
    (approved.map (·.target)).Nodup := by
  rw [List.nodup_iff_count_le_one]
  intro target
  by_cases hmem : target ∈ approved.map (·.target)
  · obtain ⟨a, ha, rfl⟩ := List.mem_map.1 hmem
    have hbest := hsplits.best a ha
    obtain ⟨rule, _, _, hrule⟩ := hadapts.sound a hbest.mem
    rw [List.count, List.countP_map, ← hsplits.one a hbest.mem hbest.admitted]
    refine (List.countP_congr fun b hb => ?_).le
    obtain ⟨rule', _, _, hrule'⟩ := hadapts.sound b (hsplits.best b hb).mem
    have ha : a.target = rule.target := congrArg Prod.snd hrule.key_eq
    have hb : b.target = rule'.target := congrArg Prod.snd hrule'.key_eq
    simp only [Function.comp_apply, beq_iff_eq, decide_eq_true_eq, hrule.key_eq, hrule'.key_eq,
      ha, hb]
    constructor
    · intro htarget
      rw [Rule.target_injective htarget]
    · exact congrArg Prod.snd
  · exact (List.count_eq_zero.2 hmem).trans_le (Nat.zero_le 1)

/-- An approved adaptation for a recurring error is for one of the most frequent. -/
theorem frequent_of_approved (hdetect : detect py executions failures = .ok patterns)
    (hadapts : Adapts patterns adaptations)
    (hsplits : Splits defaultPolicy adaptations approved rejected) {a : SelfImprovementAdaptation}
    (ha : a ∈ approved) {rule : Rule} (hrule : rule ∈ rulesFor .repeatedFailure)
    (htarget : a.target = rule.target) :
    ∃ error, Recurs failures error ∧ a.sourcePatternId = errorPatternId py error
      ∧ ∀ other, min ((errorsOf failures).count other) 5
        ≤ min ((errorsOf failures).count error) 5 := by
  have hbest := hsplits.best a ha
  obtain ⟨rule', pattern, hmem, hfrom⟩ := hadapts.sound a hbest.mem
  obtain rfl : rule' = rule :=
    Rule.target_injective ((congrArg Prod.snd hfrom.key_eq).symm.trans htarget)
  have hkind : PatternKind.repeatedFailure = rule'.kind := mem_rulesFor_iff.1 hrule
  obtain ⟨error, hrecurs, hid, hconfidence⟩ :=
    exists_error_of_mem hdetect hmem (hfrom.kind.trans hkind.symm)
  refine ⟨error, hrecurs, hfrom.source.trans hid, fun other => ?_⟩
  by_cases hother : Recurs failures other
  · refine min_count_le_of_not_lt rule' (List.mem_pair.1 hrule) hrecurs fun hless => ?_
    obtain ⟨pattern', hmem', hkind', hconfidence'⟩ := (exists_pattern_iff hdetect _ _).2
      (show Seen py executions failures _ .repeatedFailure from ⟨other, hother, rfl⟩)
    obtain ⟨b, hb, hfrom'⟩ := hadapts.complete pattern' hmem' rule' (hkind'.trans hkind)
    rw [← hconfidence, ← hfrom.score, ← hconfidence', ← hfrom'.score] at hless
    -- What beats an adaptation that passes passes.
    by_cases hadmits : Passes b.confidenceScore
    · exact hbest.highest b hb (hfrom'.key_eq.trans hfrom.key_eq.symm) ((admits_iff b).2 hadmits)
        hless
    · exact (admits_iff a).1 hbest.admitted (Binary64.lt_trans hless (not_not.1 hadmits))
  · have hfew : (errorsOf failures).count other < 2 := not_le.1 hother
    have hmany : 2 ≤ (errorsOf failures).count error := hrecurs
    omega

/-- **What the loop approves.** -/
theorem approves_of_improve {result : AdaptationResult}
    (h : default.improve py executions failures = .ok result) :
    Approves py executions failures result := by
  obtain ⟨patterns, hdetect, h⟩ := except_bind_eq_ok_iff.1 h
  obtain ⟨adaptations, hgenerate, h⟩ := except_bind_eq_ok_iff.1 h
  cases h
  have hadapts := adapts_of_generate hgenerate
  have hsplits := splits_validate defaultPolicy adaptations
  constructor
  · exact fun a ha => hadapts.sound a (hsplits.best a ha).mem
  · exact nodup_targets hadapts hsplits
  · exact fun rule =>
      (exists_approved_iff hadapts hsplits rule).trans (exists_passing_iff hdetect rule)
  · exact fun a ha rule hrule => frequent_of_approved hdetect hadapts hsplits ha hrule

end Approved

/-- **What a run approves**, by the records that it loads. -/
theorem run_approves [Timestamp T] [Zoned T] {std : Analyzer.Interpreter T} {now now' : T}
    {streams : Streams} {result : AdaptationResult}
    (h : default.run py std now now' streams = some result) :
    ∃ executions, Analyzer.loadExecutions std now streams 200 = some executions
      ∧ Approves py (executions.map (·.toExecutionRecord))
        ((Analyzer.loadFailures std now' streams 200).map (·.toFailureRecord)) result := by
  obtain ⟨executions, hexecutions, h⟩ := Option.bind_eq_some_iff.1 h
  refine ⟨executions, hexecutions, approves_of_improve ?_⟩
  rcases himprove : default.improve py (executions.map (·.toExecutionRecord))
    ((Analyzer.loadFailures std now' streams 200).map (·.toFailureRecord)) with _ | improved
  · exact nomatch (congrArg Except.toOption himprove).symm.trans h
  · obtain rfl := Option.some.inj ((congrArg Except.toOption himprove).symm.trans h)
    exact himprove

/-! ### A failure that is logged three times -/

open Memory.MemoryService (Midnight)

def threeTimeouts : List (Midnight × ServiceCall Midnight) :=
  [(.utc, .logFailure "runner" "timeout" none),
    (.utc, .logExecution "success" 2 2 0 0 none),
    (.utc, .logFailure "runner" " timeout" none),
    (.utc, .logFailure "task-1" "timeout\n" none)]

theorem threeTimeouts_read : (performAll threeTimeouts fun _ => []).map
    (fun streams => ((getRecent Midnight.utc streams 200).isSome,
      (default.run asciiInterpreter Analyzer.utcInterpreter .utc .utc streams).isSome))
    = some (true, true) := by
  decide +kernel

theorem run_approves_threeTimeouts : ∃ streams result executions,
    performAll threeTimeouts (fun _ => []) = some streams
      ∧ default.run asciiInterpreter Analyzer.utcInterpreter .utc .utc streams = some result
      ∧ Approves asciiInterpreter executions
        ((Analyzer.loadFailures Analyzer.utcInterpreter .utc streams 200).map (·.toFailureRecord))
        result := by
  obtain ⟨streams, hrun, hread⟩ := Option.map_eq_some_iff.1 threeTimeouts_read
  obtain ⟨result, hresult⟩ := Option.isSome_iff_exists.1 (Prod.mk.inj hread).2
  obtain ⟨executions, -, happroves⟩ := run_approves hresult
  exact ⟨streams, result, _, hrun, hresult, happroves⟩

end SelfImprovementLoop

end PersonalDevin.SelfImprovement
