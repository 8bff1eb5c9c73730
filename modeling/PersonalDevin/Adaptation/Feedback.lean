import PersonalDevin.Adaptation.Engine

/-!
# From a report to a feedback signal

`Evaluator.evaluate` for the texts that the agent loop compares, and `FeedbackEngine.generate_feedback`.
Together they tell four outcomes of a run apart, and the adaptation engine has its adaptations for each of
them.
-/

namespace PersonalDevin.Adaptation

open Lib
open Execution (ExecutionReport)
open Loop (EvaluationInput EvaluationResult Feedback RuntimeAdaptation)

/-! ### The evaluator -/

namespace Evaluator

def buildResult (taskId : String) (success : Bool) (score : Value) (feedback matchType : String) :
    EvaluationResult where
  taskId := taskId
  success := success
  score := score
  feedback := feedback
  metrics := [("match_type", .str matchType), ("score", score)]

/-- `Expected: {expected!r}, Got: {actual!r}.` -/
def comparison (inputData : EvaluationInput) : String :=
  "Expected: " ++ Value.strRepr inputData.expectedOutput ++ ", Got: "
    ++ Value.strRepr inputData.actualOutput ++ "."

/-- `evaluate`, where an output is expected. -/
def evaluate (inputData : EvaluationInput) : EvaluationResult :=
  let expected := inputData.expectedOutput.toList
  let actual := inputData.actualOutput.toList
  if inputData.expectedOutput = inputData.actualOutput then
    buildResult inputData.taskId true (.float 1 0) "Output matches expected exactly." "exact"
  else if isIn expected actual || isIn actual expected then
    buildResult inputData.taskId false (.float 5 (-1))
      ("Partial string match detected. " ++ comparison inputData) "partial"
  else
    buildResult inputData.taskId false (.float 0 0)
      ("Output does not match expected. " ++ comparison inputData) "failure"

end Evaluator

/-! ### The feedback engine -/

namespace FeedbackEngine

/-- `_SUGGESTIONS`. -/
def suggestionsByFailure : List (String × List String) :=
  [("execution_failure", ["add_task_level_retry_with_backoff", "introduce_precondition_validation"]),
    ("task_failure", ["inspect_failed_task_dependencies", "tighten_task_input_validation"]),
    ("dependency_skip",
      ["promote_dependency_health_checks", "add_fallback_path_for_blocked_dependencies"]),
    ("partial_match",
      ["refine_expected_output_constraints", "add_post_execution_output_sanitization"]),
    ("quality_failure",
      ["increase_assertion_coverage_for_outputs", "tighten_evaluation_thresholds"])]

def confidenceByFailure : List (String × ℚ) :=
  [("execution_failure", 75 / 100), ("task_failure", 85 / 100), ("dependency_skip", 80 / 100),
    ("partial_match", 90 / 100), ("quality_failure", 70 / 100)]

def scoreOf (evaluation : EvaluationResult) : ℚ := evaluation.score.number?.getD 0

def classifyFailure (execution : ExecutionReport) (evaluation : EvaluationResult) : Option String :=
  if evaluation.success ∧ execution.failedTasks = 0 ∧ execution.skippedTasks = 0 then none
  else if lower (strip (textField evaluation.metrics "match_type" "")) = "partial" then
    some "partial_match"
  else if 0 < execution.failedTasks ∧ scoreOf evaluation ≤ 2 / 10 then some "execution_failure"
  else if 0 < execution.failedTasks then some "task_failure"
  else if 0 < execution.skippedTasks then some "dependency_skip"
  else some "quality_failure"

def suggestionsFor : Option String → List String
  | none => []
  | some failureType =>
      (suggestionsByFailure.lookup failureType).getD ["review_evaluation_contract"]

def suggestionsForEvaluation (failureType : Option String) (evaluation : EvaluationResult) :
    List String :=
  let suggestions := suggestionsFor failureType
  match failureType, evaluation.metrics.get? "applied_modifiers" with
  | some _, some (.dict (_ :: _)) => suggestions ++ ["review_injected_adaptation_effectiveness"]
  | _, _ => suggestions

def normalizeScore (score : ℚ) : Value := .ofDecimal 4 (roundDecimals 4 (min (max score 0) 1))

def confidenceFor : Option String → ℚ
  | none => 1
  | some failureType => (confidenceByFailure.lookup failureType).getD (70 / 100)

/-- `generate_feedback`, without the time of the signal. -/
def generateFeedback (execution : ExecutionReport) (evaluation : EvaluationResult) : Feedback :=
  let failureType := classifyFailure execution evaluation
  { executionId := evaluation.taskId
    score := normalizeScore (scoreOf evaluation)
    success := evaluation.success && failureType.isNone
    failureType
    improvementSuggestions := suggestionsForEvaluation failureType evaluation
    confidence := .ofDecimal 4 (roundDecimals 4 (confidenceFor failureType)) }

end FeedbackEngine

/-! ### Outcomes -/

/-- What a run comes to. -/
inductive Outcome where
  | clean
  | partialMatch
  | executionFailure
  | dependencySkip
  deriving DecidableEq

def outcome (report : ExecutionReport) : Outcome :=
  if report.failedTasks = 0 ∧ report.skippedTasks = 0 then .clean
  else if Loop.classify report = .someFailed then .partialMatch
  else if 0 < report.failedTasks then .executionFailure
  else .dependencySkip

namespace Outcome

def failureType : Outcome → Option String
  | clean => none
  | partialMatch => some "partial_match"
  | executionFailure => some "execution_failure"
  | dependencySkip => some "dependency_skip"

def actualOutput : Outcome → String
  | clean => "completed"
  | partialMatch => "completed_with_failures"
  | executionFailure => "failed"
  | dependencySkip => "failed"

def matchType : Outcome → String
  | clean => "exact"
  | partialMatch => "partial"
  | executionFailure => "failure"
  | dependencySkip => "failure"

def score : Outcome → Value
  | clean => .float 1 0
  | partialMatch => .float 5 (-1)
  | executionFailure => .float 0 0
  | dependencySkip => .float 0 0

/-- The confidence in ten-thousandths. -/
def certainty : Outcome → ℕ
  | clean => 10000
  | partialMatch => 9000
  | executionFailure => 7500
  | dependencySkip => 8000

def confidence (o : Outcome) : Value := .ofUnits 4 o.certainty

/-- What the adaptation engine does about it. -/
def actions : Outcome → List String
  | clean => []
  | partialMatch => ["optimize_execution"]
  | executionFailure => ["retry_strategy", "increase_logging"]
  | dependencySkip => ["increase_logging", "retry_strategy"]

/-- The types of the adaptations, with what they set. -/
def remedies : Outcome → List (String × String × Value)
  | clean => []
  | partialMatch => [("timeout_seconds", "timeout", .int 10)]
  | executionFailure =>
      [("retry_limit", "retry_limit", .int 3), ("preferred_tool", "preferred_tool", .str "api")]
  | dependencySkip =>
      [("preferred_tool", "preferred_tool", .str "api"), ("retry_limit", "retry_limit", .int 3)]

/-- The modifiers of a run that the adaptations are injected into. -/
def modifiers (o : Outcome) : Fields := o.remedies.map Prod.snd

end Outcome

theorem actualOutput_eq (report : ExecutionReport) :
    Loop.evaluationActualOutput report = (outcome report).actualOutput := by
  unfold Loop.evaluationActualOutput outcome
  by_cases hclean : report.failedTasks = 0 ∧ report.skippedTasks = 0
  · rw [if_pos hclean, if_pos hclean]
    rfl
  · rw [if_neg hclean, if_neg hclean]
    by_cases hsome : Loop.classify report = .someFailed
    · rw [if_pos hsome, if_pos hsome]
      rfl
    · rw [if_neg hsome, if_neg hsome]
      split <;> rfl

/-- What the evaluator makes of an outcome, up to its text. -/
theorem evaluate_outcome (taskId : String) (metadata : Fields) (o : Outcome) :
    ∃ feedback, Evaluator.evaluate ⟨taskId, "completed", o.actualOutput, metadata⟩
      = Evaluator.buildResult taskId (o = .clean) o.score feedback o.matchType := by
  have hfailures : ("completed" : String) ≠ "completed_with_failures" := by decide
  have hcontained : (isIn "completed".toList "completed_with_failures".toList
    || isIn "completed_with_failures".toList "completed".toList) = true := by decide
  have hfailed : ("completed" : String) ≠ "failed" := by decide
  have hapart : ¬ (isIn "completed".toList "failed".toList
    || isIn "failed".toList "completed".toList) = true := by decide
  rw [Evaluator.evaluate]
  cases o with
  | clean => exact ⟨_, if_pos rfl⟩
  | partialMatch => exact ⟨_, (if_neg hfailures).trans (if_pos hcontained)⟩
  | executionFailure => exact ⟨_, (if_neg hfailed).trans (if_neg hapart)⟩
  | dependencySkip => exact ⟨_, (if_neg hfailed).trans (if_neg hapart)⟩

/-- What the feedback engine reads of an evaluation, where it is that of an outcome. -/
structure Evaluates (evaluation : EvaluationResult) (o : Outcome) : Prop where
  success : evaluation.success = decide (o = .clean)
  score : evaluation.score = o.score
  matchType : evaluation.metrics.get? "match_type" = some (.str o.matchType)

theorem Evaluates.classifyFailure {report : ExecutionReport} {evaluation : EvaluationResult}
    (h : Evaluates evaluation (outcome report)) :
    FeedbackEngine.classifyFailure report evaluation = (outcome report).failureType := by
  have hmatch : textField evaluation.metrics "match_type" "" = (outcome report).matchType := by
    rw [textField, h.matchType]
    rfl
  have hsuccess := h.success
  have hscore := h.score
  unfold FeedbackEngine.classifyFailure
  unfold outcome at *
  by_cases hclean : report.failedTasks = 0 ∧ report.skippedTasks = 0
  · rw [if_pos hclean] at *
    rw [if_pos ⟨hsuccess, hclean⟩]
    rfl
  · have hnot : ¬ (evaluation.success = true ∧ report.failedTasks = 0 ∧ report.skippedTasks = 0) :=
      fun hall => hclean hall.2
    rw [if_neg hclean] at *
    rw [if_neg hnot, hmatch]
    by_cases hsome : Loop.classify report = .someFailed
    · rw [if_pos hsome, if_pos (by decide)]
      rfl
    · rw [if_neg hsome] at *
      by_cases hfailed : 0 < report.failedTasks
      · have hlow : FeedbackEngine.scoreOf evaluation ≤ 2 / 10 := by
          have hzero : FeedbackEngine.scoreOf evaluation = 0 := by
            rw [FeedbackEngine.scoreOf, hscore, if_pos hfailed]
            norm_num [Outcome.score, Value.number?]
          rw [hzero]
          norm_num
        rw [if_pos hfailed, if_neg (by decide), if_pos ⟨hfailed, hlow⟩]
        rfl
      · have hskipped : 0 < report.skippedTasks := by omega
        rw [if_neg hfailed, if_neg (by decide), if_neg fun hall => hfailed hall.1, if_neg hfailed,
          if_pos hskipped]
        rfl

end PersonalDevin.Adaptation
