import PersonalDevin.Memory.Writers
import PersonalDevin.Number
import PersonalDevin.Text
import Mathlib.Data.List.Sort
import Mathlib.Data.Prod.Lex
import Mathlib.Data.String.Basic

/-!
# From a history to actions

The aggregates that `ExecutionAnalyzer` builds from the records of a history, the patterns that
`PatternDetector` finds in them, the actions of `Optimizer` and the check of `ImprovementValidator`.
Rates and latencies are exact before they are rounded.
-/

namespace PersonalDevin.Improvement

open Lib
open Memory (ImprovementAction)

def numberField (record : Fields) (key : String) : Option ℚ := (record.get? key).bind Value.number?

/-! ### Analysis -/

structure AnalysisSummary where
  totalExecutions : ℕ
  failureRate : ℚ
  retryPatterns : List (String × ℕ)
  stepLatency : List (String × ℚ)
  commonFailurePoints : List String
  commonFailureCounts : List (String × ℕ)
  toolMisusePatterns : List (String × ℕ)
  deriving DecidableEq

namespace Analyzer

def isFailure (record : Fields) : Bool :=
  match record.get? "success" with
  | some (.bool success) => !success
  | _ => lower (textField record "status" "") ∈ ["failed", "failure", "error"]

def isRetry (record : Fields) : Bool := textField record "decision" "" = "retry_same"

def stepId (record : Fields) : String :=
  match record.get? "current_step" with
  | some (.dict step) => textField step "id" "unknown_step"
  | _ => "unknown_step"

/-- `_latency_ms`, the same in the engine. -/
def latencyMs (record : Fields) : Option ℚ :=
  match record.get? "result" with
  | some (.dict result) =>
      (numberField result "duration_ms").orElse fun _ =>
        (numberField result "latency_ms").orElse fun _ =>
          (numberField result "runtime_seconds").map (· * 1000)
  | _ => none

def errorType (record : Fields) : String :=
  match record.get? "classification", record.get? "result" with
  | some (.dict classification), _ => textField classification "error_type" "none"
  | _, some (.dict result) => textField result "error_type" "none"
  | _, _ => "none"

/-- How often each of the keys occurs. -/
def counts (keys : List String) : Dict String ℕ :=
  keys.foldl (fun counts key => counts.set key (counts.getD key 0 + 1)) Dict.empty

def sortedCounts (keys : List String) : List (String × ℕ) :=
  (counts keys).entries.insertionSort (·.1 ≤ ·.1)

def mean (values : List ℚ) : ℚ := values.sum / values.length

def share (part total : ℕ) : ℚ := if 0 < total then roundDecimals 4 (part / total) else 0

def analyze (records : List Fields) : AnalysisSummary :=
  let failures := records.filter isFailure
  let latencies := records.filterMap fun record =>
    (latencyMs record).map fun latency => (stepId record, latency)
  let failurePoints := (counts (failures.map stepId)).entries.insertionSort
    (fun a b => b.2 < a.2 ∨ (a.2 = b.2 ∧ a.1 ≤ b.1))
  { totalExecutions := records.length
    failureRate := share failures.length records.length
    retryPatterns := sortedCounts ((records.filter isRetry).map stepId)
    stepLatency := (sortedCounts (latencies.map Prod.fst)).map fun entry =>
      (entry.1, roundDecimals 3
        (mean ((latencies.filter (·.1 = entry.1)).map Prod.snd)))
    commonFailurePoints := failurePoints.map Prod.fst
    commonFailureCounts := failurePoints
    toolMisusePatterns := sortedCounts ((records.map errorType).filter
      (· ∈ ["policy_violation", "invalid_operation", "tool_misuse"])) }

end Analyzer

/-! ### Patterns -/

inductive PatternType where
  | repeatedFailure
  | redundantRetries
  | toolMisuse
  | inefficientPlan
  deriving DecidableEq

def PatternType.text : PatternType → String
  | repeatedFailure => "repeated_failure"
  | redundantRetries => "redundant_retries"
  | toolMisuse => "tool_misuse"
  | inefficientPlan => "inefficient_plan"

inductive Severity where
  | low
  | medium
  | high
  deriving DecidableEq

def Severity.text : Severity → String
  | low => "low"
  | medium => "medium"
  | high => "high"

/-- A pattern; its frequency has four decimals. -/
structure Pattern where
  type : PatternType
  location : String
  frequency : ℚ
  severity : Severity
  evidenceCount : ℤ
  deriving DecidableEq

/-- `asdict` of a pattern. -/
def Pattern.toFields (pattern : Pattern) : Fields :=
  [("type", .str pattern.type.text), ("location", .str pattern.location),
    ("frequency", .ofDecimal 4 pattern.frequency), ("severity", .str pattern.severity.text),
    ("evidence_count", .int pattern.evidenceCount)]

namespace Detector

def repeatedFailure (total : ℕ) (stepId : String) (failures : ℕ) : Option Pattern :=
  let frequency := roundDecimals 4 (failures / total)
  if 1 / 4 ≤ frequency then
    some {
      type := .repeatedFailure
      location := "execution." ++ stepId
      frequency
      severity := if 1 / 2 ≤ frequency then .high else .medium
      evidenceCount := failures }
  else none

def redundantRetries (total : ℕ) (stepId : String) (retries : ℕ) : Option Pattern :=
  let frequency := roundDecimals 4 (retries / total)
  if 3 / 10 ≤ frequency then
    some {
      type := .redundantRetries
      location := "execution." ++ stepId
      frequency
      severity := if frequency < 6 / 10 then .medium else .high
      evidenceCount := retries }
  else none

def toolMisuse (total : ℕ) (errorType : String) (count : ℕ) : Option Pattern :=
  if 0 < count then
    some {
      type := .toolMisuse
      location := "execution." ++ errorType
      frequency := roundDecimals 4 (count / total)
      severity := .high
      evidenceCount := count }
  else none

def inefficientPlan (stepId : String) (latency : ℚ) : Option Pattern :=
  if 1000 ≤ latency then
    some {
      type := .inefficientPlan
      location := "execution." ++ stepId
      frequency := 1
      severity := if latency < 2000 then .medium else .high
      evidenceCount := ⌊latency⌋ }
  else none

def sortKey (pattern : Pattern) : String ×ₗ String ×ₗ ℚ ×ₗ String ×ₗ ℤ :=
  toLex (pattern.type.text, toLex (pattern.location, toLex (pattern.frequency,
    toLex (pattern.severity.text, pattern.evidenceCount))))

def detect (summary : AnalysisSummary) : List Pattern :=
  let total := summary.totalExecutions
  if total = 0 then []
  else
    (summary.commonFailurePoints.filterMap (fun stepId =>
        repeatedFailure total stepId ((summary.commonFailureCounts.lookup stepId).getD 0))
      ++ summary.retryPatterns.filterMap (fun entry => redundantRetries total entry.1 entry.2)
      ++ summary.toolMisusePatterns.filterMap (fun entry => toolMisuse total entry.1 entry.2)
      ++ summary.stepLatency.filterMap fun entry => inefficientPlan entry.1 entry.2).insertionSort
        (sortKey · ≤ sortKey ·)

end Detector

/-! ### Actions -/

namespace Optimizer

/-- An action without a type of its own, which then is its change. -/
def action (target change reason : String) (pattern : Pattern) : ImprovementAction where
  target := target
  change := change
  reason := pattern.location ++ reason
  actionType := change
  sourceSignal := pattern.type.text

def actionFor (pattern : Pattern) : ImprovementAction :=
  match pattern.type with
  | .repeatedFailure =>
      action "planning.strategy" "increase_validation_before_execution" " repeated failures" pattern
  | .redundantRetries =>
      action "execution.retry_limit" "decrease_retry_limit_by_one" " redundant retries" pattern
  | .inefficientPlan =>
      action "planning.step_order" "reorder_high_latency_steps_last" " high latency" pattern
  | .toolMisuse =>
      action "execution.tooling" "substitute_safer_tool_profile" " misuse detected" pattern

def patternKey (pattern : Pattern) : String ×ₗ String ×ₗ ℚ ×ₗ String :=
  toLex (pattern.type.text, toLex (pattern.location, toLex (pattern.frequency,
    pattern.severity.text)))

def actionKey (action : ImprovementAction) : String ×ₗ String ×ₗ String ×ₗ String :=
  toLex (action.target, toLex (action.change, toLex (action.reason, action.sourceSignal)))

def generate (patterns : List Pattern) : List ImprovementAction :=
  ((patterns.insertionSort (patternKey · ≤ patternKey ·)).map actionFor).insertionSort
    (actionKey · ≤ actionKey ·)

end Optimizer

/-! ### Plans -/

structure ImprovementMetrics where
  successRate : ℚ
  failureRate : ℚ
  avgStepLatency : ℚ
  retryRate : ℚ
  deriving DecidableEq

structure RollbackAction where
  target : String
  previousValue : String
  version : ℤ
  deriving DecidableEq

structure ImprovementRecord (T : Type) where
  id : String
  timestamp : T
  patterns : List Pattern
  actions : List ImprovementAction
  result : String
  version : ℤ
  rollbackActions : List RollbackAction
  metricsBefore : ImprovementMetrics
  metricsAfter : ImprovementMetrics
  impactScore : ℚ
  accepted : Bool

structure ImprovementPlan (T : Type) where
  version : String
  analysis : AnalysisSummary
  patterns : List Pattern
  actions : List ImprovementAction
  rejectedActions : List ImprovementAction
  record : Option (ImprovementRecord T)

namespace Validator

def allowedTargets : List String :=
  ["planning.strategy", "planning.step_order", "execution.retry_limit", "execution.tooling"]

def allowedChanges : List String :=
  ["increase_validation_before_execution", "decrease_retry_limit_by_one",
    "reorder_high_latency_steps_last", "substitute_safer_tool_profile"]

def forbiddenTokens : List String :=
  ["remove_module", "delete_module", "core.contract", "core.orchestrator", "drop_contract"]

def isSafe (action : ImprovementAction) : Bool :=
  let combined := lowerChars (action.target ++ "|" ++ action.change ++ "|" ++ action.reason)
  action.target ∈ allowedTargets && action.change ∈ allowedChanges
    && forbiddenTokens.all fun token => !isIn token.toList combined

def validate {T : Type} (plan : ImprovementPlan T) : ImprovementPlan T where
  version := plan.version
  analysis := plan.analysis
  patterns := plan.patterns
  actions := plan.actions.filter isSafe
  rejectedActions := plan.actions.filter fun action => !isSafe action
  record := none

end Validator

end PersonalDevin.Improvement
