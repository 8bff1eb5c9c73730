import PersonalDevin.Improvement.Pipeline
import PersonalDevin.Lib.Effects

/-!
# The improvement engine

`ImprovementEngine.run` on a memory argument of which it only asks which methods it has. The methods act
on a state and may raise; the engine drops what they raise. What it decides from the decision records is
split off as functions of these records. Rates, latencies and scores are exact here, where they only feed
the record; where it matters what they come to, they are the floats of `Improvement.Gates`. Log entries
are left out, and with them the restoring of values in a rollback, which is one.
-/

namespace PersonalDevin.Improvement

open Lib
open Memory (ImprovementAction ImprovementEvent ImprovementRun MemoryType Timestamp)

/-- What a run raises: a comparison of a number with no number, or an exception of the memory. -/
inductive Raised where
  | typeError
  | memory
  deriving DecidableEq

/-- The methods of a memory argument, of those that the engine probes for. -/
structure MemoryObject (σ : Type) where
  readAll : Option (MemoryType → EStateM Raised σ (List Fields))
  getRecent : Option (ℕ → EStateM Raised σ (List Fields))
  retrieve : Option (String → EStateM Raised σ Fields)
  append : Option (MemoryType → Fields → EStateM Raised σ PUnit)
  save : Option (Fields → EStateM Raised σ PUnit)

/-- The stages of the pipeline, with the ones that the engine has unless it is given others. -/
structure ImprovementEngine (T : Type) where
  analyze : List Fields → AnalysisSummary := Analyzer.analyze
  detect : AnalysisSummary → List Pattern := Detector.detect
  generate : List Pattern → List ImprovementAction := Optimizer.generate
  validate : ImprovementPlan T → ImprovementPlan T := Validator.validate

/-! ### What the decision records say -/

def cooldownCycles : ℕ := 3

def minImprovementDelta : ℚ := 5 / 100

def isEvent (event : String) (record : Fields) : Bool :=
  match record.get? "event" with
  | some (.str text) => text = event
  | _ => false

def isImprovementRecord : Fields → Bool := isEvent "improvement_record"

def isAccepted (record : Fields) : Bool :=
  isImprovementRecord record &&
    match record.get? "accepted" with
    | some (.bool accepted) => accepted
    | _ => false

/-- How many records follow the last accepted one, if there is one. -/
def sinceAccepted (records : List Fields) : Option ℕ := records.reverse.findIdx? isAccepted

/-- What `_is_on_cooldown` finds in the decision records. -/
def onCooldown (records : List Fields) : Bool :=
  match sinceAccepted records with
  | some since => since < cooldownCycles
  | none => false

/-- `int(record.get("version", 0))`, or nothing where it raises. -/
def versionOf (record : Fields) : Option ℤ :=
  match record.get? "version" with
  | some value => value.pyInt
  | none => some 0

/-- What `_next_improvement_version` makes of the decision records. -/
def nextVersion (records : List Fields) : ℤ :=
  match (records.filter isImprovementRecord).mapM versionOf with
  | some (version :: versions) => versions.foldl max version + 1
  | _ => 1

/-- What `_get_last_accepted_impact_score` finds in the decision records; `None` is no score. -/
def lastAcceptedScore (records : List Fields) : Option Value :=
  match (records.reverse.find? isAccepted).bind (Fields.get? · "impact_score") with
  | some .none => none
  | score => score

/-- The gates of `_should_accept_improvement_with_memory`, or nothing where the comparison raises. -/
def acceptable (impactScore : ℚ) (lastScore : Option Value) : Option Bool :=
  match lastScore with
  | none => some true
  | some score => score.number?.map fun last => last < impactScore

/-! ### Metrics -/

namespace Metrics

def isSuccess (record : Fields) : Bool :=
  match record.get? "success" with
  | some (.bool success) => success
  | _ => lower (textField record "status" "") ∈ ["success", "completed"]

/-- `_compute_metrics`. -/
def compute (records : List Fields) : ImprovementMetrics :=
  let total := records.length
  let latencies := records.filterMap Analyzer.latencyMs
  { successRate := Analyzer.share (records.countP isSuccess) total
    failureRate := Analyzer.share (records.countP fun record => !isSuccess record) total
    avgStepLatency := if latencies = [] then 0 else roundDecimals 3 (Analyzer.mean latencies)
    retryRate := Analyzer.share (records.countP Analyzer.isRetry) total }

/-- `_compute_impact_score`. -/
def impactScore (before after : ImprovementMetrics) : ℚ :=
  let latencyDelta :=
    if 0 < before.avgStepLatency then
      (before.avgStepLatency - after.avgStepLatency) / before.avgStepLatency
    else 0
  let score := (after.successRate - before.successRate) * (6 / 10)
    + (before.failureRate - after.failureRate) * (3 / 10) + latencyDelta * (1 / 10)
  roundDecimals 4 (max (min score 1) (-1))

/-- Nothing has changed. -/
theorem impactScore_self (metrics : ImprovementMetrics) : impactScore metrics metrics = 0 := by
  have hscore : (metrics.successRate - metrics.successRate) * (6 / 10 : ℚ)
      + (metrics.failureRate - metrics.failureRate) * (3 / 10)
      + (if 0 < metrics.avgStepLatency then
          (metrics.avgStepLatency - metrics.avgStepLatency) / metrics.avgStepLatency else 0)
        * (1 / 10) = 0 := by
    split <;> simp
  have hclamp : max (min (0 : ℚ) 1) (-1) = 0 := by norm_num
  rw [impactScore, hscore, hclamp, roundDecimals_zero]

end Metrics

/-- `asdict` of metrics. -/
def ImprovementMetrics.toFields (metrics : ImprovementMetrics) : Fields :=
  [("success_rate", .ofDecimal 4 metrics.successRate),
    ("failure_rate", .ofDecimal 4 metrics.failureRate),
    ("avg_step_latency", .ofDecimal 3 metrics.avgStepLatency),
    ("retry_rate", .ofDecimal 4 metrics.retryRate)]

def RollbackAction.toFields (action : RollbackAction) : Fields :=
  [("target", .str action.target), ("previous_value", .str action.previousValue),
    ("version", .int action.version)]

def buildRollbackActions (actions : List ImprovementAction) (version : ℤ) : List RollbackAction :=
  actions.map fun action =>
    { target := action.target, previousValue := "reverted_from_v" ++ toString version, version }

/-- `_execute_rollback`, which tells whether there was a rollback. -/
def rollbackExecuted {T : Type} (record : ImprovementRecord T) : Bool :=
  record.impactScore < 0 && !record.rollbackActions.isEmpty

/-! ### A run -/

section Run

variable {T σ : Type} [Timestamp T] (memory : MemoryObject σ)

def readDecisions : EStateM Raised σ (Option (List Fields)) :=
  match memory.readAll with
  | some readAll => tryCatch (some <$> readAll .decision) fun _ => pure none
  | none => pure none

def isOnCooldown : EStateM Raised σ Bool := do
  let records ← readDecisions memory
  return (records.map onCooldown).getD false

def nextImprovementVersion : EStateM Raised σ ℤ := do
  let records ← readDecisions memory
  return (records.map nextVersion).getD 1

/-- `_should_accept_improvement_with_memory`. -/
def shouldAccept (impactScore : ℚ) : EStateM Raised σ Bool :=
  if impactScore < minImprovementDelta then pure false
  else do
    let records ← readDecisions memory
    match acceptable impactScore (records.bind lastAcceptedScore) with
    | some accepted => return accepted
    | none => throw .typeError

/-- `payload["recent"]`, as far as it is a list of dictionaries. -/
def recentRecords (payload : Fields) : List Fields :=
  match payload.get? "recent" with
  | some (.list items) => items.filterMap fun
      | .dict record => some record
      | _ => none
  | _ => []

def readExecutionHistory : EStateM Raised σ (List Fields) :=
  match memory.readAll, memory.getRecent, memory.retrieve with
  | some readAll, _, _ => tryCatch (readAll .execution) fun _ => pure []
  | none, some getRecent, _ => tryCatch (getRecent 100) fun _ => pure []
  | none, none, some retrieve => tryCatch (recentRecords <$> retrieve "*") fun _ => pure []
  | none, none, none => pure []

def writeMemoryEvent (event : ImprovementEvent) : EStateM Raised σ PUnit :=
  let saving := match memory.save with
    | some save => tryCatch (save event.toFields) fun _ => pure ⟨⟩
    | none => pure ⟨⟩
  match memory.append with
  | some append => tryCatch (append .decision event.toFields) fun _ => saving
  | none => saving

/-- The events about a list of actions, numbered from one. -/
def actionEvents (actions : List ImprovementAction) (result : String) : List ImprovementEvent :=
  actions.zipIdx.map fun (action, i) => .applied (i + 1) action result

def writeMemoryEvents (events : List ImprovementEvent) : EStateM Raised σ PUnit :=
  events.forM (writeMemoryEvent memory)

/-- `asdict` of the result of a run. -/
def impactFields (record : ImprovementRecord T) (rollbackApplied : Bool) : Fields :=
  [("action_type", .str "self_improvement_run"), ("status", .str record.result),
    ("target", .str ""), ("change", .str ""), ("reason", .str ""),
    ("success", .bool record.accepted), ("impact_score", .ofDecimal 4 record.impactScore),
    ("metrics_before", .dict record.metricsBefore.toFields),
    ("metrics_after", .dict record.metricsAfter.toFields),
    ("rollback_applied", .bool rollbackApplied)]

/-- The event about a whole run. -/
def recordEvent (record : ImprovementRecord T) : ImprovementEvent :=
  .improvementRecord {
    id := record.id
    timestamp := Timestamp.isoformat record.timestamp
    version := record.version
    result := record.result
    patterns := record.patterns.map Pattern.toFields
    actions := record.actions
    accepted := record.accepted
    impactScore := .ofDecimal 4 record.impactScore
    metricsBefore := record.metricsBefore.toFields
    metricsAfter := record.metricsAfter.toFields
    rollbackActions := record.rollbackActions.map RollbackAction.toFields
    rollbackExecuted := rollbackExecuted record
    impact := impactFields record (rollbackExecuted record) }

/-- `f"improvement-{version:06d}"`. -/
def recordName (version : ℤ) : String :=
  "improvement-" ++ if version < 0 then "-" ++ zeroPad 5 version.natAbs else zeroPad 6 version.toNat

def resultText (applied : List ImprovementAction) (cooldown : Bool) : String :=
  if applied ≠ [] then "applied" else if cooldown then "cooldown" else "noop"

def proposedPlan (engine : ImprovementEngine T) (history : List Fields) : ImprovementPlan T :=
  let analysis := engine.analyze history
  let patterns := engine.detect analysis
  { version := "agent-33-v3"
    analysis
    patterns
    actions := engine.generate patterns
    rejectedActions := []
    record := none }

/-- `run`, at a time. -/
def run (engine : ImprovementEngine T) (now : T) : EStateM Raised σ (ImprovementPlan T) := do
  let cooldown ← isOnCooldown memory
  let historyBefore ← readExecutionHistory memory
  let plan := engine.validate (proposedPlan engine historyBefore)
  let applied := if cooldown then [] else plan.actions
  writeMemoryEvents memory (actionEvents applied "success")
  writeMemoryEvents memory (actionEvents plan.rejectedActions "rejected")
  writeMemoryEvents memory (if cooldown then [.cooldownActive] else [])
  let historyAfter ← readExecutionHistory memory
  let metricsBefore := Metrics.compute historyBefore
  let metricsAfter := Metrics.compute historyAfter
  let impactScore := Metrics.impactScore metricsBefore metricsAfter
  let accepted ← shouldAccept memory impactScore
  let rollbackVersion ← nextImprovementVersion memory
  let version ← nextImprovementVersion memory
  let record : ImprovementRecord T :=
    { id := recordName version
      timestamp := now
      patterns := plan.patterns
      actions := applied
      result := resultText applied cooldown
      version
      rollbackActions := buildRollbackActions applied rollbackVersion
      metricsBefore
      metricsAfter
      impactScore
      accepted := accepted && !applied.isEmpty }
  writeMemoryEvent memory (recordEvent record)
  return { plan with actions := applied, record := some record }

end Run

end PersonalDevin.Improvement
