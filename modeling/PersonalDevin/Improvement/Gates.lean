import PersonalDevin.Improvement.Cooldown
import PersonalDevin.Lib.Binary64

/-!
# The gates of the engine

Which runs of the engine accept an improvement, roll one back or are on cooldown, with latencies,
metrics and scores as the floats that they are. Before each access of the engine others may change the
execution stream and append decision records; here none of these is an accepted improvement, and nobody
else writes to the execution stream during a run. How the interpreter sums floats is left open. The
frequencies in patterns are decimals.
-/

namespace PersonalDevin.Improvement.Gates

open Lib
open Memory (ImprovementAction ImprovementEvent Instant)

/-- What a run raises: the conversion of a number that is too large, or a comparison with no number. -/
inductive Fault where
  | overflowError
  | typeError
  deriving DecidableEq

/-! ### Latencies -/

/-- `float(x)` of what is an `int` or a `float`. -/
def toFloat : Value → Option (Except Fault Binary64)
  | .bool b => some (.ok (if b then 1 else 0))
  | .int n => some (match Binary64.ofInt n with
      | .infinite _ => .error .overflowError
      | x => .ok x)
  | .float mantissa exponent => some (.ok (.ofRat (mantissa * 10 ^ exponent)))
  | _ => none

/-- `_extract_latency_ms`, and `_latency_ms` of the analyzer. -/
def latencyMs (record : Fields) : Except Fault (Option Binary64) :=
  match record.get? "result" with
  | some (.dict result) =>
      let number (key : String) := (Fields.get? result key).bind toFloat
      match number "duration_ms", number "latency_ms", number "runtime_seconds" with
      | some durationMs, _, _ => some <$> durationMs
      | none, some latencyMs, _ => some <$> latencyMs
      | none, none, some runtimeSeconds => (fun seconds => some (seconds * 1000)) <$> runtimeSeconds
      | none, none, none => .ok none
  | _ => .ok none

def latencies (records : List Fields) : Except Fault (List Binary64) :=
  List.reduceOption <$> records.mapM latencyMs

/-! ### Metrics -/

structure ImprovementMetrics where
  successRate : Binary64
  failureRate : Binary64
  avgStepLatency : Binary64
  retryRate : Binary64
  deriving DecidableEq

/-- `==` on metrics. -/
def ImprovementMetrics.equal (a b : ImprovementMetrics) : Bool :=
  a.successRate.same b.successRate && a.failureRate.same b.failureRate
    && a.avgStepLatency.same b.avgStepLatency && a.retryRate.same b.retryRate

section Metrics

variable (sum : List Binary64 → Binary64)

/-- The mean latency, rounded to three decimals. -/
def averageLatency (values : List Binary64) : Binary64 :=
  if values = [] then 0 else ((sum values).divNat values.length).round 3

/-- `_compute_metrics`. -/
def compute (records : List Fields) : Except Fault ImprovementMetrics :=
  if records.isEmpty then
    .ok { successRate := 0, failureRate := 0, avgStepLatency := 0, retryRate := 0 }
  else do
    let values ← latencies records
    let rate (p : Fields → Bool) := (Binary64.ratio (records.countP p) records.length).round 4
    return {
      successRate := rate Metrics.isSuccess
      failureRate := rate fun record => !Metrics.isSuccess record
      avgStepLatency := averageLatency sum values
      retryRate := rate Analyzer.isRetry }

end Metrics

def weightSuccess : Binary64 := .ofRat (6 / 10)

def weightFailure : Binary64 := .ofRat (3 / 10)

def weightLatency : Binary64 := .ofRat (1 / 10)

def minImprovementDelta : Binary64 := .ofRat (5 / 100)

/-- `_compute_impact_score`. -/
def impactScore (before after : ImprovementMetrics) : Binary64 :=
  let successDelta := after.successRate - before.successRate
  let failureDelta := before.failureRate - after.failureRate
  let latencyDelta :=
    if 0 < before.avgStepLatency then
      (before.avgStepLatency - after.avgStepLatency) / before.avgStepLatency
    else 0
  let score :=
    successDelta * weightSuccess + failureDelta * weightFailure + latencyDelta * weightLatency
  ((score.minimum 1).maximum (-1)).round 4

/-! ### Plans and records -/

structure ImprovementRecord (T : Type) where
  id : String
  timestamp : T
  patterns : List Pattern
  actions : List ImprovementAction
  result : String
  version : ℤ
  rollbackActions : List RollbackAction
  metricsBefore : ImprovementMetrics
  metricsAfter : ImprovementMetrics
  impactScore : Binary64
  accepted : Bool

/-- What analyzer, detector, optimizer and validator make of a history. -/
structure Proposal where
  analysis : AnalysisSummary
  patterns : List Pattern
  actions : List ImprovementAction
  rejectedActions : List ImprovementAction

structure ImprovementPlan (T : Type) extends Proposal where
  version : String
  record : Option (ImprovementRecord T)

/-- The mean latencies of the steps, rounded to three decimals. -/
def stepLatencies (records : List Fields) : Except Fault (List (String × Binary64)) := do
  let values ← records.mapM fun record =>
    Option.map (fun latency => (Analyzer.stepId record, latency)) <$> latencyMs record
  let timed : List (String × Binary64) := values.reduceOption
  return (Analyzer.sortedCounts (timed.map Prod.fst)).map fun (step, count) =>
    let total : Binary64 := ((timed.filter fun entry => entry.1 = step).map Prod.snd).foldl (· + ·) 0
    (step, (total.divNat count).round 3)

/-- The latencies that the detector finds patterns in; `int` raises of an infinite one. -/
def detectable (entries : List (String × Binary64)) : Except Fault (List (String × ℚ)) :=
  List.reduceOption <$> entries.mapM fun entry =>
    match entry.2 with
    | .finite latency _ => .ok (some (entry.1, latency))
    | .infinite false => .error .overflowError
    | _ => .ok none

/-- The stages that the engine has unless it is given others. -/
def propose (records : List Fields) : Except Fault Proposal := do
  let stepLatency ← detectable (← stepLatencies records)
  let analysis := { Analyzer.analyze records with stepLatency }
  let patterns := Detector.detect analysis
  let actions := Optimizer.generate patterns
  return {
    analysis, patterns
    actions := actions.filter Validator.isSafe
    rejectedActions := actions.filter fun action => !Validator.isSafe action }

/-! ### The store during a run -/

inductive DecisionRecord (T : Type) where
  | fields (record : Fields)
  /-- The event about a run, which tells whether there was a rollback. -/
  | improvement (record : ImprovementRecord T) (rollbackExecuted : Bool)

namespace DecisionRecord

variable {T : Type}

def isImprovementRecord : DecisionRecord T → Bool
  | fields record => Improvement.isImprovementRecord record
  | improvement _ _ => true

def isAccepted : DecisionRecord T → Bool
  | fields record => Improvement.isAccepted record
  | improvement record _ => record.accepted

def versionOf : DecisionRecord T → Option ℤ
  | fields record => Improvement.versionOf record
  | improvement record _ => some record.version

/-- `record.get("impact_score")`, as far as it is one; what is no number is no float. -/
def impactScore : DecisionRecord T → Option (Option Binary64)
  | fields record =>
      match record.get? "impact_score" with
      | none => none
      | some .none => none
      | some score => some (score.number?.map .ofRat)
  | improvement record _ => some (some record.impactScore)

end DecisionRecord

/-- What others do before one access: what becomes of the execution stream, and what they append to the
decision stream. -/
structure Batch where
  execution : List Fields → List Fields
  records : List Fields

/-- The two streams, and what others will do before the next accesses. -/
structure World (T : Type) where
  execution : List Fields
  decisions : List (DecisionRecord T)
  others : List Batch

/-- The streams at the next access. -/
def World.next {T : Type} (w : World T) : World T :=
  match w.others with
  | [] => w
  | batch :: others =>
      { execution := batch.execution w.execution
        decisions := w.decisions ++ batch.records.map .fields
        others }

/-! ### A run -/

section Run

variable {T : Type}

def liftExcept {σ α : Type} : Except Fault α → EStateM Fault σ α
  | .ok a => pure a
  | .error e => throw e

def readExecutionHistory : EStateM Fault (World T) (List Fields) := do
  modify World.next
  return (← get).execution

def readDecisions : EStateM Fault (World T) (List (DecisionRecord T)) := do
  modify World.next
  return (← get).decisions

/-- `_write_memory_event`. -/
def write (record : DecisionRecord T) : EStateM Fault (World T) PUnit :=
  modify fun w => { w.next with decisions := w.next.decisions ++ [record] }

def writeEvents (events : List ImprovementEvent) : EStateM Fault (World T) PUnit :=
  events.forM fun event => write (.fields event.toFields)

def isOnCooldown : EStateM Fault (World T) Bool := do
  let records ← readDecisions
  return match records.reverse.findIdx? DecisionRecord.isAccepted with
    | some since => since < cooldownCycles
    | none => false

def nextImprovementVersion : EStateM Fault (World T) ℤ := do
  let records ← readDecisions
  return match (records.filter DecisionRecord.isImprovementRecord).mapM DecisionRecord.versionOf with
    | some (version :: versions) => versions.foldl max version + 1
    | _ => 1

/-- `_should_accept_improvement_with_memory`. -/
def shouldAccept (score : Binary64) : EStateM Fault (World T) Bool :=
  if score < minImprovementDelta then pure false
  else do
    let records ← readDecisions
    match (records.reverse.find? DecisionRecord.isAccepted).bind DecisionRecord.impactScore with
    | none => return true
    | some (some last) => return !score.atMost last
    | some none => throw .typeError

/-- `_execute_rollback`, which tells whether there was a rollback. -/
def rollbackExecuted (record : ImprovementRecord T) : Bool :=
  !Binary64.atMost 0 record.impactScore && !record.rollbackActions.isEmpty

variable (sum : List Binary64 → Binary64) (stages : List Fields → Except Fault Proposal)

/-- `run`, at a time. -/
def run (now : T) : EStateM Fault (World T) (ImprovementPlan T) := do
  let cooldown ← isOnCooldown
  let historyBefore ← readExecutionHistory
  let metricsBefore ← liftExcept (compute sum historyBefore)
  let proposal ← liftExcept (stages historyBefore)
  let applied := if cooldown then [] else proposal.actions
  writeEvents (actionEvents applied "success")
  writeEvents (actionEvents proposal.rejectedActions "rejected")
  writeEvents (if cooldown then [.cooldownActive] else [])
  let historyAfter ← readExecutionHistory
  let metricsAfter ← liftExcept (compute sum historyAfter)
  let impactScore := impactScore metricsBefore metricsAfter
  let accepted ← shouldAccept impactScore
  let rollbackVersion ← nextImprovementVersion
  let version ← nextImprovementVersion
  let record : ImprovementRecord T :=
    { id := recordName version
      timestamp := now
      patterns := proposal.patterns
      actions := applied
      result := resultText applied cooldown
      version
      rollbackActions := buildRollbackActions applied rollbackVersion
      metricsBefore
      metricsAfter
      impactScore
      accepted := accepted && !applied.isEmpty }
  write (.improvement record (rollbackExecuted record))
  return { proposal with version := "agent-33-v3", actions := applied, record := some record }

end Run

/-! ### Nothing has changed -/

section Metrics

variable {sum : List Binary64 → Binary64}

/-- The sum of the latencies is neither beyond the largest float nor NaN. -/
def Summable (sum : List Binary64 → Binary64) (records : List Fields) : Prop :=
  ∃ values, latencies records = .ok values ∧ sum values ≠ .infinite false ∧ sum values ≠ .nan

theorem averageLatency_cases {values : List Binary64} (hinfinite : sum values ≠ .infinite false)
    (hnan : sum values ≠ .nan) :
    (averageLatency sum values).IsFinite ∨ averageLatency sum values = .infinite true := by
  rw [averageLatency]
  split
  · exact .inl ⟨_, _, Binary64.zero_eq⟩
  · rename_i hne
    have hlength : 0 < values.length := List.length_pos_iff.2 hne
    rcases htotal : sum values with ⟨value, hvalue⟩ | ⟨negative⟩ | _
    · exact .inl (Binary64.isFinite_round (Binary64.isFinite_divNat ⟨_, _, rfl⟩ hlength) 3)
    · cases negative
      · exact absurd htotal hinfinite
      · exact .inr rfl
    · exact absurd htotal hnan

/-- Metrics of which the latency may be infinite below. -/
structure ImprovementMetrics.Sane (metrics : ImprovementMetrics) : Prop where
  successRate : metrics.successRate.IsFinite
  failureRate : metrics.failureRate.IsFinite
  avgStepLatency : metrics.avgStepLatency.IsFinite ∨ metrics.avgStepLatency = .infinite true
  retryRate : metrics.retryRate.IsFinite

theorem sane_compute {records : List Fields} (h : Summable sum records) :
    ∃ metrics, compute sum records = .ok metrics ∧ metrics.Sane := by
  have hzero : (0 : Binary64).IsFinite := ⟨_, _, Binary64.zero_eq⟩
  rw [compute]
  split
  · exact ⟨_, rfl, hzero, hzero, .inl hzero, hzero⟩
  · obtain ⟨values, hvalues, hinfinite, hnan⟩ := h
    have hrate : ∀ p : Fields → Bool,
        ((Binary64.ratio (records.countP p) records.length).round 4).IsFinite := fun p =>
      Binary64.isFinite_round (Binary64.isFinite_ratio List.countP_le_length) 4
    rw [hvalues]
    exact ⟨_, rfl, hrate _, hrate _, averageLatency_cases hinfinite hnan, hrate _⟩

theorem same_self {x : Binary64} (h : x.IsFinite ∨ x = .infinite true) : x.same x = true := by
  rcases h with ⟨value, hvalue, rfl⟩ | rfl
  · exact decide_eq_true rfl
  · rfl

variable {metrics : ImprovementMetrics} (h : metrics.Sane)

include h

theorem equal_self : metrics.equal metrics = true := by
  simp [ImprovementMetrics.equal, same_self (.inl h.successRate), same_self (.inl h.failureRate),
    same_self h.avgStepLatency, same_self (.inl h.retryRate)]

theorem impactScore_self : impactScore metrics metrics = 0 := by
  have hlatency : (if 0 < metrics.avgStepLatency then
      (metrics.avgStepLatency - metrics.avgStepLatency) / metrics.avgStepLatency else 0) = 0 := by
    split
    · rename_i hpos
      rcases h.avgStepLatency with hfinite | hinfinite
      · rw [Binary64.sub_self_of_isFinite hfinite, Binary64.zero_div_of_pos hpos]
      · rw [hinfinite, Binary64.zero_eq] at hpos
        cases hpos
    · rfl
  have hscore : (((0 * weightSuccess + 0 * weightFailure + 0 * weightLatency).minimum 1).maximum
      (-1)).round 4 = 0 := by decide +kernel
  rw [impactScore, hlatency, Binary64.sub_self_of_isFinite h.successRate,
    Binary64.sub_self_of_isFinite h.failureRate]
  exact hscore

end Metrics

/-! ### A run that finds the history as it was -/

section Run

variable {T : Type} {w : World T} {history : List Fields}

/-- Others leave the execution stream alone, and accept nothing. -/
structure Batch.Quiet (batch : Batch) : Prop where
  execution : batch.execution = id
  noneAccepted : ∀ record ∈ batch.records, isAccepted record = false

/-- During a run: the history is as it was, and nothing has been accepted. -/
structure Undisturbed (history : List Fields) (w : World T) : Prop where
  execution : w.execution = history
  noneAccepted : ∀ record ∈ w.decisions, record.isAccepted = false
  quiet : ∀ batch ∈ w.others, batch.Quiet

theorem Undisturbed.next (h : Undisturbed history w) : Undisturbed history w.next := by
  rw [World.next]
  split
  · exact h
  · rename_i batch others hothers
    have hquiet := h.quiet
    rw [hothers, List.forall_mem_cons] at hquiet
    refine ⟨?_, fun record hmem => ?_, hquiet.2⟩
    · rw [hquiet.1.execution]
      exact h.execution
    rcases List.mem_append.1 hmem with hmem | hmem
    · exact h.noneAccepted record hmem
    · obtain ⟨fields, hfields, rfl⟩ := List.mem_map.1 hmem
      exact hquiet.1.noneAccepted fields hfields

theorem Undisturbed.concat (h : Undisturbed history w) {record : DecisionRecord T}
    (hrecord : record.isAccepted = false) :
    Undisturbed history { w with decisions := w.decisions ++ [record] } := by
  refine ⟨h.execution, fun other hmem => ?_, h.quiet⟩
  rcases List.mem_append.1 hmem with hmem | hmem
  · exact h.noneAccepted other hmem
  · exact List.mem_singleton.1 hmem ▸ hrecord

theorem ends_isOnCooldown (h : Undisturbed history w) :
    Ends (fun cooldown w' => cooldown = false ∧ Undisturbed history w') (fun _ _ => False)
      isOnCooldown w := by
  have hnone : w.next.decisions.reverse.findIdx? DecisionRecord.isAccepted = none := by
    rw [List.findIdx?_eq_none_iff]
    exact fun record hmem => h.next.noneAccepted record (List.mem_reverse.1 hmem)
  refine ⟨?_, h.next⟩
  show (match w.next.decisions.reverse.findIdx? DecisionRecord.isAccepted with
    | some since => decide (since < cooldownCycles)
    | none => false) = false
  rw [hnone]

theorem ends_writeEvents {events : List ImprovementEvent}
    (hevents : ∀ event ∈ events, Improvement.isImprovementRecord event.toFields = false)
    (h : Undisturbed history w) :
    Ends (fun _ w' => Undisturbed history w') (fun _ _ => False) (writeEvents events) w := by
  refine ends_forM (fun _ w' => Undisturbed history w') (fun past event w' hpast hw' => ?_) h
  exact hw'.next.concat (isAccepted_of_not_record
    (hevents event (hpast.subset (List.mem_append_right _ List.mem_cons_self))))

theorem isImprovementRecord_actionEvents (actions : List ImprovementAction) (result : String) :
    ∀ event ∈ actionEvents actions result,
      Improvement.isImprovementRecord event.toFields = false := by
  intro event hmem
  obtain ⟨_, _, rfl⟩ := List.mem_map.1 hmem
  rfl

variable {sum : List Binary64 → Binary64} {stages : List Fields → Except Fault Proposal}

theorem rollbackExecuted_of_zero {record : ImprovementRecord T} (h : record.impactScore = 0) :
    rollbackExecuted record = false := by
  have hzero : Binary64.atMost 0 0 = true := by decide +kernel
  rw [rollbackExecuted, h, hzero]
  rfl

/-- The record of a run of which nothing comes, and what is left of it. -/
def Idle (plan : ImprovementPlan T) (w : World T) : Prop :=
  ∃ record, plan.record = some record ∧ record.metricsBefore.equal record.metricsAfter = true
    ∧ record.impactScore = 0 ∧ record.accepted = false
    ∧ w.decisions.getLast? = some (.improvement record false)

/-- **A run that finds the history as it was** accepts nothing and rolls nothing back. -/
theorem ends_run (now : T) (hsummable : Summable sum history)
    (hstages : ∃ proposal, stages history = .ok proposal) (h : Undisturbed history w) :
    Ends (fun plan w' => Undisturbed history w' ∧ Idle plan w') (fun _ _ => False)
      (run sum stages now) w := by
  obtain ⟨metrics, hmetrics, hsane⟩ := sane_compute hsummable
  obtain ⟨proposal, hproposal⟩ := hstages
  refine ends_bind_of (ends_isOnCooldown h) ?_
  rintro _ w₁ ⟨rfl, h₁⟩
  have hread : ∀ {w : World T}, Undisturbed history w →
      readExecutionHistory w = .ok history w.next :=
    fun hw => congrArg (EStateM.Result.ok · _) hw.next.execution
  have hmeasure : ∀ w : World T, liftExcept (compute sum history) w = .ok metrics w := by
    intro w
    rw [hmetrics]
    rfl
  have hpropose : ∀ w : World T, liftExcept (stages history) w = .ok proposal w := by
    intro w
    rw [hproposal]
    rfl
  have hgate : ∀ w : World T, shouldAccept (impactScore metrics metrics) w = .ok false w := by
    intro w
    rw [impactScore_self hsane, shouldAccept, if_pos (by decide +kernel)]
    rfl
  have hversion : ∀ {w : World T}, Undisturbed history w →
      Ends (fun _ w' => Undisturbed history w') (fun _ _ => False) nextImprovementVersion w :=
    fun hw => hw.next
  refine (ends_congr (bind_of_ok (hread h₁))).2 ?_
  refine (ends_congr (bind_of_ok (hmeasure _))).2 ?_
  refine (ends_congr (bind_of_ok (hpropose _))).2 ?_
  refine ends_bind_of (ends_writeEvents (isImprovementRecord_actionEvents _ _) h₁.next)
    fun _ w₂ h₂ => ?_
  refine ends_bind_of (ends_writeEvents (isImprovementRecord_actionEvents _ _) h₂) fun _ w₃ h₃ => ?_
  refine ends_bind_of (ends_writeEvents nofun h₃) fun _ w₄ h₄ => ?_
  refine (ends_congr (bind_of_ok (hread h₄))).2 ?_
  refine (ends_congr (bind_of_ok (hmeasure _))).2 ?_
  refine (ends_congr (bind_of_ok (hgate _))).2 ?_
  refine ends_bind_of (hversion h₄.next) fun rollbackVersion w₅ h₅ => ?_
  refine ends_bind_of (hversion h₅) fun version w₆ h₆ => ?_
  refine ⟨h₆.next.concat rfl, _, rfl, equal_self hsane, impactScore_self hsane, rfl, ?_⟩
  rw [List.getLast?_concat, rollbackExecuted_of_zero]
  exact impactScore_self hsane

end Run

/-! ### Runs -/

section Runs

variable {T : Type}

/-- A run: when it is, the execution stream as it finds it, and what others do meanwhile. -/
structure Call (T : Type) where
  now : T
  execution : List Fields
  others : List Batch
  quiet : ∀ batch ∈ others, batch.Quiet

def Call.world (call : Call T) (decisions : List (DecisionRecord T)) : World T :=
  { execution := call.execution, decisions, others := call.others }

variable (sum : List Binary64 → Binary64) (stages : List Fields → Except Fault Proposal)

/-- One run after the other: none is on cooldown, and nothing comes of any. -/
def RunsIdle : List (Call T) → List (DecisionRecord T) → Prop
  | [], _ => True
  | call :: later, decisions =>
      (∃ w, isOnCooldown (call.world decisions) = .ok false w)
        ∧ ∃ plan w, run sum stages call.now (call.world decisions) = .ok plan w
          ∧ Idle plan w ∧ RunsIdle later w.decisions

/-- **When the gates never act.** If the stages return and the latencies can be summed at every run, and
no improvement has been accepted to begin with, then every run finds the same metrics twice, scores
zero, accepts nothing, rolls nothing back, and is not on cooldown. -/
theorem runs_idle (calls : List (Call T)) (decisions : List (DecisionRecord T))
    (hnone : ∀ record ∈ decisions, record.isAccepted = false)
    (hcalls : ∀ call ∈ calls, Summable sum call.execution
      ∧ ∃ proposal, stages call.execution = .ok proposal) :
    RunsIdle sum stages calls decisions := by
  induction calls generalizing decisions with
  | nil => trivial
  | cons call later ih =>
      obtain ⟨⟨hsummable, hstages⟩, hlater⟩ := List.forall_mem_cons.1 hcalls
      have hstart : Undisturbed call.execution (call.world decisions) := ⟨rfl, hnone, call.quiet⟩
      obtain ⟨_, w, hcooldown, rfl, _⟩ := ends_never_raises.1 (ends_isOnCooldown hstart)
      obtain ⟨plan, w', hrun, hend, hidle⟩ :=
        ends_never_raises.1 (ends_run call.now hsummable hstages hstart)
      exact ⟨⟨w, hcooldown⟩, plan, w', hrun, hidle, ih w'.decisions hend.noneAccepted hlater⟩

end Runs

/-! ### Latencies beyond the largest float -/

def leftSum (values : List Binary64) : Binary64 := values.foldl (· + ·) 0

def failedStep (id : String) (durationMs : Value) : Fields :=
  [("success", .bool false), ("current_step", .dict [("id", .str id)]),
    ("result", .dict [("duration_ms", durationMs)])]

def call (durationMs : Value) : Call Instant where
  now := .mk
  execution := [failedStep "fetch" durationMs, failedStep "parse" durationMs]
  others := []
  quiet := nofun

theorem summable_call : Summable leftSum (call (.float 25 (-1))).execution :=
  ⟨_, rfl, by decide +kernel, by decide +kernel⟩

theorem runs_idle_failed : RunsIdle leftSum propose (.replicate 2 (call (.float 25 (-1)))) [] := by
  refine runs_idle leftSum propose _ _ (fun _ hmem => absurd hmem List.not_mem_nil)
    fun failed hmem => ?_
  rw [List.eq_of_mem_replicate hmem]
  refine ⟨summable_call, ?_⟩
  cases hproposal : propose (call (.float 25 (-1))).execution with
  | ok proposal => exact ⟨proposal, rfl⟩
  | error fault =>
      have hok : (propose (call (.float 25 (-1))).execution).isOk = true := by decide +kernel
      rw [hproposal] at hok
      cases hok

/-- Two latencies of which each is a float and the sum is not: the score is NaN, which passes every
gate, and the next run is on cooldown. -/
theorem accepted_of_overflow :
    Ends (fun plan w =>
        (∃ record ∈ plan.record, record.impactScore = .nan ∧ record.accepted = true
          ∧ rollbackExecuted record = true)
        ∧ Ends (fun cooldown _ => cooldown = true) (fun _ _ => False) isOnCooldown
          ((call (.float 1 308)).world w.decisions))
      (fun _ _ => False) (run leftSum propose .mk) ((call (.float 1 308)).world []) := by
  decide +kernel

theorem overflow_not_idle : ¬ RunsIdle leftSum propose (.replicate 2 (call (.float 1 308))) [] := by
  rintro ⟨-, plan, w, hrun, ⟨record, hrecord, -, -, hnot, -⟩, -⟩
  obtain ⟨⟨record', hrecord', -, hyes, -⟩, -⟩ := (ends_of_ok hrun).1 accepted_of_overflow
  cases hrecord.symm.trans hrecord'
  cases hnot.symm.trans hyes

end PersonalDevin.Improvement.Gates
