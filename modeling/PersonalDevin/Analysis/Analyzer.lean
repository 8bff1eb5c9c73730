import PersonalDevin.Analysis.Detector
import PersonalDevin.Lib.KeepBest
import PersonalDevin.Memory.Contract

/-!
# The analyzer

`Analyzer.analyze` runs the registered detectors over logs and memory records, gives what they find to
the registered recommendation engines, and keeps one recommendation for each id, the most urgent ones
first. The engine of the default registry keeps one for each id already.
-/

namespace PersonalDevin.Analysis

open Lib
open Memory (MemoryRecord Timestamp)
open SelfImprovement.Patterns (Fault quotient)

/-! ### Recommendations -/

structure Recommendation where
  recommendationId : String
  priority : ℤ
  title : String
  action : String
  rationale : String
  deriving DecidableEq

namespace Recommendation

/-- `(priority, recommendation_id)`. -/
def key (recommendation : Recommendation) : ℤ ×ₗ String :=
  toLex (recommendation.priority, recommendation.recommendationId)

/-- One recommendation among those that are kept under their ids. -/
def keep (deduped : Dict String Recommendation) (recommendation : Recommendation) :
    Dict String Recommendation :=
  match deduped.get? recommendation.recommendationId with
  | none => deduped.set recommendation.recommendationId recommendation
  | some existing =>
      if recommendation.priority < existing.priority then
        deduped.set recommendation.recommendationId recommendation
      else deduped

def ordered (recommendations : List Recommendation) : List Recommendation :=
  (recommendations.foldl keep .empty).values.insertionSort (key · ≤ key ·)

end Recommendation

/-! ### The recommendation that stays -/

namespace Recommendation

/-- The recommendation that stays of those with its id: no other one is more urgent, and those before it
are less urgent. -/
def Stays (recommendations : List Recommendation) (recommendation : Recommendation) : Prop :=
  ∃ before after, recommendations = before ++ recommendation :: after
    ∧ (∀ r ∈ before, r.recommendationId = recommendation.recommendationId →
      recommendation.priority < r.priority)
    ∧ ∀ r ∈ after, r.recommendationId = recommendation.recommendationId →
      recommendation.priority ≤ r.priority

structure IsOrdered (recommendations ordered : List Recommendation) : Prop where
  mem_iff : ∀ r, r ∈ ordered ↔ Stays recommendations r
  nodup : (ordered.map recommendationId).Nodup
  pairwise : ordered.Pairwise (key · < key ·)

def moreUrgent (a b : Recommendation) : Bool := a.priority < b.priority

def asUrgent (a b : Recommendation) : Bool := a.priority = b.priority

theorem contest : Contest moreUrgent asUrgent where
  irrefl a := by simp [moreUrgent]
  trans a b c hab hbc := by
    simp only [moreUrgent, decide_eq_true_eq] at *
    exact hab.trans hbc
  congr a b c hab hbc := by
    simp only [moreUrgent, asUrgent, decide_eq_true_eq] at *
    exact hab.trans_lt hbc

/-- The pass that keeps the best of each id, without those that it rejects. -/
abbrev selection (recommendations : List Recommendation) : Selection String Recommendation :=
  select recommendationId (fun _ => true) moreUrgent recommendations

theorem foldl_keep (recommendations : List Recommendation) (s : Selection String Recommendation) :
    recommendations.foldl keep s.chosen
      = (recommendations.foldl
          (Selection.consider recommendationId (fun _ => true) moreUrgent) s).chosen := by
  induction recommendations generalizing s with
  | nil => rfl
  | cons r rest ih =>
      have hstep : keep s.chosen r
          = (s.consider recommendationId (fun _ => true) moreUrgent r).chosen := by
        rw [Selection.consider, if_pos rfl, keep]
        cases s.chosen.get? r.recommendationId with
        | none => rfl
        | some existing =>
            by_cases hless : r.priority < existing.priority
            · simp [moreUrgent, hless]
            · simp [moreUrgent, hless]
      rw [List.foldl_cons, List.foldl_cons, hstep, ih]

theorem ordered_eq (recommendations : List Recommendation) :
    ordered recommendations
      = (selection recommendations).chosen.values.insertionSort (key · ≤ key ·) := by
  rw [ordered]
  exact congrArg (fun d : Dict String Recommendation => d.values.insertionSort (key · ≤ key ·))
    (foldl_keep recommendations ⟨.empty, []⟩)

theorem selects_selection (recommendations : List Recommendation) :
    Selects recommendationId (fun _ => true) moreUrgent asUrgent (selection recommendations)
      recommendations := selects_select contest recommendations

theorem stays_of_firstBest {recommendations : List Recommendation} {id : String}
    {r : Recommendation}
    (h : FirstBest recommendationId (fun _ => true) moreUrgent asUrgent id recommendations r) :
    Stays recommendations r := by
  obtain ⟨before, after, hsplit, hfirst⟩ := h.first
  have hunbeaten : ∀ b ∈ recommendations, b.recommendationId = r.recommendationId →
      r.priority ≤ b.priority := by
    intro b hb hid
    have hbeats := h.unbeaten b hb (hid.trans h.key_eq) rfl
    simpa [moreUrgent] using hbeats
  refine ⟨before, after, hsplit, fun b hb hid => ?_, fun b hb hid => ?_⟩
  · have hle := hunbeaten b (hsplit ▸ List.mem_append_left _ hb) hid
    have hne := hfirst b hb (hid.trans h.key_eq) rfl
    exact lt_of_le_of_ne hle fun heq => by simp [asUrgent, heq] at hne
  · exact hunbeaten b (hsplit ▸ List.mem_append_right _ (List.mem_cons_of_mem _ hb)) hid

/-- Of those with one id one stays. -/
theorem Stays.unique {recommendations : List Recommendation} {r r' : Recommendation}
    (h : Stays recommendations r) (h' : Stays recommendations r')
    (hid : r.recommendationId = r'.recommendationId) : r = r' := by
  obtain ⟨before, after, rfl, hbefore, hafter⟩ := h
  obtain ⟨before', after', hsplit, hbefore', hafter'⟩ := h'
  rcases List.append_eq_append_iff.1 hsplit with ⟨between, rfl, hrest⟩ | ⟨between, rfl, hrest⟩
  · cases between with
    | nil => exact (List.cons.inj hrest).1
    | cons first rest =>
        obtain ⟨rfl, rfl⟩ := List.cons.inj hrest
        have hless := hbefore' r (List.mem_append_right _ List.mem_cons_self) hid
        have hle := hafter r' (List.mem_append_right _ List.mem_cons_self) hid.symm
        exact absurd hle hless.not_ge
  · cases between with
    | nil => exact (List.cons.inj hrest).1.symm
    | cons first rest =>
        obtain ⟨rfl, rfl⟩ := List.cons.inj hrest
        have hless := hbefore r' (List.mem_append_right _ List.mem_cons_self) hid.symm
        have hle := hafter' r (List.mem_append_right _ List.mem_cons_self) hid
        exact absurd hle hless.not_ge

theorem isOrdered_ordered (recommendations : List Recommendation) :
    IsOrdered recommendations (ordered recommendations) := by
  have hselects := selects_selection recommendations
  have hids : ((selection recommendations).chosen.values.map recommendationId).Nodup := by
    have hkeys : (selection recommendations).chosen.values.map recommendationId
        = (selection recommendations).chosen.keys := by
      rw [Dict.values, Dict.keys, List.map_map]
      refine List.map_congr_left fun entry hentry => ?_
      exact (hselects.best entry.1 entry.2 (Dict.mem_entries_iff.1 hentry)).key_eq
    rw [hkeys]
    exact (selection recommendations).chosen.nodup
  rw [ordered_eq]
  have hperm := List.perm_insertionSort (key · ≤ key ·) (selection recommendations).chosen.values
  have hnodup := (hperm.map recommendationId).nodup_iff.2 hids
  refine ⟨fun r => ?_, hnodup, ?_⟩
  · rw [hperm.mem_iff, Dict.mem_values_iff]
    constructor
    · rintro ⟨id, hget⟩
      exact stays_of_firstBest (hselects.best id r hget)
    · intro hstays
      have hmem : r ∈ recommendations := by
        obtain ⟨before, after, rfl, -⟩ := hstays
        exact List.mem_append_right _ List.mem_cons_self
      obtain ⟨kept, hget⟩ := Option.isSome_iff_exists.1 (hselects.complete r hmem rfl)
      have hkept := hselects.best _ kept hget
      rw [(stays_of_firstBest hkept).unique hstays hkept.key_eq] at hget
      exact ⟨_, hget⟩
  · have hsorted := pairwise_insertionSort_key key (selection recommendations).chosen.values
    have hdistinct := List.pairwise_map.1 hnodup
    exact (hsorted.and hdistinct).imp fun h =>
      lt_of_le_of_ne h.1 fun heq => h.2 (congrArg Prod.snd (toLex_inj.1 heq))

/-- Where the ids are distinct, all of them stay. -/
theorem ordered_perm_of_nodup {recommendations : List Recommendation}
    (h : (recommendations.map recommendationId).Nodup) :
    (ordered recommendations).Perm recommendations := by
  have hordered := isOrdered_ordered recommendations
  refine (List.perm_ext_iff_of_nodup (hordered.nodup.of_map _) (h.of_map _)).2 fun r => ?_
  rw [hordered.mem_iff]
  constructor
  · rintro ⟨before, after, rfl, -⟩
    exact List.mem_append_right _ List.mem_cons_self
  · intro hmem
    obtain ⟨before, after, rfl⟩ := List.append_of_mem hmem
    rw [List.map_append, List.map_cons, List.nodup_append, List.nodup_cons] at h
    obtain ⟨-, ⟨hafter, -⟩, hbefore⟩ := h
    refine ⟨before, after, rfl, fun b hb hid => ?_, fun b hb hid => ?_⟩
    · exact absurd hid
        (hbefore _ (List.mem_map_of_mem hb) _ List.mem_cons_self)
    · exact absurd (hid ▸ List.mem_map_of_mem hb) hafter

end Recommendation

/-! ### The recommendation engine -/

def stabilize (pattern : FailurePattern) : Option Recommendation :=
  if pattern.count < 2 then none
  else some {
    recommendationId := "stabilize-" ++ pattern.patternId
    priority := 1
    title := "Stabilize recurring failure"
    action := "Add targeted guardrails for '" ++ pattern.signature ++ "' from " ++ pattern.source ++ "."
    rationale := "Observed " ++ Nat.repr pattern.count ++ " occurrences of the same failure signature." }

def inefficiencyMap : List (String × String × ℤ × String × String) :=
  [(highAverageDuration, "reduce-latency", 2, "Reduce average execution latency",
      "Profile slow steps and split oversized tasks to improve throughput."),
    (lowSuccessRate, "improve-success-rate", 1, "Improve task success rate",
      "Increase validation and precondition checks before task execution."),
    (retryActivityDetected, "tighten-retry-policy", 2, "Tighten retry policy",
      "Cap retries and add explicit fallback handling for repeat failures.")]

def improve (inefficiency : String) : Option Recommendation :=
  (inefficiencyMap.lookup inefficiency).map fun (recId, priority, title, action) => {
    recommendationId := recId
    priority
    title
    action
    rationale := "Detected inefficiency signal: " ++ inefficiency }

def breakLoop (target : String) : Recommendation where
  recommendationId := "retry-loop-" ++ target
  priority := 1
  title := "Break retry loop"
  action := "Introduce circuit breaker or cooldown for target '" ++ target ++ "'."
  rationale := "Repeated retries indicate unstable recovery behavior."

/-- The recommendations in the order in which `generate` comes to them. -/
def proposals (failurePatterns : List FailurePattern) (inefficiencies retryLoops : List String) :
    List Recommendation :=
  failurePatterns.filterMap stabilize ++ inefficiencies.filterMap improve ++ retryLoops.map breakLoop

def generate (failurePatterns : List FailurePattern) (inefficiencies retryLoops : List String) :
    List Recommendation :=
  Recommendation.ordered (proposals failurePatterns inefficiencies retryLoops)

/-! ### The registry -/

abbrev RecommendationGenerator :=
  List FailurePattern → List String → List String → List Recommendation

/-- The detectors under the three names whose output is read, and the recommendation engines. -/
structure AnalysisRegistry where
  failurePatterns : Option (List Fields → List Fields → Except Fault (List FailurePattern))
  inefficiencies : Option (List Fields → List Fields → Except Fault (List String))
  retryLoops : Option (List Fields → List Fields → Except Fault (List String))
  recommendationEngines : Dict String RecommendationGenerator

def AnalysisRegistry.listRecommendationEngines (registry : AnalysisRegistry) :
    List (String × RecommendationGenerator) :=
  registry.recommendationEngines.entries.insertionSort (·.1 ≤ ·.1)

def createDefaultRegistry : AnalysisRegistry where
  failurePatterns := some fun logs memory => .ok (detectFailurePatterns logs memory)
  inefficiencies := some fun logs _ => detectInefficiencies logs
  retryLoops := some fun logs _ => .ok (detectRetryLoops logs)
  recommendationEngines := Dict.empty.set "default" generate

/-! ### The report -/

structure ExecutionTraceSummary where
  totalEvents : ℕ
  successfulEvents : ℕ
  failedEvents : ℕ
  retryEvents : ℤ
  averageDurationMs : Binary64

structure AnalysisReport where
  executionId : String
  successRate : Binary64
  failurePatterns : List FailurePattern
  inefficiencies : List String
  recommendations : List Recommendation
  confidenceScore : Binary64
  traceSummary : ExecutionTraceSummary

/-- What is given to the analyzer as a memory record. -/
inductive Observed (T : Type) where
  | record (memory : MemoryRecord T)
  | dict (entries : Fields)

def buildTraceSummary (executionLogs : List Fields) : Except Fault ExecutionTraceSummary := do
  let averageDurationMs ←
    if durationValues executionLogs = [] then .ok 0
    else Binary64.round 4 <$> averageDuration executionLogs
  return {
    totalEvents := executionLogs.length
    successfulEvents := executionLogs.countP hasSucceeded
    failedEvents := executionLogs.countP hasFailed
    retryEvents := retryEvents executionLogs
    averageDurationMs }

def calculateConfidence (traceSummary : ExecutionTraceSummary) (failurePatterns : List FailurePattern)
    (inefficiencies : List String) (recommendations : List Recommendation) : Binary64 :=
  let score := Binary64.ofRat (45 / 100)
    + Binary64.ofInt (min traceSummary.totalEvents 20) * Binary64.ofRat (1 / 100)
  let score := if failurePatterns ≠ [] then score + Binary64.ofRat (12 / 100) else score
  let score := if inefficiencies ≠ [] then score + Binary64.ofRat (8 / 100) else score
  let score := if recommendations ≠ [] then score + Binary64.ofRat (1 / 10) else score
  let score := if 0 < traceSummary.totalEvents ∧ traceSummary.failedEvents = 0 then
    score + Binary64.ofRat (5 / 100) else score
  (score.minimum (Binary64.ofRat (99 / 100))).round 4

/-- What the detectors find, or nothing under a name that has none. -/
structure Findings where
  failurePatterns : List FailurePattern
  inefficiencies : List String
  retryLoops : List String

/-- The loop over the detectors, which are called in the order of their names. -/
def detect (registry : AnalysisRegistry) (logs memory : List Fields) : Except Fault Findings := do
  let failurePatterns ← match registry.failurePatterns with
    | some detector => detector logs memory
    | none => .ok []
  let inefficiencies ← match registry.inefficiencies with
    | some detector => detector logs memory
    | none => .ok []
  let retryLoops ← match registry.retryLoops with
    | some detector => detector logs memory
    | none => .ok []
  return ⟨failurePatterns, distinct inefficiencies, distinct retryLoops⟩

/-- What the engines recommend, in the order of their names. -/
def recommend (registry : AnalysisRegistry) (findings : Findings) : List Recommendation :=
  registry.listRecommendationEngines.flatMap fun engine =>
    engine.2 findings.failurePatterns findings.inefficiencies findings.retryLoops

section Analyze

variable {T : Type} [Timestamp T]

def Observed.normalize : Observed T → Fields
  | record memory => memory.toDict
  | dict entries =>
      match entries.get? "timestamp" with
      | none => entries
      | some .none => entries
      | some timestamp => upsert "timestamp" (.str timestamp.pyStr) entries

def analyze (registry : AnalysisRegistry) (executionId : String) (executionLogs : List Fields)
    (memoryRecords : List (Observed T)) : Except Fault AnalysisReport := do
  let memory := memoryRecords.map Observed.normalize
  let traceSummary ← buildTraceSummary executionLogs
  let successRate := if traceSummary.totalEvents = 0 then 0
    else Binary64.ratio traceSummary.successfulEvents traceSummary.totalEvents
  let findings ← detect registry executionLogs memory
  let recommendations := Recommendation.ordered (recommend registry findings)
  return {
    executionId
    successRate := successRate.round 4
    failurePatterns := findings.failurePatterns
    inefficiencies := findings.inefficiencies
    recommendations
    confidenceScore := calculateConfidence traceSummary findings.failurePatterns
      findings.inefficiencies recommendations
    traceSummary }

/-! ### What the recommendations are -/

variable {registry : AnalysisRegistry} {executionId : String} {executionLogs : List Fields}
  {memoryRecords : List (Observed T)} {report : AnalysisReport}

theorem findings_of_analyze (h : analyze registry executionId executionLogs memoryRecords = .ok report) :
    ∃ findings, detect registry executionLogs (memoryRecords.map Observed.normalize) = .ok findings
      ∧ report.failurePatterns = findings.failurePatterns
      ∧ report.inefficiencies = findings.inefficiencies
      ∧ report.recommendations = Recommendation.ordered (recommend registry findings) := by
  obtain ⟨traceSummary, -, h⟩ := except_bind_eq_ok_iff.1 h
  obtain ⟨findings, hfindings, h⟩ := except_bind_eq_ok_iff.1 h
  cases h
  exact ⟨findings, hfindings, rfl, rfl, rfl⟩

/-- **The recommendations of a report**, whatever the detectors find and the engines recommend: they have
distinct ids, the urgent ones come first, and of all recommendations with an id the first of the most
urgent ones is there. -/
theorem analyze_recommendations {findings : Findings}
    (hfindings : detect registry executionLogs (memoryRecords.map Observed.normalize) = .ok findings)
    (h : analyze registry executionId executionLogs memoryRecords = .ok report) :
    Recommendation.IsOrdered (recommend registry findings) report.recommendations := by
  obtain ⟨findings', hfindings', -, -, hrecommendations⟩ := findings_of_analyze h
  obtain rfl := Except.ok.inj (hfindings.symm.trans hfindings')
  exact hrecommendations ▸ Recommendation.isOrdered_ordered _

end Analyze

/-! ### Two timeouts -/

def timeoutLogs : List Fields :=
  [[("task_id", .str "execute"), ("status", .str "failed"), ("error", .str "timeout")],
    [("task_id", .str "plan"), ("status", .str "completed")],
    [("task_id", .str "execute"), ("status", .str "error"), ("error", .str "timeout")]]

def timeoutMemory : List (Observed Memory.Instant) :=
  [.dict [("type", .str "failure"), ("data", .dict [("source", .str "executor")])],
    .dict [("type", .str "failure"), ("data", .dict [("source", .str "planner")])]]

/-- The recommendations of the default engine, each a step less urgent. -/
def cautious : RecommendationGenerator := fun patterns inefficiencies loops =>
  (generate patterns inefficiencies loops).map fun r => { r with priority := r.priority + 1 }

/-- The second engine comes first by its name, and gives the ids of the default one again. -/
def twoEngines : Dict String RecommendationGenerator :=
  createDefaultRegistry.recommendationEngines.set "cautious" cautious

theorem analyze_recommendations_timeout :
    ∃ findings report,
      detect { createDefaultRegistry with recommendationEngines := twoEngines } timeoutLogs
          (timeoutMemory.map Observed.normalize) = .ok findings
        ∧ analyze { createDefaultRegistry with recommendationEngines := twoEngines } "run" timeoutLogs
          timeoutMemory = .ok report
        ∧ Recommendation.IsOrdered
          (recommend { createDefaultRegistry with recommendationEngines := twoEngines } findings)
          report.recommendations :=
  ⟨_, _, rfl, rfl, @analyze_recommendations _ _
    { createDefaultRegistry with recommendationEngines := twoEngines } "run" timeoutLogs timeoutMemory
    _ _ rfl rfl⟩

section Default

variable {T : Type} [Timestamp T] {executionId : String} {executionLogs : List Fields}
  {memoryRecords : List (Observed T)} {report : AnalysisReport}

/-! ### The default registry -/

/-- The letters that an id of the engine starts with. -/
def idStart (r : Recommendation) : List Char := r.recommendationId.toList.take 3

theorem idStart_stabilize {pattern : FailurePattern} {r : Recommendation}
    (h : stabilize pattern = some r) : idStart r = ['s', 't', 'a'] := by
  rw [stabilize] at h
  split at h
  · cases h
  · obtain rfl := Option.some.inj h
    rw [idStart, String.toList_append]
    rfl

theorem idStart_breakLoop (target : String) : idStart (breakLoop target) = ['r', 'e', 't'] := by
  rw [idStart, breakLoop, String.toList_append]
  rfl

theorem improve_cases {inefficiency : String} {r : Recommendation}
    (h : improve inefficiency = some r) :
    inefficiency = highAverageDuration ∧ r.recommendationId = "reduce-latency"
      ∨ inefficiency = lowSuccessRate ∧ r.recommendationId = "improve-success-rate"
      ∨ inefficiency = retryActivityDetected ∧ r.recommendationId = "tighten-retry-policy" := by
  simp only [improve, inefficiencyMap, lookup_cons_ite, Option.map_eq_some_iff] at h
  obtain ⟨entry, hentry, rfl⟩ := h
  split at hentry
  · cases hentry
    exact .inl ⟨‹_›, rfl⟩
  · split at hentry
    · cases hentry
      exact .inr (.inl ⟨‹_›, rfl⟩)
    · split at hentry
      · cases hentry
        exact .inr (.inr ⟨‹_›, rfl⟩)
      · cases hentry

theorem nodup_ids_stabilize {patterns : List FailurePattern}
    (h : (patterns.map FailurePattern.patternId).Nodup) :
    ((patterns.filterMap stabilize).map Recommendation.recommendationId).Nodup := by
  refine List.pairwise_map.2 (List.Pairwise.filterMap stabilize (fun p q hne r hr r' hr' hid => ?_)
    (List.pairwise_map.1 h))
  rw [stabilize] at hr hr'
  split at hr
  · cases hr
  split at hr'
  · cases hr'
  obtain rfl := Option.some.inj hr
  obtain rfl := Option.some.inj hr'
  exact hne ((String.append_right_inj "stabilize-").1 hid)

theorem nodup_ids_improve {inefficiencies : List String} (h : inefficiencies.Nodup) :
    ((inefficiencies.filterMap improve).map Recommendation.recommendationId).Nodup := by
  refine List.pairwise_map.2 (List.Pairwise.filterMap improve (fun i j hne r hr r' hr' hid => ?_) h)
  rcases improve_cases hr with ⟨hi, hidr⟩ | ⟨hi, hidr⟩ | ⟨hi, hidr⟩ <;>
    rcases improve_cases hr' with ⟨hj, hidr'⟩ | ⟨hj, hidr'⟩ | ⟨hj, hidr'⟩ <;>
    first
      | exact hne (hi.trans hj.symm)
      | exact absurd (hidr.symm.trans (hid.trans hidr')) (by decide)

theorem nodup_ids_breakLoop {targets : List String} (h : targets.Nodup) :
    ((targets.map breakLoop).map Recommendation.recommendationId).Nodup := by
  rw [List.map_map]
  exact h.map fun t t' hid => (String.append_right_inj "retry-loop-").1 hid

/-- Patterns with distinct ids and signals that do not repeat leave the ids of the proposals distinct. -/
theorem nodup_ids_proposals {patterns : List FailurePattern} {inefficiencies targets : List String}
    (hpatterns : (patterns.map FailurePattern.patternId).Nodup) (hinefficiencies : inefficiencies.Nodup)
    (htargets : targets.Nodup) :
    ((proposals patterns inefficiencies targets).map Recommendation.recommendationId).Nodup := by
  have hstart : ∀ r r' : Recommendation, idStart r ≠ idStart r' →
      r.recommendationId ≠ r'.recommendationId :=
    fun r r' hne hid => hne (congrArg (fun id : String => id.toList.take 3) hid)
  have himprove : ∀ i r, improve i = some r →
      idStart r ≠ ['s', 't', 'a'] ∧ idStart r ≠ ['r', 'e', 't'] := by
    intro i r hr
    rcases improve_cases hr with ⟨-, hid⟩ | ⟨-, hid⟩ | ⟨-, hid⟩ <;> rw [idStart, hid] <;> decide
  rw [proposals, List.map_append, List.map_append, List.nodup_append, List.nodup_append]
  refine ⟨⟨nodup_ids_stabilize hpatterns, nodup_ids_improve hinefficiencies, ?_⟩,
    nodup_ids_breakLoop htargets, ?_⟩
  · intro id hid id' hid'
    obtain ⟨r, hr, rfl⟩ := List.mem_map.1 hid
    obtain ⟨r', hr', rfl⟩ := List.mem_map.1 hid'
    obtain ⟨p, -, hp⟩ := List.mem_filterMap.1 hr
    obtain ⟨i, -, hi⟩ := List.mem_filterMap.1 hr'
    exact hstart r r' fun heq => (himprove i r' hi).1 (heq ▸ idStart_stabilize hp)
  · intro id hid id' hid'
    obtain ⟨_, ht, rfl⟩ := List.mem_map.1 hid'
    obtain ⟨t, -, rfl⟩ := List.mem_map.1 ht
    rcases List.mem_append.1 hid with hid | hid <;> obtain ⟨r, hr, rfl⟩ := List.mem_map.1 hid
    · obtain ⟨p, -, hp⟩ := List.mem_filterMap.1 hr
      refine hstart r _ ?_
      rw [idStart_stabilize hp, idStart_breakLoop]
      decide
    · obtain ⟨i, -, hi⟩ := List.mem_filterMap.1 hr
      refine hstart r _ ?_
      rw [idStart_breakLoop]
      exact (himprove i r hi).2

theorem recommend_default (findings : Findings) :
    recommend createDefaultRegistry findings
      = generate findings.failurePatterns findings.inefficiencies findings.retryLoops :=
  List.append_nil _

/-- **The report of the default registry**: the failure patterns are the counted failures of logs and
records, and there is one recommendation for each pattern that occurs twice, for each inefficiency and
for each retry loop, and no other, in the order of their priorities and ids. -/
theorem analyze_default
    (h : analyze createDefaultRegistry executionId executionLogs memoryRecords = .ok report) :
    IsPatterns (failureKeys executionLogs (memoryRecords.map Observed.normalize))
        report.failurePatterns
      ∧ detectInefficiencies executionLogs = .ok report.inefficiencies
      ∧ report.recommendations.Perm (proposals report.failurePatterns report.inefficiencies
          (detectRetryLoops executionLogs))
      ∧ report.recommendations.Pairwise (Recommendation.key · < Recommendation.key ·) := by
  obtain ⟨findings, hfindings, hpatterns, hinefficiencies, hrecommendations⟩ := findings_of_analyze h
  obtain ⟨_, hfound, hfindings⟩ := except_bind_eq_ok_iff.1 hfindings
  obtain ⟨inefficiencies, hdetected, hfindings⟩ := except_bind_eq_ok_iff.1 hfindings
  obtain ⟨_, hloops, hfindings⟩ := except_bind_eq_ok_iff.1 hfindings
  cases hfound
  cases hloops
  cases hfindings
  have hascending : inefficiencies.Pairwise (· < ·) := ascending_of_detectInefficiencies hdetected
  rw [distinct_of_ascending hascending] at hinefficiencies hrecommendations
  rw [distinct_of_ascending (pairwise_detectRetryLoops executionLogs), recommend_default]
    at hrecommendations
  rw [hpatterns, hinefficiencies, hrecommendations]
  have hisPatterns := isPatterns_detect executionLogs (memoryRecords.map Observed.normalize)
  have hproposals := nodup_ids_proposals hisPatterns.nodup_ids (hascending.imp fun hlt => hlt.ne)
    ((pairwise_detectRetryLoops executionLogs).imp fun hlt => hlt.ne)
  have hgenerate := Recommendation.isOrdered_ordered (proposals
    (detectFailurePatterns executionLogs (memoryRecords.map Observed.normalize)) inefficiencies
    (detectRetryLoops executionLogs))
  refine ⟨hisPatterns, hdetected, ?_, (Recommendation.isOrdered_ordered _).pairwise⟩
  exact (Recommendation.ordered_perm_of_nodup hgenerate.nodup).trans
    (Recommendation.ordered_perm_of_nodup hproposals)

theorem analyze_default_timeout :
    ∃ report, analyze createDefaultRegistry "run" timeoutLogs timeoutMemory = .ok report
      ∧ IsPatterns (failureKeys timeoutLogs (timeoutMemory.map Observed.normalize))
        report.failurePatterns
      ∧ detectInefficiencies timeoutLogs = .ok report.inefficiencies
      ∧ report.recommendations.Perm (proposals report.failurePatterns report.inefficiencies
          (detectRetryLoops timeoutLogs))
      ∧ report.recommendations.Pairwise (Recommendation.key · < Recommendation.key ·) :=
  ⟨_, rfl, @analyze_default _ _ "run" timeoutLogs timeoutMemory _ rfl⟩

/-! ### The order of logs and records -/

theorem buildTraceSummary_of_perm {executionLogs' : List Fields}
    (hlogs : executionLogs.Perm executionLogs') :
    buildTraceSummary executionLogs = buildTraceSummary executionLogs' := by
  have hnil : durationValues executionLogs = [] ↔ durationValues executionLogs' = [] := by
    rw [← List.length_eq_zero_iff, (durationValues_of_perm hlogs).length_eq, List.length_eq_zero_iff]
  simp only [buildTraceSummary, hnil, averageDuration_of_perm hlogs, hlogs.length_eq, hlogs.countP_eq,
    retryEvents_of_perm hlogs]

/-- **The order of logs and memory records does not show in a report**, whatever the recommendation
engines are. -/
theorem analyze_of_perm (engines : Dict String RecommendationGenerator) (executionId : String)
    {executionLogs' : List Fields} {memoryRecords' : List (Observed T)}
    (hlogs : executionLogs.Perm executionLogs') (hmemory : memoryRecords.Perm memoryRecords') :
    analyze { createDefaultRegistry with recommendationEngines := engines } executionId executionLogs
        memoryRecords
      = analyze { createDefaultRegistry with recommendationEngines := engines } executionId
        executionLogs' memoryRecords' := by
  have hpatterns := detectFailurePatterns_of_perm hlogs (hmemory.map Observed.normalize)
  simp only [analyze, detect, createDefaultRegistry, buildTraceSummary_of_perm hlogs, hpatterns,
    detectInefficiencies_of_perm hlogs, detectRetryLoops_of_perm hlogs]

theorem analyze_of_perm_timeout :
    analyze { createDefaultRegistry with recommendationEngines := twoEngines } "run" timeoutLogs
        timeoutMemory
      = analyze { createDefaultRegistry with recommendationEngines := twoEngines } "run"
        timeoutLogs.reverse timeoutMemory.reverse :=
  analyze_of_perm twoEngines "run" (List.reverse_perm timeoutLogs).symm
    (List.reverse_perm timeoutMemory).symm

end Default

end PersonalDevin.Analysis
