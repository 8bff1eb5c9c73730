import PersonalDevin.Lib.Census
import PersonalDevin.Lib.KeepBest
import PersonalDevin.Memory.Newest
import PersonalDevin.Number
import PersonalDevin.SelfImprovement.Patterns
import Mathlib.Data.String.Basic

/-!
# The self-improvement engine

`SelfImprovementEngine.run`: the evaluator sums up the newest records of the memory, the optimizer
proposes an action for each of its findings, and the policy approves the best action of each target.
Rates, latencies and confidences are exact fractions; the program has the nearest floats.
-/

namespace PersonalDevin.SelfImprovement

open Lib
open Memory
open Patterns (ImprovementType)

variable {T : Type}

/-! ### The evaluator -/

structure EvaluationResult where
  successRate : ℚ
  avgLatency : ℚ
  failurePatterns : List String
  retryPatterns : List String
  policyViolations : List String

namespace Evaluator

/-- The latency of an entry, where it is a number; none is a latency of zero. -/
def latencyOf (entry : Fields) : Option ℚ :=
  match entry.get? "latency" with
  | some latency => latency.number?
  | none => some 0

def avgLatency (entries : List Fields) : ℚ :=
  let latencies := entries.filterMap latencyOf
  if latencies = [] then 0 else latencies.sum / latencies.length

def patternName (value : String) : String :=
  if strip value = "" then "unknown" else strip value

def topPatterns (values : List String) (kind : String) : List String :=
  (census (values.map patternName)).map fun (name, count) =>
    kind ++ ":" ++ name ++ ":" ++ Nat.repr count

/-- The entry has a retry count above zero. -/
def retried (entry : Fields) : Bool :=
  match intOf (entry.get? "retry_count") with
  | some count => 0 < count
  | none => false

def violates (entry : Fields) : Bool :=
  "violation:".toList.isPrefixOf (textField entry "decision" "").toList

def evaluate (memoryRecords : List (HistoryItem T)) : EvaluationResult :=
  let executionEntries := extractEntries memoryRecords .execution
  let taskEntries := extractEntries memoryRecords .task
  let failureEntries := extractEntries memoryRecords .failure
  let decisionEntries := extractEntries memoryRecords .decision
  { successRate := roundDecimals 4 (successRate executionEntries)
    avgLatency := roundDecimals 4 (avgLatency executionEntries)
    failurePatterns := topPatterns (failureEntries.map (textField · "error" "unknown")) "failure"
    retryPatterns :=
      topPatterns ((taskEntries.filter retried).map (textField · "task_id" "unknown")) "retry"
    policyViolations :=
      topPatterns ((decisionEntries.filter violates).map (textField · "decision" "unknown"))
        "policy_violation" }

end Evaluator

/-! ### The optimizer -/

structure ImprovementAction where
  type : ImprovementType
  target : String
  value : Value
  confidence : ℚ

namespace ImprovementAction

/-- `(action.type, action.target, str(action.value), -action.confidence)`. -/
def sortKey (action : ImprovementAction) : String ×ₗ String ×ₗ String ×ₗ ℚ :=
  toLex (action.type.text, toLex (action.target, toLex (action.value.pyStr, -action.confidence)))

/-- `(-item.confidence, item.type, item.target, str(item.value))`. -/
def rank (action : ImprovementAction) : ℚ ×ₗ String ×ₗ String ×ₗ String :=
  toLex (-action.confidence, toLex (action.type.text, toLex (action.target, action.value.pyStr)))

def sorted (actions : List ImprovementAction) : List ImprovementAction :=
  actions.insertionSort (sortKey · ≤ sortKey ·)

end ImprovementAction

open ImprovementAction (sorted sortKey rank)

def optimize (evaluation : EvaluationResult) : List ImprovementAction :=
  sorted
    ((if evaluation.successRate < 8 / 10 then
        [⟨.adjustPolicy, "retry_limit", .int 3, 85 / 100⟩] else [])
      ++ (if 2 < evaluation.avgLatency then
        [⟨.changeStrategy, "timeout", .int 10, 80 / 100⟩] else [])
      ++ (if evaluation.failurePatterns ≠ [] then
        [⟨.increaseConfidence, "policy_gate", .str "strict", 75 / 100⟩] else [])
      ++ (if evaluation.policyViolations ≠ [] then
        [⟨.adjustPolicy, "policy_violation_guard", .str "enabled", 90 / 100⟩] else [])
      ++ if evaluation.retryPatterns ≠ [] then
        [⟨.changeStrategy, "retry_backoff", .str "exponential", 70 / 100⟩] else [])

/-! ### The policy -/

structure ImprovementPolicy where
  confidenceThreshold : ℚ

namespace ImprovementPolicy

/-- `ImprovementPolicy()`. -/
def default : ImprovementPolicy where
  confidenceThreshold := 70 / 100

variable (policy : ImprovementPolicy)

def admits (action : ImprovementAction) : Bool := policy.confidenceThreshold ≤ action.confidence

def beats (action existing : ImprovementAction) : Bool := existing.confidence < action.confidence

def approve (actions : List ImprovementAction) : List ImprovementAction :=
  let ordered := (actions.filter policy.admits).insertionSort (rank · ≤ rank ·)
  sorted (select ImprovementAction.target (fun _ => true) beats ordered).chosen.values

end ImprovementPolicy

/-! ### The engine -/

namespace SelfImprovementEngine

variable [Timestamp T] [Zoned T]

/-- `_load_history`: where the memory cannot be read, there is none. -/
def loadHistory (now : T) (streams : Streams) : List (HistoryItem T) :=
  ((MemoryService.getRecent now streams 200).getD []).map .record

/-- `run`, up to what it persists. -/
def run (now : T) (streams : Streams) : List ImprovementAction :=
  ImprovementPolicy.default.approve (optimize (Evaluator.evaluate (loadHistory now streams)))

end SelfImprovementEngine

/-! ### What the policy approves -/

namespace ImprovementPolicy

/-- `==` on confidences. -/
def sameConfidence (a b : ImprovementAction) : Bool := a.confidence = b.confidence

theorem contest : Contest beats sameConfidence where
  irrefl _ := decide_eq_false (lt_irrefl _)
  trans _ _ _ hab hbc := decide_eq_true ((of_decide_eq_true hbc).trans (of_decide_eq_true hab))
  congr _ _ _ hsame hbeats := by
    have hconfidence := of_decide_eq_true hsame
    exact decide_eq_true (hconfidence ▸ of_decide_eq_true hbeats)

/-- An action that the policy admits, such that none for the same target ranks before it. -/
structure IsBest (policy : ImprovementPolicy) (actions : List ImprovementAction)
    (best : ImprovementAction) : Prop where
  mem : best ∈ actions
  admitted : policy.admits best = true
  lowest : ∀ a ∈ actions, a.target = best.target → policy.admits a = true → rank best ≤ rank a

variable {policy : ImprovementPolicy} {actions : List ImprovementAction}

theorem confidence_le_of_rank_le {a b : ImprovementAction} (h : rank a ≤ rank b) :
    b.confidence ≤ a.confidence :=
  neg_le_neg_iff.1 (Prod.Lex.monotone_fst _ _ h)

/-- Of the actions in their ranks, the first of the best for a target ranks before all others. -/
theorem rank_le_of_firstBest {target : String} {ordered : List ImprovementAction}
    {best : ImprovementAction} (hordered : ordered.Pairwise (rank · ≤ rank ·))
    (h : FirstBest ImprovementAction.target (fun _ => true) beats sameConfidence target ordered best)
    {a : ImprovementAction} (ha : a ∈ ordered) (htarget : a.target = target) :
    rank best ≤ rank a := by
  obtain ⟨before, after, rfl, hfirst⟩ := h.first
  rw [List.pairwise_append, List.pairwise_cons] at hordered
  obtain ⟨-, ⟨hafter, -⟩, hbefore⟩ := hordered
  rcases List.mem_append.1 ha with hmem | hmem
  · have hle := confidence_le_of_rank_le (hbefore a hmem best List.mem_cons_self)
    have hnot := of_decide_eq_false (h.unbeaten a ha htarget rfl)
    have hsame := of_decide_eq_false (hfirst a hmem htarget rfl)
    exact absurd (le_antisymm (not_lt.1 hnot) hle) hsame
  · rcases List.mem_cons.1 hmem with rfl | hmem
    · exact le_rfl
    · exact hafter a hmem

/-- The best admitted action of each target, in order. -/
structure Approves (policy : ImprovementPolicy) (actions approved : List ImprovementAction) :
    Prop where
  ordered : approved.Pairwise (sortKey · ≤ sortKey ·)
  oneEach : (approved.map ImprovementAction.target).Nodup
  best : ∀ a ∈ approved, policy.IsBest actions a
  complete : ∀ a ∈ actions, policy.admits a = true → ∃ best ∈ approved, best.target = a.target

/-- **What the policy approves.** -/
theorem approves_approve (policy : ImprovementPolicy) (actions : List ImprovementAction) :
    policy.Approves actions (policy.approve actions) := by
  rw [approve]
  generalize hdef : (actions.filter policy.admits).insertionSort (rank · ≤ rank ·) = ordered
  have hordered : ordered.Pairwise (rank · ≤ rank ·) := hdef ▸ pairwise_insertionSort_key rank _
  have hmem : ∀ a, a ∈ ordered ↔ a ∈ actions ∧ policy.admits a = true := by
    intro a
    rw [← hdef, List.mem_insertionSort, List.mem_filter]
  have hselects : Selects ImprovementAction.target (fun _ => true) beats sameConfidence
      (select ImprovementAction.target (fun _ => true) beats ordered) ordered :=
    selects_select contest ordered
  generalize select ImprovementAction.target (fun _ => true) beats ordered = selection at hselects
  have happroved : ∀ a, a ∈ sorted selection.chosen.values
      ↔ ∃ target, selection.chosen.get? target = some a := by
    intro a
    rw [sorted, List.mem_insertionSort, Dict.mem_values_iff]
  have hvalues : selection.chosen.values.map ImprovementAction.target = selection.chosen.keys := by
    rw [Dict.values, Dict.keys, List.map_map]
    refine List.map_congr_left fun entry hentry => ?_
    exact (hselects.best _ _ (Dict.mem_entries_iff.1 hentry)).key_eq
  refine ⟨pairwise_insertionSort_key sortKey _, ?_, fun a ha => ?_, fun a ha hadmits => ?_⟩
  · have hperm := (List.perm_insertionSort (sortKey · ≤ sortKey ·) selection.chosen.values).map
      ImprovementAction.target
    rw [hvalues] at hperm
    exact hperm.nodup_iff.2 selection.chosen.nodup
  · obtain ⟨target, hget⟩ := (happroved a).1 ha
    have hbest := hselects.best target a hget
    obtain ⟨hin, hadmitted⟩ := (hmem a).1 hbest.mem
    refine ⟨hin, hadmitted, fun b hb htarget hadmits => ?_⟩
    exact rank_le_of_firstBest hordered hbest ((hmem b).2 ⟨hb, hadmits⟩) (htarget.trans hbest.key_eq)
  · obtain ⟨best, hget⟩ := Option.isSome_iff_exists.1
      (hselects.complete a ((hmem a).2 ⟨ha, hadmits⟩) rfl)
    exact ⟨best, (happroved best).2 ⟨_, hget⟩, (hselects.best _ _ hget).key_eq⟩

/-- Admitted actions for different targets that are in order are all approved. -/
theorem approve_eq_self (hadmits : ∀ a ∈ actions, policy.admits a = true)
    (htargets : (actions.map ImprovementAction.target).Nodup)
    (hordered : actions.Pairwise (sortKey · ≤ sortKey ·)) : policy.approve actions = actions := by
  have happroves := approves_approve policy actions
  have hsame : ∀ a, a ∈ policy.approve actions ↔ a ∈ actions := by
    intro a
    refine ⟨fun ha => (happroves.best a ha).mem, fun ha => ?_⟩
    obtain ⟨best, hbest, htarget⟩ := happroves.complete a ha (hadmits a ha)
    rwa [← List.inj_on_of_nodup_map htargets (happroves.best best hbest).mem ha htarget]
  have hperm : (policy.approve actions).Perm actions :=
    (List.perm_ext_iff_of_nodup happroves.oneEach.of_map htargets.of_map).2 hsame
  refine hperm.eq_of_pairwise (fun a b ha hb hab hba => ?_) happroves.ordered hordered
  have hkey := toLex_inj.1 (le_antisymm hab hba)
  have htarget : a.target = b.target :=
    congrArg (fun key => (ofLex key).1) (Prod.mk.inj hkey).2
  exact List.inj_on_of_nodup_map htargets ((hsame a).1 ha) hb htarget

/-- All actions that the optimizer knows. -/
def catalogue : List ImprovementAction :=
  [⟨.adjustPolicy, "retry_limit", .int 3, 85 / 100⟩]
    ++ [⟨.changeStrategy, "timeout", .int 10, 80 / 100⟩]
    ++ [⟨.increaseConfidence, "policy_gate", .str "strict", 75 / 100⟩]
    ++ [⟨.adjustPolicy, "policy_violation_guard", .str "enabled", 90 / 100⟩]
    ++ [⟨.changeStrategy, "retry_backoff", .str "exponential", 70 / 100⟩]

theorem optimize_catalogue (evaluation : EvaluationResult) :
    ∃ proposed, proposed.Sublist catalogue ∧ optimize evaluation = sorted proposed := by
  have hone : ∀ (p : Prop) [Decidable p] (a : ImprovementAction),
      (if p then [a] else []).Sublist [a] := by
    intro p _ a
    split
    · exact .refl _
    · exact List.nil_sublist _
  exact ⟨_, ((((hone _ _).append (hone _ _)).append (hone _ _)).append (hone _ _)).append (hone _ _),
    rfl⟩

/-- **The default policy approves all that the optimizer proposes.** -/
theorem approve_optimize (evaluation : EvaluationResult) :
    default.approve (optimize evaluation) = optimize evaluation := by
  obtain ⟨proposed, hsublist, hoptimize⟩ := optimize_catalogue evaluation
  have hperm : (optimize evaluation).Perm proposed := hoptimize ▸ List.perm_insertionSort _ _
  have hcatalogue : (catalogue.map ImprovementAction.target).Nodup := by decide
  refine approve_eq_self (fun a ha => ?_) ?_ (hoptimize ▸ pairwise_insertionSort_key sortKey _)
  · have hin : a ∈ catalogue := hsublist.subset (hperm.mem_iff.1 ha)
    have hconfidence : (70 / 100 : ℚ) ≤ a.confidence := by
      simp only [catalogue, List.cons_append, List.nil_append, List.mem_cons,
        List.not_mem_nil, or_false] at hin
      rcases hin with rfl | rfl | rfl | rfl | rfl <;> norm_num
    exact decide_eq_true hconfidence
  · exact (hperm.map _).nodup_iff.2 (hcatalogue.sublist (hsublist.map _))

end ImprovementPolicy

/-! ### Memories of successes -/

open Evaluator (avgLatency evaluate latencyOf retried violates)

/-- A record of a success: nothing that the evaluator would make a finding of. -/
def QuietRecord (record : MemoryRecord T) : Prop :=
  match record.type with
  | .execution => entrySucceeded record.data = true ∧ record.data.get? "latency" = none
  | .task => record.data.get? "retry_count" = none
  | .failure => False
  | .decision => violates record.data = false

/-- A memory that holds nothing else. -/
def Quiet (T : Type) [Timestamp T] (streams : Streams) : Prop :=
  ∀ type, ∀ payload ∈ streams type, ∃ stored : StoredRecord T,
    stored.payload = payload ∧ QuietRecord stored.record

theorem entrySucceeded_of_status {entry : Fields} (h : entry.get? "status" = some (.str "success")) :
    entrySucceeded entry = true := by
  rw [entrySucceeded, textField, h]
  decide

theorem mem_extractEntries {records : List (MemoryRecord T)} {type : MemoryType} {entry : Fields} :
    entry ∈ extractEntries (records.map HistoryItem.record) type
      ↔ ∃ record ∈ records, record.type = type ∧ record.data = entry := by
  simp only [extractEntries, List.mem_filterMap, List.mem_map, exists_exists_and_eq_and,
    HistoryItem.entryOf, Option.ite_none_right_eq_some, Option.some.injEq]

/-- An evaluation without findings. -/
def nothingFound : EvaluationResult where
  successRate := 1
  avgLatency := 0
  failurePatterns := []
  retryPatterns := []
  policyViolations := []

section Findings

variable {records : List (MemoryRecord T)} (h : ∀ record ∈ records, QuietRecord record)

include h

theorem successRate_of_quiet :
    successRate (extractEntries (records.map HistoryItem.record) .execution) = 1 := by
  unfold successRate
  split
  · rfl
  · rename_i hne
    refine fraction_of_forall hne fun entry hmem => ?_
    obtain ⟨record, hrecord, htype, rfl⟩ := mem_extractEntries.1 hmem
    have hquiet := h record hrecord
    simp only [QuietRecord, htype] at hquiet
    exact hquiet.1

theorem avgLatency_of_quiet :
    avgLatency (extractEntries (records.map HistoryItem.record) .execution) = 0 := by
  have hzero : ∀ latency ∈ (extractEntries (records.map HistoryItem.record) .execution).filterMap
      latencyOf, latency = 0 := by
    intro latency hmem
    obtain ⟨entry, hin, hlatency⟩ := List.mem_filterMap.1 hmem
    obtain ⟨record, hrecord, htype, rfl⟩ := mem_extractEntries.1 hin
    have hquiet := h record hrecord
    simp only [QuietRecord, htype] at hquiet
    rw [latencyOf, hquiet.2] at hlatency
    exact (Option.some.inj hlatency).symm
  simp only [avgLatency, List.sum_eq_zero hzero, zero_div, ite_self]

theorem evaluate_of_quiet : evaluate (records.map HistoryItem.record) = nothingFound := by
  have hfailures : extractEntries (records.map HistoryItem.record) .failure = [] := by
    rw [List.eq_nil_iff_forall_not_mem]
    intro entry hmem
    obtain ⟨record, hrecord, htype, _⟩ := mem_extractEntries.1 hmem
    have hquiet := h record hrecord
    simp only [QuietRecord, htype] at hquiet
  have hretried : (extractEntries (records.map HistoryItem.record) .task).filter retried = [] := by
    rw [List.filter_eq_nil_iff]
    intro entry hmem
    obtain ⟨record, hrecord, htype, rfl⟩ := mem_extractEntries.1 hmem
    have hquiet := h record hrecord
    simp only [QuietRecord, htype] at hquiet
    simp [retried, hquiet, intOf]
  have hviolates :
      (extractEntries (records.map HistoryItem.record) .decision).filter violates = [] := by
    rw [List.filter_eq_nil_iff]
    intro entry hmem
    obtain ⟨record, hrecord, htype, rfl⟩ := mem_extractEntries.1 hmem
    have hquiet := h record hrecord
    simp only [QuietRecord, htype] at hquiet
    rw [hquiet]
    decide
  have hone : roundDecimals 4 1 = 1 := by exact_mod_cast roundDecimals_intCast 4 1
  rw [evaluate, hfailures, hretried, hviolates, successRate_of_quiet h, avgLatency_of_quiet h, hone,
    roundDecimals_zero]
  rfl

end Findings

theorem optimize_nothingFound : optimize nothingFound = [] := by
  norm_num [optimize, nothingFound, sorted]

variable [Timestamp T] [Zoned T]

theorem quiet_of_getRecent {streams : Streams} (h : Quiet T streams) {now : T} {limit : ℤ}
    {records : List (MemoryRecord T)}
    (hread : MemoryService.getRecent now streams limit = some records) :
    ∀ record ∈ records, QuietRecord record := by
  obtain ⟨all, ordered, hall, hperm, rfl⟩ := MemoryService.getRecent_eq_some hread
  obtain ⟨lists, hlists, rfl⟩ := Option.map_eq_some_iff.1 hall
  intro record hrecord
  obtain ⟨list, hlist, hin⟩ := List.mem_flatten.1
    (hperm.subset (MemoryService.sliceTo_subset limit ordered hrecord))
  obtain ⟨type, _, htype⟩ := exists_of_mem_right (mapM_eq_some_iff.1 hlists) hlist
  obtain ⟨payload, hpayload, hfrom⟩ := exists_of_mem_right (mapM_eq_some_iff.1 htype) hin
  obtain ⟨stored, rfl, hquiet⟩ := h type payload hpayload
  obtain rfl := Option.some.inj ((stored.read now).symm.trans hfrom)
  exact hquiet

/-- **There is nothing to improve on a memory of successes.** -/
theorem run_of_quiet {streams : Streams} (h : Quiet T streams) (now : T) :
    SelfImprovementEngine.run now streams = [] := by
  have hrecords : ∃ records : List (MemoryRecord T),
      SelfImprovementEngine.loadHistory now streams = records.map .record
        ∧ ∀ record ∈ records, QuietRecord record := by
    rcases hread : MemoryService.getRecent now streams 200 with _ | records
    · refine ⟨[], ?_, nofun⟩
      rw [SelfImprovementEngine.loadHistory, hread]
      rfl
    · refine ⟨records, ?_, quiet_of_getRecent h hread⟩
      rw [SelfImprovementEngine.loadHistory, hread]
      rfl
  obtain ⟨records, hhistory, hquiet⟩ := hrecords
  rw [SelfImprovementEngine.run, hhistory, evaluate_of_quiet hquiet,
    ImprovementPolicy.approve_optimize, optimize_nothingFound]

end PersonalDevin.SelfImprovement
