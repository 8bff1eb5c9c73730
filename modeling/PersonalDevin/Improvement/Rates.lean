import PersonalDevin.Improvement.Engine
import PersonalDevin.Lib.Fraction

/-!
# The two failure rates

`ImprovementEngine._is_success` counts as failed what it cannot tell to be a success, and
`ExecutionAnalyzer._is_failure` only what it can tell to be a failure.
-/

namespace PersonalDevin.Improvement

open Lib
open Memory (MemoryRecord Timestamp)

def successStatuses : List String := ["success", "completed"]

def failureStatuses : List String := ["failed", "failure", "error"]

/-- The status of a record, as both read it. -/
def statusOf (record : Fields) : String := lower (textField record "status" "")

/-- A record that says how it went: by a truth value, or else by a status that one of the two knows. -/
def Classified (record : Fields) : Prop :=
  (∃ success, record.get? "success" = some (.bool success))
    ∨ statusOf record ∈ successStatuses ++ failureStatuses

/-! ### One record -/

section Record

variable {record : Fields}

theorem classify_of_bool {success : Bool} (h : record.get? "success" = some (.bool success)) :
    Analyzer.isFailure record = !success ∧ Metrics.isSuccess record = success := by
  rw [Analyzer.isFailure, Metrics.isSuccess, h]
  exact ⟨rfl, rfl⟩

theorem classify_of_status (h : ∀ success, record.get? "success" ≠ some (.bool success)) :
    Analyzer.isFailure record = decide (statusOf record ∈ failureStatuses)
      ∧ Metrics.isSuccess record = decide (statusOf record ∈ successStatuses) := by
  rw [Analyzer.isFailure, Metrics.isSuccess]
  constructor
  · split
    · exact absurd ‹_› (h _)
    · rfl
  · split
    · exact absurd ‹_› (h _)
    · rfl

theorem statuses_disjoint {status : String} (h : status ∈ failureStatuses) :
    status ∉ successStatuses := by
  simp only [failureStatuses, List.mem_cons, List.not_mem_nil, or_false] at h
  rcases h with rfl | rfl | rfl <;> decide

theorem isFailure_eq_iff (record : Fields) :
    Analyzer.isFailure record = !Metrics.isSuccess record ↔ Classified record := by
  rw [Classified, List.mem_append]
  by_cases hbool : ∃ success, record.get? "success" = some (.bool success)
  · obtain ⟨success, hsuccess⟩ := hbool
    rw [(classify_of_bool hsuccess).1, (classify_of_bool hsuccess).2]
    exact iff_of_true rfl (.inl ⟨success, hsuccess⟩)
  · obtain ⟨hfailure, hsuccess⟩ := classify_of_status (not_exists.1 hbool)
    rw [hfailure, hsuccess, ← decide_not, decide_eq_decide]
    constructor
    · intro h
      by_cases hmem : statusOf record ∈ successStatuses
      · exact .inr (.inl hmem)
      · exact .inr (.inr (h.2 hmem))
    · rintro (hsome | hmem | hmem)
      · exact absurd hsome hbool
      · exact iff_of_false (fun h => statuses_disjoint h hmem) (not_not.2 hmem)
      · exact iff_of_true hmem (statuses_disjoint hmem)

end Record

/-! ### The rates -/

theorem engine_failureRate (records : List Fields) : (Metrics.compute records).failureRate
    = Analyzer.share (records.countP fun record => !Metrics.isSuccess record) records.length := rfl

theorem analyzer_failureRate (records : List Fields) : (Analyzer.analyze records).failureRate
    = Analyzer.share (records.countP Analyzer.isFailure) records.length := by
  rw [List.countP_eq_length_filter]
  rfl

/-- The two report one rate, and count each record alike. -/
structure RatesAgree (records : List Fields) : Prop where
  rate : (Metrics.compute records).failureRate = (Analyzer.analyze records).failureRate
  alike : ∀ record ∈ records, Analyzer.isFailure record = !Metrics.isSuccess record

/-- **When the engine and the analyzer agree on what has failed.** -/
theorem failureRates_agree_iff (records : List Fields) :
    RatesAgree records ↔ ∀ record ∈ records, Classified record := by
  have hrecord : (∀ record ∈ records, Analyzer.isFailure record = !Metrics.isSuccess record)
      ↔ ∀ record ∈ records, Classified record :=
    forall₂_congr fun record _ => isFailure_eq_iff record
  rw [← hrecord]
  refine ⟨fun h => h.alike, fun h => ⟨?_, h⟩⟩
  have hcount : records.countP (fun record => !Metrics.isSuccess record)
      = records.countP Analyzer.isFailure :=
    List.countP_congr fun record hmem => by rw [h record hmem]
  rw [engine_failureRate, analyzer_failureRate, hcount]

/-! ### The records of the memory service -/

/-- An execution that has completed, as the memory service writes it. -/
def completedEnvelope : Fields :=
  [("id", .str "execution-000001"), ("timestamp", .str "2024-01-01T00:00:00+00:00"),
    ("type", .str "execution"), ("data", .dict [("status", .str "completed"),
      ("total_tasks", .int 1), ("completed_tasks", .int 1), ("failed_tasks", .int 0),
      ("skipped_tasks", .int 0), ("metadata", .dict [])])]

/-- To the engine everything has failed, and to the analyzer nothing has. -/
theorem completedEnvelope_not_ratesAgree : ¬ RatesAgree [completedEnvelope]
    ∧ (Metrics.compute [completedEnvelope]).failureRate = 1
    ∧ (Analyzer.analyze [completedEnvelope]).failureRate = 0 := by
  refine ⟨fun h => ?_, by decide +kernel, by decide +kernel⟩
  have halike := h.alike completedEnvelope List.mem_cons_self
  exact absurd halike (by decide +kernel)

end PersonalDevin.Improvement
