import PersonalDevin.Lib.Census
import PersonalDevin.SelfImprovement.Patterns
import Mathlib.Data.String.Basic

/-!
# The pattern detector

`PatternDetector` of the analysis layer: failures that execution logs and memory records report, counted
by their source and signature, the signals of inefficiency, and the targets of retry loops. Logs and
records are dictionaries of dynamic values.
-/

namespace PersonalDevin.Analysis

open Lib
open SelfImprovement.Patterns (Fault quotient)

/-! ### Reading an entry -/

/-- `str(d.get(key) or ... or default)`, for the keys in their order. -/
def textOf (fields : Fields) (keys : List String) (default : String) : String :=
  match (keys.filterMap fields.get?).find? Value.truthy with
  | some value => value.pyStr
  | none => default

def statusOf (entry : Fields) : String := lower (textField entry "status" "")

def hasFailed (entry : Fields) : Bool := statusOf entry ∈ ["failed", "error"]

def hasSucceeded (entry : Fields) : Bool := statusOf entry ∈ ["success", "completed"]

/-- `sum(int(entry.get("retry_count", 0)) ...)`: what is no integer is left out. -/
def retryEvents (executionLogs : List Fields) : ℤ :=
  (executionLogs.filterMap fun entry => intOf (entry.get? "retry_count")).sum

def durationValues (executionLogs : List Fields) : List ℤ :=
  executionLogs.filterMap fun entry => intOf (entry.get? "duration_ms")

/-- `sum(duration_values) / len(duration_values)`. -/
def averageDuration (executionLogs : List Fields) : Except Fault Binary64 :=
  quotient (durationValues executionLogs).sum (durationValues executionLogs).length

/-! ### Failure patterns -/

structure FailurePattern where
  patternId : String
  source : String
  signature : String
  count : ℕ
  deriving DecidableEq

/-- `(source, signature)`. -/
abbrev FailureKey := String ×ₗ String

def logKey (entry : Fields) : Option FailureKey :=
  if hasFailed entry then
    some (toLex (textOf entry ["source"] "execution_log",
      textOf entry ["error", "message"] "unknown_error"))
  else none

def memoryKey (record : Fields) : Option FailureKey :=
  if textField record "type" "None" = "failure" then
    match record.get? "data" with
    | some (.dict data) =>
        some (toLex ("memory:" ++ textField data "source" "unknown",
          textOf data ["error"] "unknown_error"))
    | _ => none
  else none

/-- What is counted, in the order of the counting. -/
def failureKeys (executionLogs memoryRecords : List Fields) : List FailureKey :=
  executionLogs.filterMap logKey ++ memoryRecords.filterMap memoryKey

def patternId (idx : ℕ) : String := "failure-" ++ zeroPad 3 idx

/-- The pattern of a key and its count, at its place. -/
def failurePattern (place : (FailureKey × ℕ) × ℕ) : FailurePattern where
  patternId := patternId place.2
  source := (ofLex place.1.1).1
  signature := (ofLex place.1.1).2
  count := place.1.2

def numberPatterns (entries : List (FailureKey × ℕ)) : List FailurePattern :=
  (entries.zipIdx 1).map failurePattern

def detectFailurePatterns (executionLogs memoryRecords : List Fields) : List FailurePattern :=
  numberPatterns (census (failureKeys executionLogs memoryRecords))

/-! ### Inefficiencies -/

def highAverageDuration : String := "high_average_duration"

def lowSuccessRate : String := "low_success_rate"

def retryActivityDetected : String := "retry_activity_detected"

/-- Whether `average_duration > 2000`, where there are durations. -/
def isSlow (executionLogs : List Fields) : Except Fault Bool :=
  if durationValues executionLogs = [] then .ok false
  else (fun average => decide (2000 < average)) <$> averageDuration executionLogs

def detectInefficiencies (executionLogs : List Fields) : Except Fault (List String) := do
  if executionLogs = [] then return []
  let slow ← isSlow executionLogs
  let successRate := Binary64.ratio (executionLogs.countP hasSucceeded) executionLogs.length
  return distinct ((if slow then [highAverageDuration] else [])
    ++ (if successRate < Binary64.ofRat (7 / 10) then [lowSuccessRate] else [])
    ++ (if 0 < retryEvents executionLogs then [retryActivityDetected] else []))

/-! ### Retry loops -/

def targetOf (entry : Fields) : String := textOf entry ["task_id", "action"] "unknown"

/-- Whether an entry itself reports three retries. -/
def isExplicitLoop (entry : Fields) : Bool :=
  match intOf (entry.get? "retry_count") with
  | some n => 3 ≤ n
  | none => false

def detectRetryLoops (executionLogs : List Fields) : List String :=
  let explicitLoops := (executionLogs.filter isExplicitLoop).map targetOf
  let failedByTarget := Dict.tally ((executionLogs.filter hasFailed).map targetOf)
  distinct (explicitLoops ++ (failedByTarget.entries.filter fun entry => 3 ≤ entry.2).map Prod.fst)

/-! ### What the patterns are -/

def FailurePattern.entry (pattern : FailurePattern) : FailureKey × ℕ :=
  (toLex (pattern.source, pattern.signature), pattern.count)

/-- The patterns of some keys: each key that occurs has one, with the number of its occurrences, the
frequent ones come first and then those with the smaller source and signature, and they are numbered in
this order. -/
structure IsPatterns (keys : List FailureKey) (patterns : List FailurePattern) : Prop where
  census : IsCensus keys (patterns.map FailurePattern.entry)
  numbered : patterns.map FailurePattern.patternId = (List.range' 1 patterns.length).map patternId

theorem entries_numberPatterns (entries : List (FailureKey × ℕ)) :
    (numberPatterns entries).map FailurePattern.entry = entries := by
  rw [numberPatterns, List.map_map]
  exact List.zipIdx_map_fst 1 entries

theorem patternIds_numberPatterns (entries : List (FailureKey × ℕ)) :
    (numberPatterns entries).map FailurePattern.patternId
      = (List.range' 1 entries.length).map patternId := by
  rw [numberPatterns, List.map_map, ← List.zipIdx_map_snd 1 entries, List.map_map]
  rfl

theorem length_numberPatterns (entries : List (FailureKey × ℕ)) :
    (numberPatterns entries).length = entries.length := by
  rw [← List.length_map FailurePattern.entry, entries_numberPatterns]

theorem isPatterns_detect (executionLogs memoryRecords : List Fields) :
    IsPatterns (failureKeys executionLogs memoryRecords)
      (detectFailurePatterns executionLogs memoryRecords) where
  census := by
    rw [detectFailurePatterns, entries_numberPatterns]
    exact isCensus_census _
  numbered := by
    rw [detectFailurePatterns, patternIds_numberPatterns, length_numberPatterns]

theorem IsPatterns.nodup_ids {keys : List FailureKey} {patterns : List FailurePattern}
    (h : IsPatterns keys patterns) : (patterns.map FailurePattern.patternId).Nodup := by
  rw [h.numbered]
  refine (@List.nodup_range' _ _ 1 (by decide)).map fun n m hid => ?_
  exact zeroPad_injective 3 ((String.append_right_inj "failure-").1 hid)

/-! ### The order of logs and records -/

section Perm

variable {executionLogs executionLogs' memoryRecords memoryRecords' : List Fields}
  (hlogs : executionLogs.Perm executionLogs')

theorem detectFailurePatterns_of_perm (hlogs : executionLogs.Perm executionLogs')
    (hmemory : memoryRecords.Perm memoryRecords') :
    detectFailurePatterns executionLogs memoryRecords
      = detectFailurePatterns executionLogs' memoryRecords' := by
  have hkeys : (failureKeys executionLogs memoryRecords).Perm
      (failureKeys executionLogs' memoryRecords') :=
    (hlogs.filterMap logKey).append (hmemory.filterMap memoryKey)
  rw [detectFailurePatterns, census_of_perm hkeys, detectFailurePatterns]

include hlogs

theorem retryEvents_of_perm : retryEvents executionLogs = retryEvents executionLogs' :=
  (hlogs.filterMap _).sum_eq

theorem durationValues_of_perm :
    (durationValues executionLogs).Perm (durationValues executionLogs') := hlogs.filterMap _

theorem averageDuration_of_perm : averageDuration executionLogs = averageDuration executionLogs' := by
  have hdurations := durationValues_of_perm hlogs
  rw [averageDuration, averageDuration, hdurations.sum_eq, hdurations.length_eq]

theorem isSlow_of_perm : isSlow executionLogs = isSlow executionLogs' := by
  have hnil : durationValues executionLogs = [] ↔ durationValues executionLogs' = [] := by
    rw [← List.length_eq_zero_iff, (durationValues_of_perm hlogs).length_eq, List.length_eq_zero_iff]
  simp only [isSlow, hnil, averageDuration_of_perm hlogs]

theorem detectInefficiencies_of_perm :
    detectInefficiencies executionLogs = detectInefficiencies executionLogs' := by
  have hnil : executionLogs = [] ↔ executionLogs' = [] := by
    rw [← List.length_eq_zero_iff, hlogs.length_eq, List.length_eq_zero_iff]
  simp only [detectInefficiencies, hnil, isSlow_of_perm hlogs, hlogs.countP_eq, hlogs.length_eq,
    retryEvents_of_perm hlogs]

omit hlogs in
theorem ascending_of_detectInefficiencies {inefficiencies : List String}
    (h : detectInefficiencies executionLogs = .ok inefficiencies) : inefficiencies.Pairwise (· < ·) := by
  unfold detectInefficiencies at h
  split at h
  · cases h
    exact .nil
  · obtain ⟨slow, -, h⟩ := except_bind_eq_ok_iff.1 h
    cases h
    exact pairwise_distinct _

omit hlogs in
theorem mem_detectRetryLoops_iff {target : String} :
    target ∈ detectRetryLoops executionLogs
      ↔ (∃ entry ∈ executionLogs, isExplicitLoop entry = true ∧ targetOf entry = target)
        ∨ 3 ≤ ((executionLogs.filter hasFailed).map targetOf).count target := by
  simp only [detectRetryLoops, mem_distinct, List.mem_append, List.mem_map, List.mem_filter,
    Prod.exists, mem_tally_iff, decide_eq_true_eq]
  refine or_congr ⟨?_, ?_⟩ ⟨?_, ?_⟩
  · rintro ⟨entry, ⟨hmem, hloop⟩, htarget⟩
    exact ⟨entry, hmem, hloop, htarget⟩
  · rintro ⟨entry, hmem, hloop, htarget⟩
    exact ⟨entry, ⟨hmem, hloop⟩, htarget⟩
  · rintro ⟨_, _, ⟨⟨-, rfl⟩, hmany⟩, rfl⟩
    exact hmany
  · intro hmany
    have hmem := List.count_pos_iff.1 (lt_of_lt_of_le (by decide : 0 < 3) hmany)
    obtain ⟨entry, hentry, htarget⟩ := List.mem_map.1 hmem
    exact ⟨target, _, ⟨⟨⟨entry, List.mem_filter.1 hentry, htarget⟩, rfl⟩, hmany⟩, rfl⟩

omit hlogs in
theorem pairwise_detectRetryLoops (executionLogs : List Fields) :
    (detectRetryLoops executionLogs).Pairwise (· < ·) := pairwise_distinct _

theorem detectRetryLoops_of_perm : detectRetryLoops executionLogs = detectRetryLoops executionLogs' := by
  refine eq_of_ascending (pairwise_detectRetryLoops _) (pairwise_detectRetryLoops _) fun target => ?_
  have hcount := ((hlogs.filter hasFailed).map targetOf).count_eq target
  rw [mem_detectRetryLoops_iff, mem_detectRetryLoops_iff, hcount]
  simp only [hlogs.mem_iff]

end Perm

end PersonalDevin.Analysis
