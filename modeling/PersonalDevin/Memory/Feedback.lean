import PersonalDevin.Analysis.Detector
import PersonalDevin.Memory.Newest
import PersonalDevin.Planning.Feedback

/-!
# What the planner learns from memory

`MemoryService.get_feedback_context` gives the newest execution records to `FeedbackEngine.build_context`,
which has the pattern detector count their failures and counts the strategies of the successful ones
itself. The planner writes what it finds there into the metadata of a task.
-/

namespace PersonalDevin.Memory

open Lib
open Planning (itemText signatures strategies adjusted withTexts)
open SelfImprovement (performAll)
open Analysis (FailureKey FailurePattern detectFailurePatterns failureKeys logKey memoryKey textOf)

variable {T : Type}

/-! ### The context -/

namespace FeedbackEngine

/-- `str(record.metadata.get("source", "memory_feedback"))`. -/
def sourceOf (record : ExecutionRecord T) : String :=
  textField record.metadata "source" "memory_feedback"

/-- The entry that stands for a record among the logs, or nothing where its retry count is no number. -/
def executionLog (record : ExecutionRecord T) : Option Fields := do
  let retryCount ← intField record.metadata "retry_count"
  return [("task_id", .str record.taskId),
    ("status", .str (if record.success then "completed" else "failed")),
    ("error", .str (record.errors.headD "")), ("source", .str (sourceOf record)),
    ("retry_count", .int retryCount)]

def asExecutionLogs (records : List (ExecutionRecord T)) : Option (List Fields) :=
  records.mapM executionLog

def failureMemoryRecord (record : ExecutionRecord T) (error : String) : Fields :=
  [("type", .str "failure"),
    ("data", .dict [("source", .str (sourceOf record)), ("error", .str error),
      ("context", .dict [("task_id", .str record.taskId)])])]

def asFailureMemoryRecords (records : List (ExecutionRecord T)) : List Fields :=
  records.flatMap fun record =>
    if record.success then [] else record.errors.map (failureMemoryRecord record)

/-- `_strategy_for`: the metadata come first, then the plan. -/
def strategyFor (record : ExecutionRecord T) : String :=
  (itemText "strategy" (.dict record.metadata)).getD
    ((itemText "strategy" (.dict record.plan)).getD "")

def successStrategies (records : List (ExecutionRecord T)) : List String :=
  ((records.filter (·.success)).map strategyFor).filter (· ≠ "")

def repeatedFailure (pattern : FailurePattern) : Value :=
  .dict [("source", .str pattern.source), ("signature", .str pattern.signature),
    ("count", .int pattern.count)]

def successStrategy (entry : String × ℕ) : Value :=
  .dict [("strategy", .str entry.1), ("count", .int entry.2)]

/-- `build_context`, or nothing where it raises. -/
def buildContext (records : List (ExecutionRecord T)) : Option Fields := do
  let executionLogs ← asExecutionLogs records
  let patterns := detectFailurePatterns executionLogs (asFailureMemoryRecords records)
  return [("total_records", .int records.length),
    ("repeated_failures", .list ((patterns.filter (2 ≤ ·.count)).map repeatedFailure)),
    ("success_strategies", .list ((census (successStrategies records)).map successStrategy))]

end FeedbackEngine

/-- `MemoryService.get_feedback_context`, or nothing where it raises. -/
def MemoryService.getFeedbackContext [Timestamp T] [Zoned T] (now : T) (streams : Streams)
    (taskId : String) : Option Fields := do
  let records ← getRecentHistory now streams 200
  let context ← FeedbackEngine.buildContext records
  return upsert "task_id" (.str taskId) context

/-! ### The failures that are counted -/

namespace FeedbackEngine

variable {record : ExecutionRecord T} {records : List (ExecutionRecord T)}

/-- A text, or another one where it is empty. -/
def orText (text default : String) : String := if text = "" then default else text

/-- What a record is counted under among the logs. -/
def loggedFailure (record : ExecutionRecord T) : List FailureKey :=
  if record.success then []
  else [toLex (orText (sourceOf record) "execution_log",
    orText (record.errors.headD "") "unknown_error")]

def rememberedFailures (record : ExecutionRecord T) : List FailureKey :=
  if record.success then []
  else record.errors.map fun error =>
    toLex ("memory:" ++ sourceOf record, orText error "unknown_error")

/-- What a record is counted under: once for its first error, and once more for each of its errors, under
a source of their own. -/
def reported (record : ExecutionRecord T) : List FailureKey :=
  loggedFailure record ++ rememberedFailures record

theorem textOf_eq {fields : Fields} {keys : List String} {text : String}
    (h : keys.filterMap fields.get? = [.str text]) (default : String) :
    textOf fields keys default = orText text default := by
  rw [textOf, h, orText]
  by_cases htext : text = ""
  · rw [List.find?_cons_of_neg (by simp [Value.truthy, htext]), if_pos htext]
    rfl
  · rw [List.find?_cons_of_pos (by simp [Value.truthy, htext]), if_neg htext]
    rfl

theorem hasFailed_of_status {entry : Fields} {status : String}
    (h : entry.get? "status" = some (.str status)) :
    Analysis.hasFailed entry = decide (lower status ∈ ["failed", "error"]) := by
  rw [Analysis.hasFailed, Analysis.statusOf, textField, h]
  rfl

theorem logKey_executionLog {entry : Fields} (h : executionLog record = some entry) :
    (logKey entry).toList = loggedFailure record := by
  obtain ⟨retryCount, -, hentry⟩ := Option.bind_eq_some_iff.1 h
  obtain rfl := Option.some.inj hentry
  have hfailed : ∀ success : Bool,
      decide (lower (if success then "completed" else "failed") ∈ ["failed", "error"]) = !success := by
    decide
  rw [logKey, textOf_eq rfl "execution_log", textOf_eq rfl "unknown_error", loggedFailure,
    hasFailed_of_status rfl, hfailed]
  cases record.success <;> rfl

theorem memoryKey_failureMemoryRecord (record : ExecutionRecord T) (error : String) :
    memoryKey (failureMemoryRecord record error)
      = some (toLex ("memory:" ++ sourceOf record, orText error "unknown_error")) := by
  show some (toLex ("memory:" ++ sourceOf record, textOf _ ["error"] "unknown_error")) = _
  rw [textOf_eq rfl]

theorem flatMap_logKey {entries : List Fields} (h : asExecutionLogs records = some entries) :
    entries.filterMap logKey = records.flatMap loggedFailure := by
  have hpaired := mapM_eq_some_iff.1 h
  clear h
  induction hpaired with
  | nil => rfl
  | cons hentry _ ih =>
      rw [List.flatMap_cons, ← ih, ← logKey_executionLog hentry, List.filterMap_cons]
      cases logKey _ <;> rfl

theorem flatMap_memoryKey (records : List (ExecutionRecord T)) :
    (asFailureMemoryRecords records).filterMap memoryKey = records.flatMap rememberedFailures := by
  rw [asFailureMemoryRecords, List.filterMap_flatMap]
  refine List.flatMap_congr fun record _ => ?_
  rw [rememberedFailures]
  split
  · rfl
  · rw [List.filterMap_map, ← List.filterMap_eq_map]
    exact List.filterMap_congr fun error _ => memoryKey_failureMemoryRecord record error

/-- What the pattern detector counts is what the records report. -/
theorem failureKeys_perm {entries : List Fields} (h : asExecutionLogs records = some entries) :
    (failureKeys entries (asFailureMemoryRecords records)).Perm (records.flatMap reported) := by
  rw [failureKeys, flatMap_logKey h, flatMap_memoryKey]
  exact List.flatMap_append_perm records loggedFailure rememberedFailures

/-! ### What the planner is told -/

theorem orText_ne_empty {text default : String} (h : default ≠ "") : orText text default ≠ "" := by
  rw [orText]
  split
  · exact h
  · assumption

theorem signature_ne_empty {key : FailureKey} (h : key ∈ records.flatMap reported) :
    (ofLex key).2 ≠ "" := by
  obtain ⟨record, -, hkey⟩ := List.mem_flatMap.1 h
  rw [reported, loggedFailure, rememberedFailures] at hkey
  split at hkey
  · cases hkey
  · rcases List.mem_append.1 hkey with hkey | hkey
    · obtain rfl := List.mem_singleton.1 hkey
      exact orText_ne_empty (by decide)
    · obtain ⟨error, -, rfl⟩ := List.mem_map.1 hkey
      exact orText_ne_empty (by decide)

/-- A failure that the records report at least twice under one source. -/
def Repeats (records : List (ExecutionRecord T)) (signature : String) : Prop :=
  ∃ source, 2 ≤ (records.flatMap reported).count (toLex (source, signature))

/-- The list of some texts, or what was there where there is none. -/
def listed (given : Option Value) (texts : List String) : Option Value :=
  if texts = [] then given else some (.list (texts.map .str))

/-- What records make of the metadata of a task: the failures that repeat are to be avoided, in
ascending order; the strategies that succeeded are preferred, those that succeeded more often first; and
the other entries are as they were. -/
structure Learned (records : List (ExecutionRecord T)) (given metadata : Fields) : Prop where
  avoided : ∃ texts : List String, texts.Pairwise (· < ·) ∧ (∀ text, text ∈ texts ↔ Repeats records text)
    ∧ metadata.get? "avoid_failure_signatures"
      = listed (given.get? "avoid_failure_signatures") texts
  preferred : ∃ counted, IsCensus (successStrategies records) counted
    ∧ metadata.get? "preferred_strategies"
      = listed (given.get? "preferred_strategies") (counted.map Prod.fst)
  kept : ∀ key, key ≠ "avoid_failure_signatures" → key ≠ "preferred_strategies" →
    metadata.get? key = given.get? key

theorem itemText_str {entries : Fields} {key text : String}
    (h : entries.get? key = some (.str text)) (htext : text ≠ "") :
    itemText key (.dict entries) = some text := by
  rw [itemText, h]
  exact if_pos (by simpa [Value.truthy] using htext)

theorem mem_signatures_iff {entries : List Fields} (h : asExecutionLogs records = some entries)
    (text : String) :
    text ∈ signatures (((detectFailurePatterns entries (asFailureMemoryRecords records)).filter
        (2 ≤ ·.count)).map repeatedFailure) ↔ Repeats records text := by
  have hcensus := (Analysis.isPatterns_detect entries (asFailureMemoryRecords records)).census.of_perm
    (failureKeys_perm h)
  have htexts : text ∈ signatures (((detectFailurePatterns entries
      (asFailureMemoryRecords records)).filter (2 ≤ ·.count)).map repeatedFailure)
      ↔ ∃ pattern ∈ detectFailurePatterns entries (asFailureMemoryRecords records),
        2 ≤ pattern.count ∧ itemText "signature" (repeatedFailure pattern) = some text := by
    refine (List.mem_insertionSort (· ≤ ·)).trans (List.mem_dedup.trans (List.mem_filterMap.trans ?_))
    simp only [List.mem_map, List.mem_filter, decide_eq_true_eq]
    constructor
    · rintro ⟨_, ⟨pattern, ⟨hmem, hmany⟩, rfl⟩, htext⟩
      exact ⟨pattern, hmem, hmany, htext⟩
    · rintro ⟨pattern, hmem, hmany, htext⟩
      exact ⟨_, ⟨pattern, ⟨hmem, hmany⟩, rfl⟩, htext⟩
  -- keys are compared as pairs here and by their order in the census
  have hsame : ∀ key : FailureKey, @List.count FailureKey instBEqOfDecidableEq key
      (records.flatMap reported) = (records.flatMap reported).count key :=
    fun key => List.countP_congr fun _ _ => by simp
  rw [htexts]
  constructor
  · rintro ⟨pattern, hmem, hmany, htext⟩
    obtain ⟨hkey, hcount⟩ := (hcensus.mem_iff _ _).1 (List.mem_map_of_mem hmem)
    obtain rfl : pattern.signature = text :=
      Option.some.inj ((itemText_str rfl (signature_ne_empty hkey)).symm.trans htext)
    rw [hsame] at hcount
    exact ⟨pattern.source, hmany.trans_eq hcount⟩
  · rintro ⟨source, hmany⟩
    have hkey := List.count_pos_iff.1 (lt_of_lt_of_le (by decide : 0 < 2) hmany)
    obtain ⟨pattern, hmem, hentry⟩ := List.mem_map.1 ((hcensus.mem_iff _ _).2 ⟨hkey, rfl⟩)
    obtain ⟨hpair, hcount⟩ := Prod.mk.inj hentry
    obtain ⟨rfl, rfl⟩ := Prod.mk.inj (toLex_inj.1 hpair)
    rw [hsame] at hcount
    exact ⟨pattern, hmem, hmany.trans_eq hcount.symm, itemText_str rfl (signature_ne_empty hkey)⟩

theorem strategies_census (records : List (ExecutionRecord T)) :
    strategies ((census (successStrategies records)).map successStrategy)
      = (census (successStrategies records)).map Prod.fst := by
  have hne : ∀ entry ∈ census (successStrategies records), entry.1 ≠ "" := by
    intro entry hentry
    have hmem := (((isCensus_census (successStrategies records)).mem_iff entry.1 entry.2).1 hentry).1
    exact of_decide_eq_true (List.mem_filter.1 hmem).2
  have htexts : ((census (successStrategies records)).map successStrategy).filterMap
      (itemText "strategy") = (census (successStrategies records)).map Prod.fst := by
    rw [List.filterMap_map, ← List.filterMap_eq_map]
    exact List.filterMap_congr fun entry hentry => itemText_str rfl (hne entry hentry)
  rw [strategies, htexts, List.filter_eq_self]
  intro text htext
  obtain ⟨entry, hentry, rfl⟩ := List.mem_map.1 htext
  exact decide_eq_true (hne entry hentry)

theorem get?_withTexts_self (key : String) (texts : List String) (metadata : Fields) :
    (withTexts key texts metadata).get? key = listed (metadata.get? key) texts := by
  rw [withTexts, listed]
  by_cases htexts : texts = []
  · rw [if_pos htexts, if_neg (not_not.2 htexts)]
  · rw [if_neg htexts, if_pos htexts, Fields.get?, lookup_upsert, if_pos rfl]

theorem get?_withTexts_of_ne {key key' : String} (h : key' ≠ key) (texts : List String)
    (metadata : Fields) : (withTexts key texts metadata).get? key' = metadata.get? key' := by
  rw [withTexts]
  split
  · rw [Fields.get?, lookup_upsert, if_neg h, Fields.get?]
  · rfl

/-- The metadata that a context of records makes. -/
theorem learned_adjusted {context : Fields} (h : buildContext records = some context)
    (taskId : Value) (given : Fields) :
    Learned records given (adjusted (upsert "task_id" taskId context) given) := by
  obtain ⟨entries, hentries, hcontext⟩ := Option.bind_eq_some_iff.1 h
  obtain rfl := Option.some.inj hcontext
  have hmem := mem_signatures_iff hentries
  generalize hfailures : ((detectFailurePatterns entries (asFailureMemoryRecords records)).filter
    (2 ≤ ·.count)).map repeatedFailure = failures at hmem
  have hpreferred : "preferred_strategies" ≠ "avoid_failure_signatures" := by decide
  show Learned records given (withTexts "preferred_strategies" (strategies ((census
    (successStrategies records)).map successStrategy)) (withTexts "avoid_failure_signatures"
      (signatures _) given))
  rw [strategies_census]
  refine ⟨⟨signatures failures, pairwise_distinct _, hmem, ?_⟩, ⟨_, isCensus_census _, ?_⟩,
    fun key havoid hprefer => ?_⟩
  · rw [get?_withTexts_of_ne hpreferred.symm, get?_withTexts_self]
  · rw [get?_withTexts_self, get?_withTexts_of_ne hpreferred]
  · rw [get?_withTexts_of_ne hprefer, get?_withTexts_of_ne havoid]

/-! ### The order of the records -/

theorem asExecutionLogs_of_perm {records' : List (ExecutionRecord T)} {entries : List Fields}
    (hperm : records.Perm records') (h : asExecutionLogs records = some entries) :
    ∃ entries', asExecutionLogs records' = some entries' ∧ entries.Perm entries' := by
  obtain ⟨entries', hentries, hsame⟩ := List.perm_comp_forall₂ hperm.symm (mapM_eq_some_iff.1 h)
  exact ⟨entries', mapM_eq_some_iff.2 hentries, hsame.symm⟩

/-- **The order of the records does not show in a context**, nor in whether it can be built. -/
theorem buildContext_of_perm {records' : List (ExecutionRecord T)} (hperm : records.Perm records') :
    buildContext records = buildContext records' := by
  have hfailures : (asFailureMemoryRecords records).Perm (asFailureMemoryRecords records') :=
    hperm.flatMap_right _
  have hstrategies : (successStrategies records).Perm (successStrategies records') :=
    ((hperm.filter _).map _).filter _
  rw [buildContext, buildContext, hperm.length_eq, census_of_perm hstrategies]
  rcases hentries : asExecutionLogs records with _ | entries
  · have hnone : asExecutionLogs records' = none := by
      rw [← Option.not_isSome_iff_eq_none, asExecutionLogs, mapM_isSome_iff]
      intro hall
      have hsome : (asExecutionLogs records).isSome = true :=
        mapM_isSome_iff.2 fun record hmem => hall record (hperm.mem_iff.1 hmem)
      rw [hentries] at hsome
      cases hsome
    rw [hnone]
    rfl
  · obtain ⟨entries', hentries', hlogs⟩ := asExecutionLogs_of_perm hperm hentries
    simp only [hentries', Option.bind_eq_bind, Option.bind_some,
      Analysis.detectFailurePatterns_of_perm hlogs hfailures]

/-- A record of a task that has no inputs, plan or result. -/
def bareRecord (success : Bool) (errors : List String) (metadata : Fields) : ExecutionRecord Unit where
  taskId := ⟨"task", by decide⟩
  input := []
  plan := []
  result := []
  success
  errors
  timestamp := ()
  metadata

theorem buildContext_of_perm_bare :
    buildContext [bareRecord false ["timeout"] [], bareRecord true [] [("strategy", .str "retry")]]
      = buildContext
        [bareRecord true [] [("strategy", .str "retry")], bareRecord false ["timeout"] []] :=
  buildContext_of_perm (.swap _ _ _)

end FeedbackEngine

/-! ### From memory to the plan -/

section Plan

open Planning (DictOrMissing ExecutionPlan Heap Injects Slot Standalone TaskNode plan)

/-- The plan of a standalone task has this one task. -/
theorem buildExecutionPlan_fields {heap : Heap} {t : ℕ} {id description : String} {metadata : Fields}
    (h : Standalone (heap.task t).others id description)
    (hmetadata : dictOrEmpty ((heap.task t).metadata.map heap.load) = some metadata) :
    ∃ executionPlan, Planning.buildExecutionPlan [.dict (heap.fields t)] = .ok executionPlan
      ∧ executionPlan.orderedTasks = [⟨id, description, [], metadata⟩] := by
  have hread : TaskNode.fromDict (heap.fields t) = some ⟨id, description, [], metadata⟩ := by
    simp only [TaskNode.fromDict, Heap.get?_fields_of_ne (show "id" ≠ "metadata" by decide),
      Heap.get?_fields_of_ne (show "description" ≠ "metadata" by decide),
      Heap.get?_fields_of_ne (show "dependencies" ≠ "metadata" by decide),
      Heap.get?_fields_metadata, h.id_eq, h.description_eq, h.dependencies_eq, hmetadata, nonEmptyStr,
      if_neg h.id_ne, if_neg h.description_ne]
    rfl
  exact Planning.buildExecutionPlan_single hread rfl

/-- The planner on a standalone task and a context. -/
theorem plan_standalone {heap : Heap} {t : ℕ} {id description : String}
    (h : Standalone (heap.task t).others id description) {context : Fields}
    (hmetadata : DictOrMissing heap t ∨ Injects context) :
    ∃ executionPlan, (plan t (some context) heap).1 = .ok executionPlan
      ∧ executionPlan.orderedTasks
        = [⟨id, description, [], adjusted context (heap.metadataOrEmpty t)⟩] := by
  obtain ⟨task, ds, hcopy, -, hothers, hload⟩ := heap.deepcopy_spec t
  have hbase : (⟨heap.tasks ++ [task], ds⟩ : Heap).metadataOrEmpty heap.tasks.length
      = heap.metadataOrEmpty t := by
    rw [Heap.metadataOrEmpty, Heap.task_concat, (hload (heap.tasks ++ [task]) []).2]
    rfl
  have hstandalone : ∀ (slot : Option Slot) (d : Fields), Standalone
      ((⟨heap.tasks ++ [{ task with metadata := slot }], ds ++ [d]⟩ : Heap).task
        heap.tasks.length).others id description := fun slot d => by
    rw [Heap.task_concat, hothers]
    exact h
  rw [Planning.plan_eq context hcopy, hbase]
  by_cases hempty : adjusted context (heap.metadataOrEmpty t) = []
  · have hnothing := (not_congr Planning.adjusted_ne_nil_iff).1 (not_not.2 hempty)
    rw [not_or, not_not] at hnothing
    rw [hempty]
    simp only [ne_eq, not_true_eq_false, if_false]
    apply buildExecutionPlan_fields (hstandalone task.metadata [])
    rw [Heap.task_concat, (hload (heap.tasks ++ [task]) []).1, ← hnothing.2,
      Planning.dictOrEmpty_eq_iff]
    exact hmetadata.resolve_right hnothing.1
  · simp only [ne_eq, hempty, not_false_eq_true, if_true]
    apply buildExecutionPlan_fields (hstandalone (some (.ref ds.length)) _)
    rw [Heap.task_concat, Option.map_some, Heap.load, Heap.dict_concat]
    rfl

/-- **What the planner writes into a task is what the newest records say**: of the failures it avoids
each was reported at least twice under one source, the strategies it prefers have succeeded, and both
lists are complete. -/
theorem plan_learns [Timestamp T] [Zoned T] {now : T} {streams : Streams} {taskId : String}
    {history : List (ExecutionRecord T)} {context : Fields} {heap : Heap} {t : ℕ}
    {id description : String} (hhistory : MemoryService.getRecentHistory now streams 200 = some history)
    (hcontext : MemoryService.getFeedbackContext now streams taskId = some context)
    (htask : Standalone (heap.task t).others id description) (hmetadata : DictOrMissing heap t) :
    ∃ executionPlan node, (plan t (some context) heap).1 = .ok executionPlan
      ∧ executionPlan.orderedTasks = [node]
      ∧ FeedbackEngine.Learned history (heap.metadataOrEmpty t) node.metadata := by
  obtain ⟨records, hrecords, hrest⟩ := Option.bind_eq_some_iff.1 hcontext
  obtain rfl := Option.some.inj (hhistory.symm.trans hrecords)
  obtain ⟨built, hbuilt, hadded⟩ := Option.bind_eq_some_iff.1 hrest
  obtain rfl := Option.some.inj hadded
  obtain ⟨executionPlan, hplan, hordered⟩ := plan_standalone htask (.inl hmetadata)
  exact ⟨executionPlan, _, hplan, hordered, FeedbackEngine.learned_adjusted hbuilt (.str taskId) _⟩

/-- Two runs that timed out. -/
def timeoutHistory : List (MemoryService.Midnight × ServiceCall MemoryService.Midnight) :=
  List.replicate 2 (.utc, .recordExecution {
    taskId := "task"
    input := none
    plan := none
    result := none
    success := false
    errors := some [.str "timeout"]
    metadata := none
    timestamp := .utc })

/-- A task without metadata. -/
def bareTask : Heap where
  tasks := [⟨none,
    [("id", .str "deploy"), ("description", .str "Deploy"), ("dependencies", .list [])], rfl⟩]
  dicts := []

theorem timeoutHistory_read : (performAll timeoutHistory fun _ => []).map (fun streams =>
    ((MemoryService.getRecentHistory MemoryService.Midnight.utc streams 200).isSome,
      (MemoryService.getFeedbackContext MemoryService.Midnight.utc streams "next").isSome))
      = some (true, true) := by
  decide +kernel

theorem plan_learns_timeout : ∃ streams history context executionPlan node,
    performAll timeoutHistory (fun _ => []) = some streams
      ∧ MemoryService.getRecentHistory MemoryService.Midnight.utc streams 200 = some history
      ∧ MemoryService.getFeedbackContext MemoryService.Midnight.utc streams "next" = some context
      ∧ (plan 0 (some context) bareTask).1 = .ok executionPlan
      ∧ executionPlan.orderedTasks = [node]
      ∧ FeedbackEngine.Learned history (bareTask.metadataOrEmpty 0) node.metadata := by
  obtain ⟨streams, hstreams, hread⟩ := Option.map_eq_some_iff.1 timeoutHistory_read
  obtain ⟨hhistory, hcontext⟩ := Prod.mk.inj hread
  obtain ⟨history, hhistory⟩ := Option.isSome_iff_exists.1 hhistory
  obtain ⟨context, hcontext⟩ := Option.isSome_iff_exists.1 hcontext
  have hstandalone : Standalone (bareTask.task 0).others "deploy" "Deploy" :=
    ⟨rfl, by decide, rfl, by decide, rfl⟩
  have hmetadata : DictOrMissing bareTask 0 := fun v hv => by cases hv
  obtain ⟨executionPlan, node, hplan⟩ := plan_learns hhistory hcontext hstandalone hmetadata
  exact ⟨streams, history, context, executionPlan, node, hstreams, hhistory, hcontext, hplan⟩

end Plan

end PersonalDevin.Memory
