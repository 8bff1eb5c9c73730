import PersonalDevin.Lib.Fraction
import PersonalDevin.Memory.History
import PersonalDevin.Memory.Sequential

/-!
# Which executions succeeded

Three readers of the execution stream tell the successes from the failures: the evaluator of the
self-improvement by the status of a record, the service by the `ExecutionRecord` it makes of it, and the
store by the dictionary it holds. They are compared on the records that the two calls of the service
write. All three rates are fractions here; the program has the nearest floats.
-/

namespace PersonalDevin.SelfImprovement

open Lib
open Memory

variable {T : Type} [Timestamp T]

/-! ### The evaluator -/

/-- What the evaluator is given: a record of the service, or a dictionary of the store. -/
inductive HistoryItem (T : Type) where
  | record (record : MemoryRecord T)
  | payload (fields : Fields)

/-- The data of an item that has the expected type. -/
def HistoryItem.entryOf (expected : MemoryType) : HistoryItem T → Option Fields
  | .record memory => if memory.type = expected then some memory.data else none
  | .payload fields =>
      if textField fields "type" "None" = expected.text then
        match (fields.get? "data").getD (.dict []) with
        | .dict data => some data
        | _ => none
      else none

def extractEntries (items : List (HistoryItem T)) (expected : MemoryType) : List Fields :=
  items.filterMap (HistoryItem.entryOf expected)

def entrySucceeded (entry : Fields) : Bool := lower (textField entry "status" "") = "success"

def successRate (entries : List Fields) : ℚ :=
  if entries = [] then 1 else fraction entrySucceeded entries

/-! ### The three rates -/

/-- The success rate of the evaluator for the records of the execution stream. -/
def evaluatedRate (now : T) (streams : Streams) : Option ℚ :=
  (getAll now streams .execution).map fun records =>
    successRate (extractEntries (records.map .record) .execution)

/-- The fraction of the records that the service marks as a success. -/
def recordedRate (now : T) (streams : Streams) : Option ℚ := do
  let records ← getAll now streams .execution
  let history ← records.mapM (executionMemoryToRecord now)
  return fraction ExecutionRecord.success history

/-- The fraction of the dictionaries that the store gives back as successes. -/
def storedRate (streams : Streams) : ℚ :=
  ((MemoryStore.getSuccesses streams).length : ℚ) / (streams .execution).length

/-- The three readers have the same rate. -/
def RatesAgree (now : T) (streams : Streams) : Prop :=
  evaluatedRate now streams = some (storedRate streams)
    ∧ recordedRate now streams = some (storedRate streams)

/-! ### Records that the service has written -/

/-- Calls of the service one after the other, or nothing where one raises. -/
def performAll (history : List (T × ServiceCall T)) (streams : Streams) : Option Streams :=
  history.foldlM (fun streams call => (perform call.1 call.2 streams).map Prod.snd) streams

def executionCalls (history : List (T × ServiceCall T)) : List (ServiceCall T) :=
  (history.map Prod.snd).filter fun call => call.type = .execution

/-- The payload of a record, with the record that it is read as. -/
structure StoredRecord (T : Type) [Timestamp T] where
  payload : StoredPayload
  record : MemoryRecord T
  read : ∀ now, fromDict now payload.fields = some record

/-- The call has written the record to the execution stream. -/
structure Wrote (call : ServiceCall T) (written : StoredRecord T) : Prop where
  execution : call.type = .execution
  type : written.record.type = .execution
  data : ∃ data, call.data = some data ∧ Value.jsonEntries data = some written.record.data
  field : written.payload.fields.get? "data" = some (.dict written.record.data)
  keys : written.payload.fields.map Prod.fst = ["id", "timestamp", "type", "data"]

theorem wrote_of_perform {now : T} {call : ServiceCall T} {streams streams' : Streams}
    {record : MemoryRecord T} (h : perform now call streams = some (record, streams'))
    (htype : call.type = .execution) :
    ∃ written, Wrote call written ∧ streams' = streams.push .execution written.payload := by
  obtain ⟨data, payload, hdata, rfl, hpayload, rfl⟩ := perform_eq_some h
  obtain ⟨stored, ⟨storedData, hentries, rfl⟩, hread⟩ := fromDict_toDict hpayload
  have hjson := StoredPayload.ofFields_eq_some_iff.1 hpayload
  refine ⟨⟨payload, _, hread⟩, ⟨htype, htype, ⟨data, hdata, hentries⟩, ?_, ?_⟩, htype ▸ rfl⟩
  · rw [Value.get?_jsonEntries hjson]
    simp only [MemoryRecord.toDict, Fields.get?, List.lookup_cons]
    show (Value.dict data).jsonRoundTrip = _
    rw [Value.jsonRoundTrip]
    exact congrArg (Option.map Value.dict) hentries
  · exact Value.map_fst_jsonEntries hjson

theorem performAll_cons_eq_some {call : T × ServiceCall T} {rest : List (T × ServiceCall T)}
    {streams streams' : Streams} (h : performAll (call :: rest) streams = some streams') :
    ∃ record middle, perform call.1 call.2 streams = some (record, middle)
      ∧ performAll rest middle = some streams' := by
  rw [performAll, List.foldlM_cons, Option.bind_eq_bind, Option.bind_eq_some_iff] at h
  obtain ⟨middle, hcall, hrest⟩ := h
  obtain ⟨⟨record, _⟩, hperform, rfl⟩ := Option.map_eq_some_iff.1 hcall
  exact ⟨record, _, hperform, hrest⟩

/-- What a run of calls leaves in the stream of a type, where every call of the type writes a record. -/
theorem written_of_performAll {R : T × ServiceCall T → StoredRecord T → Prop} {type : MemoryType}
    (hwrites : ∀ call streams record streams', perform call.1 call.2 streams = some (record, streams') →
      call.2.type = type → ∃ written, R call written ∧ streams' = streams.push type written.payload)
    {history : List (T × ServiceCall T)} {streams streams' : Streams}
    (h : performAll history streams = some streams') :
    ∃ written, List.Forall₂ R (history.filter fun call => call.2.type = type) written
      ∧ streams' type = streams type ++ written.map StoredRecord.payload := by
  induction history generalizing streams with
  | nil =>
      obtain rfl := Option.some.inj h
      exact ⟨[], .nil, (List.append_nil _).symm⟩
  | cons call rest ih =>
      obtain ⟨record, middle, hperform, hrest⟩ := performAll_cons_eq_some h
      obtain ⟨written, hwritten, hstream⟩ := ih hrest
      rw [List.filter_cons]
      by_cases htype : call.2.type = type
      · obtain ⟨first, hfirst, rfl⟩ := hwrites _ _ _ _ hperform htype
        refine ⟨first :: written, ?_, ?_⟩
        · rw [if_pos (decide_eq_true htype)]
          exact .cons hfirst hwritten
        · rw [hstream, Streams.push, Function.update_self, List.append_assoc]
          rfl
      · obtain ⟨_, payload, _, _, _, rfl⟩ := perform_eq_some hperform
        refine ⟨written, ?_, ?_⟩
        · rw [if_neg (by rwa [decide_eq_true_eq])]
          exact hwritten
        · rw [hstream, Streams.push, Function.update_of_ne (Ne.symm htype)]

/-- **What a run of calls leaves in the execution stream.** -/
theorem wrote_of_performAll {history : List (T × ServiceCall T)} {streams streams' : Streams}
    (h : performAll history streams = some streams') :
    ∃ written, List.Forall₂ Wrote (executionCalls history) written
      ∧ streams' .execution = streams .execution ++ written.map StoredRecord.payload := by
  obtain ⟨written, hwritten, hstream⟩ := written_of_performAll (R := fun call => Wrote call.2)
    (fun _ _ _ _ hperform htype => wrote_of_perform hperform htype) h
  refine ⟨written, ?_, hstream⟩
  rw [executionCalls, List.filter_map, List.forall₂_map_left_iff]
  exact hwritten

/-! ### The three readings of one record -/

def writtenStatus : ServiceCall T → String
  | .logExecution status _ _ _ _ _ => status
  | .recordExecution args => if args.success then "success" else "failure"
  | _ => ""

/-- What the service and the store make of the record that the call writes. -/
def marksSuccess : ServiceCall T → Bool
  | .logExecution status _ _ _ _ _ => lower status ∈ ["success", "completed"]
  | .recordExecution args => args.success
  | _ => false

/-- What the evaluator makes of it. -/
def countsSuccess : ServiceCall T → Bool
  | .logExecution status _ _ _ _ _ => lower status = "success"
  | .recordExecution args => args.success
  | _ => false

/-- `log_execution` with the status of a completed report. -/
def logsCompleted : ServiceCall T → Bool
  | .logExecution status _ _ _ _ _ => lower status = "completed"
  | _ => false

omit [Timestamp T] in
theorem countsSuccess_imp {call : ServiceCall T} (h : countsSuccess call) : marksSuccess call := by
  cases call <;> simp_all [countsSuccess, marksSuccess]

omit [Timestamp T] in
theorem countsSuccess_eq_iff (call : ServiceCall T) :
    countsSuccess call = marksSuccess call ↔ logsCompleted call = false := by
  cases call with
  | logExecution status totalTasks completedTasks failedTasks skippedTasks metadata =>
      by_cases hsuccess : lower status = "success" <;>
        simp [countsSuccess, marksSuccess, logsCompleted, hsuccess]
  | logTask => exact iff_of_true rfl rfl
  | logFailure => exact iff_of_true rfl rfl
  | logDecision => exact iff_of_true rfl rfl
  | recordExecution => exact iff_of_true rfl rfl

namespace Wrote

variable {call : ServiceCall T} {written : StoredRecord T}

theorem get?_data (h : Wrote call written) {data : Fields} (hdata : call.data = some data)
    (key : String) :
    written.record.data.get? key = (data.get? key).bind Value.jsonRoundTrip := by
  obtain ⟨data', hdata', hentries⟩ := h.data
  obtain rfl : data = data' := Option.some.inj (hdata.symm.trans hdata')
  exact Value.get?_jsonEntries hentries key

theorem count (h : Wrote call written) {data : Fields} (hdata : call.data = some data) {key : String}
    {n : ℤ} (hfield : data.get? key = some (.int n)) :
    intField written.record.data key = some n := by
  rw [intField, h.get?_data hdata, hfield]
  rfl

theorem status (h : Wrote call written) :
    textField written.record.data "status" "" = writtenStatus call := by
  obtain ⟨data, hdata, _⟩ := h.data
  have hstatus : data.get? "status" = some (.str (writtenStatus call)) := by
    cases call with
    | logExecution =>
        obtain rfl := Option.some.inj hdata
        rfl
    | logTask => cases h.execution
    | logFailure => cases h.execution
    | logDecision => cases h.execution
    | recordExecution args =>
        simp only [ServiceCall.data, ExecutionArgs.data, Option.bind_eq_bind, Option.bind_eq_some_iff,
          Option.pure_def, Option.some.injEq] at hdata
        obtain ⟨_, _, _, _, _, _, _, _, _, _, rfl⟩ := hdata
        rfl
  rw [textField, h.get?_data hdata, hstatus]
  rfl

/-- **What the evaluator makes of a record.** -/
theorem entrySucceeded (h : Wrote call written) :
    entrySucceeded written.record.data = countsSuccess call := by
  rw [SelfImprovement.entrySucceeded, h.status]
  cases call with
  | logExecution => rfl
  | logTask => cases h.execution
  | logFailure => cases h.execution
  | logDecision => cases h.execution
  | recordExecution args =>
      show decide (lower (if args.success then "success" else "failure") = "success") = args.success
      cases args.success <;> decide

theorem get?_payload (h : Wrote call written) {key : String}
    (hkey : key ∉ ["id", "timestamp", "type", "data"]) : written.payload.fields.get? key = none := by
  rw [Fields.get?, List.lookup_eq_none_iff]
  intro entry hmem
  refine bne_iff_ne.2 fun heq => hkey ?_
  rw [← h.keys, heq]
  exact List.mem_map_of_mem hmem

/-- **What the store makes of a record.** -/
theorem isSuccess (h : Wrote call written) :
    MemoryStore.isSuccess written.payload.fields = marksSuccess call := by
  have hsuccess : written.payload.fields.get? "success" = none := h.get?_payload (by decide)
  have hstatus : textField written.payload.fields "status" "" = "" := by
    rw [textField, h.get?_payload (by decide)]
  have hempty : MemoryStore.statusSuccess "" = none := by decide
  unfold MemoryStore.isSuccess
  simp only [hsuccess, hstatus, hempty, h.field, h.status]
  cases call with
  | logExecution status =>
      have hrecord : written.record.data.get? "execution_record" = none := by
        rw [h.get?_data rfl]
        rfl
      simp only [hrecord, writtenStatus, marksSuccess, MemoryStore.statusSuccess]
      by_cases hword : lower status ∈ ["success", "completed"]
      · simp only [hword, if_true, decide_true]
      · simp only [hword, if_false, decide_false]
        by_cases hfailed : lower status ∈ ["failure", "failed", "error"]
        · simp only [hfailed, if_true]
        · simp only [hfailed, if_false]
  | logTask => cases h.execution
  | logFailure => cases h.execution
  | logDecision => cases h.execution
  | recordExecution args =>
      show _ = args.success
      rw [writtenStatus]
      cases args.success
      · have hfailure : MemoryStore.statusSuccess "failure" = some false := by decide
        simp [hfailure]
      · have hfailure : MemoryStore.statusSuccess "success" = some true := by decide
        simp [hfailure]

theorem execution_record {args : ExecutionArgs T} (h : Wrote (.recordExecution args) written)
    (now : T) :
    ∃ entries record, written.record.data.get? "execution_record" = some (.dict entries)
      ∧ ExecutionRecord.fromDict now entries = some record ∧ record.success = args.success := by
  obtain ⟨data, hdata, hentries⟩ := h.data
  simp only [ServiceCall.data, ExecutionArgs.data, Option.bind_eq_bind, Option.bind_eq_some_iff,
    Option.pure_def, Option.some.injEq] at hdata
  obtain ⟨taskId, htask, _, _, _, _, _, _, _, _, rfl⟩ := hdata
  have hsome := Value.isSome_jsonEntries.1 (Option.isSome_iff_exists.2 ⟨_, hentries⟩)
    ("execution_record", .dict (args.recordFields
      ((args.errors.getD []).map fun error => .str error.pyStr))) (by simp)
  obtain ⟨value, hvalue⟩ := Option.isSome_iff_exists.1 hsome
  obtain ⟨entries, hrecord, rfl⟩ := Option.map_eq_some_iff.1 hvalue
  obtain ⟨record, hread, hsuccess⟩ := fromDict_recordFields htask hrecord now
  refine ⟨entries, record, ?_, hread, hsuccess⟩
  rw [Value.get?_jsonEntries hentries]
  exact hvalue

/-- The values of a record that was read are JSON values. -/
theorem jsonRoundTrip_metadata (h : Wrote call written) {key : String} {value : Value}
    (hvalue : (dictField written.record.data "metadata").get? key = some value) :
    value.jsonRoundTrip = some value := by
  obtain ⟨_, _, hentries⟩ := h.data
  have hdata := Value.jsonEntries_stable hentries
  unfold dictField at hvalue
  split at hvalue
  · rename_i entries hmetadata
    have hdict := Value.jsonRoundTrip_of_get? hdata hmetadata
    obtain ⟨entries', hstable, heq⟩ := Option.map_eq_some_iff.1 hdict
    obtain rfl := Value.dict.inj heq
    exact Value.jsonRoundTrip_of_get? hstable hvalue
  · cases hvalue

theorem recordId_pyStr (h : Wrote call written) {value : Value}
    (hvalue : (dictField written.record.data "metadata").get? "task_id" = some value)
    (htruthy : value.truthy) : ∃ taskId, recordId (some (.str value.pyStr)) = some taskId := by
  have hjson := Option.isSome_iff_exists.2 ⟨_, h.jsonRoundTrip_metadata hvalue⟩
  exact ⟨_, recordId_str ⟨value.pyStr, Value.pyStr_ne_empty hjson htruthy⟩⟩

/-- **What the service makes of a record.** -/
theorem executionMemoryToRecord (h : Wrote call written) (now : T) :
    ∃ record, Memory.executionMemoryToRecord now written.record = some record
      ∧ record.success = marksSuccess call := by
  cases call with
  | logExecution status totalTasks completedTasks failedTasks skippedTasks metadata =>
      have hrecord : written.record.data.get? "execution_record" = none := by
        rw [h.get?_data rfl]
        rfl
      have htotal : intField written.record.data "total_tasks" = some totalTasks := h.count rfl rfl
      have hcompleted : intField written.record.data "completed_tasks" = some completedTasks :=
        h.count rfl rfl
      have hfailed : intField written.record.data "failed_tasks" = some failedTasks := h.count rfl rfl
      have hskipped : intField written.record.data "skipped_tasks" = some skippedTasks :=
        h.count rfl rfl
      unfold Memory.executionMemoryToRecord
      rw [hrecord]
      dsimp only
      rw [htotal, hcompleted, hfailed, hskipped, h.status]
      simp only [Option.bind_eq_bind, Option.bind_some]
      rcases hvalue : (dictField written.record.data "metadata").get? "task_id" with _ | value
      · exact ⟨_, rfl, rfl⟩
      · by_cases htruthy : value.truthy
        · obtain ⟨taskId, htask⟩ := h.recordId_pyStr hvalue htruthy
          simp only [htruthy, if_true, htask]
          exact ⟨_, rfl, rfl⟩
        · simp only [htruthy, Bool.false_eq_true, if_false]
          exact ⟨_, rfl, rfl⟩
  | logTask => cases h.execution
  | logFailure => cases h.execution
  | logDecision => cases h.execution
  | recordExecution args =>
      obtain ⟨entries, record, hfield, hread, hsuccess⟩ := h.execution_record now
      refine ⟨record, ?_, hsuccess⟩
      rw [Memory.executionMemoryToRecord, hfield]
      exact hread

end Wrote

/-! ### The rates of a history -/

section Rates

variable {calls : List (ServiceCall T)} {written : List (StoredRecord T)} {streams : Streams}

theorem getAll_of_wrote {type : MemoryType}
    (hstream : streams type = written.map StoredRecord.payload) (now : T) :
    getAll now streams type = some (written.map StoredRecord.record) := by
  rw [getAll, hstream, mapM_eq_some_iff, List.forall₂_map_left_iff, List.forall₂_map_right_iff,
    List.forall₂_same]
  exact fun stored _ => stored.read now

theorem evaluatedRate_eq (hwrote : List.Forall₂ Wrote calls written) (hne : calls ≠ [])
    (hstream : streams .execution = written.map StoredRecord.payload) (now : T) :
    evaluatedRate now streams = some (fraction countsSuccess calls) := by
  have hentries : extractEntries ((written.map StoredRecord.record).map .record) .execution
      = written.map fun stored => stored.record.data := by
    rw [extractEntries, List.map_map, List.filterMap_map, ← List.filterMap_eq_map]
    refine List.filterMap_congr fun stored hmem => ?_
    obtain ⟨call, _, hcall⟩ := exists_of_mem_right hwrote hmem
    exact if_pos hcall.type
  have hlength := hwrote.length_eq
  have hdata : (written.map fun stored => stored.record.data) ≠ [] := by
    intro hnil
    rw [List.map_eq_nil_iff.1 hnil, List.length_nil] at hlength
    exact hne (List.eq_nil_of_length_eq_zero hlength)
  rw [evaluatedRate, getAll_of_wrote hstream, Option.map_some, hentries, successRate, if_neg hdata,
    fraction_map, ← fraction_eq_of_paired hwrote fun _ _ h => h.entrySucceeded.symm]

theorem recordedRate_eq (hwrote : List.Forall₂ Wrote calls written)
    (hstream : streams .execution = written.map StoredRecord.payload) (now : T) :
    recordedRate now streams = some (fraction marksSuccess calls) := by
  obtain ⟨history, hhistory, hpaired⟩ : ∃ history,
      (written.map StoredRecord.record).mapM (executionMemoryToRecord now) = some history
        ∧ List.Forall₂ (fun call record => record.success = marksSuccess call) calls history := by
    rw [List.mapM_map]
    exact exists_mapM_of_paired hwrote fun _ _ h => h.executionMemoryToRecord now
  rw [recordedRate, getAll_of_wrote hstream, Option.bind_eq_bind, Option.bind_some, hhistory,
    Option.bind_eq_bind, Option.bind_some, fraction_eq_of_paired hpaired fun _ _ h => h.symm]
  rfl

theorem storedRate_eq (hwrote : List.Forall₂ Wrote calls written)
    (hstream : streams .execution = written.map StoredRecord.payload) :
    storedRate streams = fraction marksSuccess calls := by
  rw [fraction_eq_of_paired hwrote fun _ _ h => h.isSuccess.symm, storedRate,
    MemoryStore.getSuccesses, ← List.countP_eq_length_filter, hstream, List.map_map, List.countP_map,
    List.length_map]
  rfl

end Rates

omit [Timestamp T] in
theorem type_of_logsCompleted {call : ServiceCall T} (h : logsCompleted call = true) :
    call.type = .execution := by
  cases call with
  | logExecution => rfl
  | logTask => cases h
  | logFailure => cases h
  | logDecision => cases h
  | recordExecution => cases h

omit [Timestamp T] in
theorem forall_executionCalls_iff (history : List (T × ServiceCall T)) :
    (∀ call ∈ executionCalls history, logsCompleted call = false)
      ↔ ∀ call ∈ history, logsCompleted call.2 = false := by
  constructor
  · intro h call hmem
    by_contra hcompleted
    have htype := type_of_logsCompleted (Bool.not_eq_false _ ▸ hcompleted)
    exact hcompleted (h call.2
      (List.mem_filter.2 ⟨List.mem_map_of_mem hmem, decide_eq_true htype⟩))
  · intro h call hmem
    obtain ⟨entry, hentry, rfl⟩ := List.mem_map.1 (List.mem_filter.1 hmem).1
    exact h entry hentry

/-- **The three readers have the same rate exactly if no record was written by `log_execution` with the
status of a completed report.** -/
theorem ratesAgree_iff {history : List (T × ServiceCall T)} {streams : Streams}
    (h : performAll history (fun _ => []) = some streams) (hne : streams .execution ≠ []) (now : T) :
    RatesAgree now streams ↔ ∀ call ∈ history, logsCompleted call.2 = false := by
  obtain ⟨written, hwrote, hstream⟩ := wrote_of_performAll h
  rw [List.nil_append] at hstream
  have hcalls : executionCalls history ≠ [] := by
    intro hnil
    rw [hnil, List.forall₂_nil_left_iff] at hwrote
    rw [hwrote] at hstream
    exact hne hstream
  rw [RatesAgree, evaluatedRate_eq hwrote hcalls hstream, recordedRate_eq hwrote hstream,
    storedRate_eq hwrote hstream, Option.some.injEq, fraction_eq_iff_of_imp hcalls
      fun _ _ => countsSuccess_imp]
  simp only [and_true, countsSuccess_eq_iff]
  exact forall_executionCalls_iff history

/-- A status of the agent loop, and one that no reader knows. -/
def partialHistory : List (Instant × ServiceCall Instant) :=
  [(.mk, .logExecution "success" 1 1 0 0 none), (.mk, .logExecution "partial" 2 1 1 0 none)]

theorem length_partialHistory : (performAll partialHistory fun _ => []).map
    (fun streams => (streams .execution).length) = some 2 := by
  decide +kernel

theorem ratesAgree_partial : ∃ streams, performAll partialHistory (fun _ => []) = some streams
    ∧ (RatesAgree Instant.mk streams
      ↔ ∀ call ∈ partialHistory, logsCompleted call.2 = false) := by
  obtain ⟨streams, hstreams, hlength⟩ := Option.map_eq_some_iff.1 length_partialHistory
  exact ⟨streams, hstreams, ratesAgree_iff hstreams
    (List.ne_nil_of_length_pos (hlength ▸ Nat.zero_lt_two)) .mk⟩

/-- What `_reflect` of the orchestration logs for a plan whose only task is completed. -/
def completedHistory : List (Instant × ServiceCall Instant) :=
  [(.mk, .logExecution "completed" 1 1 0 0 none)]

theorem completedHistory_rates : (performAll completedHistory fun _ => []).map (fun streams =>
    ((streams .execution).length, evaluatedRate Instant.mk streams, storedRate streams))
      = some (1, some 0, 1) := by
  decide +kernel

/-- The record of a completed report is no success for the evaluator. -/
theorem completed_rates_differ : ∃ streams,
    performAll completedHistory (fun _ => []) = some streams ∧ streams .execution ≠ []
      ∧ ¬ RatesAgree Instant.mk streams := by
  obtain ⟨streams, hstreams, hrates⟩ := Option.map_eq_some_iff.1 completedHistory_rates
  obtain ⟨hlength, hrest⟩ := Prod.mk.inj hrates
  obtain ⟨hevaluated, hstored⟩ := Prod.mk.inj hrest
  refine ⟨streams, hstreams, List.ne_nil_of_length_pos (hlength ▸ Nat.one_pos), fun hagree => ?_⟩
  rw [RatesAgree, hevaluated, hstored] at hagree
  exact zero_ne_one (Option.some.inj hagree.1)

end PersonalDevin.SelfImprovement
