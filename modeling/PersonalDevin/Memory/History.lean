import PersonalDevin.Memory.Service
import Mathlib.Data.List.Sort
import Mathlib.Data.String.Basic

/-!
# Reading the execution stream

What the store and the service give back of the execution stream: the newest records, the successes, and
the `ExecutionRecord` that the service makes of a stored record. The order of the timestamps is that of
the instants, where a timestamp without an offset counts as one of UTC.
-/

namespace PersonalDevin.Memory

section Newest

variable {T : Type} [LE T] [DecidableLE T] {α : Type}

/-- The order of the pairs of a timestamp and an id. -/
def keyLe (a b : T × String) : Bool := if b.1 ≤ a.1 then a.1 ≤ b.1 && a.2 ≤ b.2 else a.1 ≤ b.1

/-- `sorted(records, key=key, reverse=True)`. -/
def newestFirst (key : α → T × String) (records : List α) : List α :=
  records.insertionSort fun a b => keyLe (key b) (key a)

theorem length_newestFirst (key : α → T × String) (records : List α) :
    (newestFirst key records).length = records.length :=
  List.length_insertionSort _ _

end Newest

/-! ### The store -/

namespace MemoryStore

variable {T : Type} [Timestamp T]

/-- `_parse_timestamp` of what a stream holds. -/
def parseTimestamp : Option Value → T
  | some (.str text) => (Timestamp.fromisoformat text).getD Timestamp.min
  | _ => Timestamp.min

def executionSortKey (payload : Fields) : T × String :=
  (parseTimestamp (payload.get? "timestamp"), textField payload "id" "")

def getRecent (T : Type) [Timestamp T] [LE T] [DecidableLE T] (streams : Streams) (limit : ℤ) :
    List Fields :=
  (newestFirst (executionSortKey (T := T)) ((streams .execution).map StoredPayload.fields)).take
    limit.toNat

/-- What a status text says. -/
def statusSuccess (status : String) : Option Bool :=
  if lower status ∈ ["success", "completed"] then some true
  else if lower status ∈ ["failure", "failed", "error"] then some false
  else none

def isSuccess (payload : Fields) : Bool :=
  match payload.get? "success" with
  | some (.bool success) => success
  | _ =>
      match statusSuccess (textField payload "status" "") with
      | some success => success
      | none =>
          match payload.get? "data" with
          | some (.dict data) =>
              match statusSuccess (textField data "status" "") with
              | some success => success
              | none =>
                  match Fields.get? data "execution_record" with
                  | some (.dict record) =>
                      match Fields.get? record "success" with
                      | some (.bool success) => success
                      | _ => false
                  | _ => false
          | _ => false

def getSuccesses (streams : Streams) : List Fields :=
  ((streams .execution).map StoredPayload.fields).filter isSuccess

end MemoryStore

/-! ### The service -/

structure ExecutionRecord (T : Type) where
  taskId : RecordId
  input : Fields
  plan : Fields
  result : Fields
  success : Bool
  errors : List String
  timestamp : T
  metadata : Fields

variable {T : Type} [Timestamp T]

/-- `MemorySerializer.execution_record_from_dict`, or nothing where it raises. -/
def ExecutionRecord.fromDict (now : T) (payload : Fields) : Option (ExecutionRecord T) := do
  let timestamp ← recordTimestamp now (payload.get? "timestamp")
  let taskId ← recordId (payload.get? "task_id")
  let input ← dictOrEmpty (payload.get? "input")
  let plan ← dictOrEmpty (payload.get? "plan")
  let result ← dictOrEmpty (payload.get? "result")
  let success ← boolOrFalse (payload.get? "success")
  let errors ← strListOrEmpty (payload.get? "errors")
  let metadata ← dictOrEmpty (payload.get? "metadata")
  return { taskId, input, plan, result, success, errors, timestamp, metadata }

theorem jsonItems_texts (errors : List Value) :
    Value.jsonItems (errors.map fun error => .str error.pyStr)
      = some (errors.map fun error => .str error.pyStr) := by
  induction errors with
  | nil => rfl
  | cons error rest ih => simp [Value.jsonItems, Value.jsonRoundTrip, ih]

theorem mapM_strItem_texts (errors : List Value) :
    (errors.map fun error => Value.str error.pyStr).mapM strItem = some (errors.map Value.pyStr) := by
  induction errors with
  | nil => rfl
  | cons error rest ih => simp [strItem, ih]

/-- The dictionary of an `ExecutionRecord` is one again after it has passed through JSON. -/
theorem fromDict_recordFields {args : ExecutionArgs T} {taskId : RecordId}
    (htask : recordId (some (.str args.taskId)) = some taskId) {errors : List Value}
    {entries : Fields}
    (h : Value.jsonEntries (args.recordFields (errors.map fun error => .str error.pyStr))
      = some entries) (now : T) :
    ∃ record, ExecutionRecord.fromDict now entries = some record
      ∧ record.success = args.success := by
  simp only [ExecutionArgs.recordFields, Value.jsonRoundTrip, Value.jsonEntries, jsonItems_texts,
    Option.bind_eq_bind, Option.bind_eq_some_iff, Option.pure_def, Option.some.injEq,
    Option.map_eq_some_iff] at h
  obtain ⟨_, rfl, _, ⟨_, ⟨input, _, rfl⟩, _, ⟨_, ⟨plan, _, rfl⟩, _, ⟨_, ⟨result, _, rfl⟩, _,
    ⟨_, rfl, _, ⟨_, ⟨_, rfl, rfl⟩, _, ⟨_, rfl, _, ⟨_, ⟨metadata, _, rfl⟩, _, rfl, rfl⟩, rfl⟩, rfl⟩,
    rfl⟩, rfl⟩, rfl⟩, rfl⟩, rfl⟩ := h
  simp [-List.mapM_map, ExecutionRecord.fromDict, Fields.get?, List.lookup_cons, recordTimestamp,
    Timestamp.fromisoformat_isoformat, htask, dictOrEmpty, boolOrFalse, boolItem, strListOrEmpty,
    strList, mapM_strItem_texts]

/-- `d.get(key, {})`, or an empty dictionary where that is none. -/
def dictField (fields : Fields) (key : String) : Fields :=
  match fields.get? key with
  | some (.dict entries) => entries
  | _ => []

/-- `int(d.get(key, 0))`, or nothing where it raises. -/
def intField (fields : Fields) (key : String) : Option ℤ := ((fields.get? key).getD (.int 0)).pyInt

/-- The errors of a record without an `execution_record`. -/
def legacyErrors (data : Fields) : List String :=
  let errors := match data.get? "errors" with
    | some (.list items) => (items.filter Value.truthy).map Value.pyStr
    | _ => []
  if errors ≠ [] then errors
  else
    match data.get? "error" with
    | some value => if value.truthy then [value.pyStr] else []
    | none => []

/-- `_execution_memory_to_record`, or nothing where it raises. -/
def executionMemoryToRecord (now : T) (memory : MemoryRecord T) : Option (ExecutionRecord T) :=
  match memory.data.get? "execution_record" with
  | some (.dict record) => ExecutionRecord.fromDict now record
  | _ => do
      let metadata := dictField memory.data "metadata"
      let status := lower (textField memory.data "status" "")
      let totalTasks ← intField memory.data "total_tasks"
      let completedTasks ← intField memory.data "completed_tasks"
      let failedTasks ← intField memory.data "failed_tasks"
      let skippedTasks ← intField memory.data "skipped_tasks"
      let taskId ← match metadata.get? "task_id" with
        | some value => if value.truthy then recordId (some (.str value.pyStr)) else some memory.id
        | none => some memory.id
      return {
        taskId
        input := dictField metadata "input"
        plan := dictField metadata "plan"
        result := [("status", .str status), ("total_tasks", .int totalTasks),
          ("completed_tasks", .int completedTasks), ("failed_tasks", .int failedTasks),
          ("skipped_tasks", .int skippedTasks)]
        success := status ∈ ["success", "completed"]
        errors := legacyErrors memory.data
        timestamp := memory.timestamp
        metadata }

/-- `get_recent_history`, or nothing where it raises. -/
def getRecentHistory [LE T] [DecidableLE T] (now : T) (streams : Streams) (limit : ℤ) :
    Option (List (ExecutionRecord T)) := do
  let records ← getAll now streams .execution
  ((newestFirst (fun record => (record.timestamp, record.id.val)) records).take limit.toNat).mapM
    (executionMemoryToRecord now)

theorem length_getRecentHistory [LE T] [DecidableLE T] {now : T} {streams : Streams} {limit : ℤ}
    {history : List (ExecutionRecord T)} (h : getRecentHistory now streams limit = some history) :
    history.length = min limit.toNat (streams .execution).length := by
  simp only [getRecentHistory, Option.bind_eq_bind, Option.bind_eq_some_iff] at h
  obtain ⟨records, hrecords, hhistory⟩ := h
  rw [← (Lib.mapM_eq_some_iff.1 hhistory).length_eq, List.length_take, length_newestFirst,
    length_getAll hrecords]

end PersonalDevin.Memory
