import PersonalDevin.Lib.Dict
import PersonalDevin.Memory.Store

/-!
# The memory service

`MemoryRepository` and `MemoryService` on one store. A call of the service reads the stream of its type
for the next id and appends its record, and each of the two is one step under the lock of the store, so
a client can be between them while others take theirs. `store_improvements` is a sequence of
`log_decision` calls.
-/

namespace PersonalDevin.Memory

open Lib

variable {T C : Type} [Timestamp T]

/-- `MemoryRepository.get_all`, or nothing where it raises. -/
def getAll (now : T) (streams : Streams) (type : MemoryType) : Option (List (MemoryRecord T)) :=
  (streams type).mapM fun payload => fromDict now payload.fields

theorem length_getAll {now : T} {streams : Streams} {type : MemoryType}
    {records : List (MemoryRecord T)} (h : getAll now streams type = some records) :
    records.length = (streams type).length :=
  (mapM_eq_some_iff.1 h).length_eq.symm

def findIn (now : T) (streams : Streams) (id : RecordId) :
    List MemoryType → Option (Option (MemoryRecord T))
  | [] => some none
  | type :: rest =>
      match getAll now streams type with
      | none => none
      | some records =>
          match records.find? (·.id = id) with
          | some record => some (some record)
          | none => findIn now streams id rest

/-- `MemoryRepository.get_by_id`, or nothing where it raises. -/
def getById (now : T) (streams : Streams) (id : RecordId) : Option (Option (MemoryRecord T)) :=
  findIn now streams id MemoryType.all

/-- The id of `_next_id`, for a stream with so many records. -/
def nextId (type : MemoryType) (existing : ℕ) : RecordId :=
  ⟨type.text ++ "-" ++ zeroPad 6 (existing + 1), fun h => by
    have htext := congrArg String.toList h
    cases type <;> simp [MemoryType.text, String.toList_append] at htext⟩

theorem nextId_injective {type type' : MemoryType} {n n' : ℕ} (h : nextId type n = nextId type' n') :
    type = type' ∧ n = n' := by
  have htext := congrArg (fun id : RecordId => id.val.toList) h
  simp only [nextId, String.toList_append] at htext
  have htype : type = type' := by
    cases type <;> cases type' <;> first | rfl | exact absurd htext (by simp [MemoryType.text])
  subst htype
  have hpad := String.toList_inj.1 (List.append_cancel_left htext)
  exact ⟨rfl, Nat.succ.inj (zeroPad_injective 6 hpad)⟩

/-! ### Calls -/

/-- The arguments of `record_execution`; the timestamp is the given or the current one. -/
structure ExecutionArgs (T : Type) where
  taskId : String
  input : Option Fields
  plan : Option Fields
  result : Option Fields
  success : Bool
  errors : Option (List Value)
  metadata : Option Fields
  timestamp : T

inductive ServiceCall (T : Type) where
  | logExecution (status : String) (totalTasks completedTasks failedTasks skippedTasks : ℤ)
      (metadata : Option Fields)
  | logTask (taskId status : String) (output error skipReason : Option String)
  | logFailure (source error : String) (context : Option Fields)
  | logDecision (decision reason : String) (context : Option Fields)
  | recordExecution (args : ExecutionArgs T)

namespace ExecutionArgs

/-- `MemorySerializer.execution_record_to_dict` of the `ExecutionRecord`. -/
def recordFields (args : ExecutionArgs T) (errors : List Value) : Fields :=
  [("task_id", .str args.taskId), ("input", .dict (args.input.getD [])),
    ("plan", .dict (args.plan.getD [])), ("result", .dict (args.result.getD [])),
    ("success", .bool args.success), ("errors", .list errors),
    ("timestamp", .str (Timestamp.isoformat args.timestamp)),
    ("metadata", .dict (args.metadata.getD []))]

/-- `int(result.get(key, 0))`. -/
def count (args : ExecutionArgs T) (key : String) : Option ℤ :=
  (((args.result.getD []).get? key).getD (.int 0)).pyInt

/-- The data of the record, or nothing where `record_execution` raises before it reads the store. -/
def data (args : ExecutionArgs T) : Option Fields := do
  let taskId ← recordId (some (.str args.taskId))
  let errors := (args.errors.getD []).map fun error => Value.str error.pyStr
  let totalTasks ← args.count "total_tasks"
  let failedTasks ← args.count "failed_tasks"
  let skippedTasks ← args.count "skipped_tasks"
  let completedTasks ← args.count "completed_tasks"
  let metadata := upsert "plan" (.dict (args.plan.getD [])) (upsert "input"
    (.dict (args.input.getD [])) (upsert "task_id" (.str taskId) (args.metadata.getD [])))
  return [("status", .str (if args.success then "success" else "failure")),
    ("total_tasks", .int totalTasks), ("completed_tasks", .int completedTasks),
    ("failed_tasks", .int failedTasks), ("skipped_tasks", .int skippedTasks),
    ("errors", .list errors), ("metadata", .dict metadata),
    ("execution_record", .dict (args.recordFields errors))]

end ExecutionArgs

def optionalStr : Option String → Value
  | some s => .str s
  | none => .none

namespace ServiceCall

def type : ServiceCall T → MemoryType
  | logExecution _ _ _ _ _ _ => .execution
  | logTask _ _ _ _ _ => .task
  | logFailure _ _ _ => .failure
  | logDecision _ _ _ => .decision
  | recordExecution _ => .execution

/-- The data of the record, or nothing where the call raises before it reads the store. -/
def data : ServiceCall T → Option Fields
  | logExecution status totalTasks completedTasks failedTasks skippedTasks metadata =>
      some [("status", .str status), ("total_tasks", .int totalTasks),
        ("completed_tasks", .int completedTasks), ("failed_tasks", .int failedTasks),
        ("skipped_tasks", .int skippedTasks), ("metadata", .dict (metadata.getD []))]
  | logTask taskId status output error skipReason =>
      some [("task_id", .str taskId), ("status", .str status), ("output", optionalStr output),
        ("error", optionalStr error), ("skip_reason", optionalStr skipReason)]
  | logFailure source error context =>
      some [("source", .str source), ("error", .str error), ("context", .dict (context.getD []))]
  | logDecision decision reason context =>
      some [("decision", .str decision), ("reason", .str reason),
        ("context", .dict (context.getD []))]
  | recordExecution args => args.data

/-- The timestamp of the record, where it is not the time at which the record is made. -/
def timestamp : ServiceCall T → Option T
  | recordExecution args => some args.timestamp
  | _ => none

end ServiceCall

/-! ### Clients -/

/-- A call between the read for its id and the append of its record. -/
structure PendingRecord (T : Type) where
  type : MemoryType
  id : RecordId
  data : Fields
  timestamp : Option T

def PendingRecord.record (pending : PendingRecord T) (now : T) : MemoryRecord T where
  id := pending.id
  timestamp := pending.timestamp.getD now
  type := pending.type
  data := pending.data

def ServiceCall.pending (call : ServiceCall T) (existing : ℕ) (data : Fields) : PendingRecord T where
  type := call.type
  id := nextId call.type existing
  data := data
  timestamp := call.timestamp

/-- The store, the clients and the records whose call returned. -/
structure System (C T : Type) where
  streams : Streams
  pending : C → Option (PendingRecord T)
  saved : List (MemoryRecord T)

inductive ServiceAction (C T : Type) where
  /-- A client makes a call, which computes its data and reads the stream for the next id. -/
  | read (client : C) (call : ServiceCall T) (now : T)
  /-- The call of a client appends its record and returns, or raises. -/
  | append (client : C) (now : T)

namespace System

def start : System C T where
  streams := fun _ => []
  pending := fun _ => none
  saved := []

variable [DecidableEq C]

def serviceStep (s : System C T) : ServiceAction C T → System C T
  | .read client call now =>
      match s.pending client, call.data, getAll now s.streams call.type with
      | none, some data, some existing =>
          { s with
            pending := Function.update s.pending client (some (call.pending existing.length data)) }
      | _, _, _ => s
  | .append client now =>
      match s.pending client with
      | none => s
      | some pending =>
          match s.streams.append pending.type (pending.record now).toDict with
          | none => { s with pending := Function.update s.pending client none }
          | some streams =>
              { streams
                pending := Function.update s.pending client none
                saved := s.saved ++ [pending.record now] }

omit [DecidableEq C] in
def takes (s : System C T) (client : C) (call : ServiceCall T) (now : T) : Bool :=
  (s.pending client).isNone && call.data.isSome && (getAll now s.streams call.type).isSome

/-- **What a step of the service can do.** -/
inductive ServiceStep (s : System C T) : ServiceAction C T → System C T → Prop
  | refused {client : C} {call : ServiceCall T} {now : T} (h : s.takes client call now = false) :
      ServiceStep s (.read client call now) s
  | idle {client : C} {now : T} (hfree : s.pending client = none) :
      ServiceStep s (.append client now) s
  | taken {client : C} {call : ServiceCall T} {now : T} {data : Fields}
      {existing : List (MemoryRecord T)} (hfree : s.pending client = none)
      (hdata : call.data = some data) (hread : getAll now s.streams call.type = some existing) :
      ServiceStep s (.read client call now)
        { s with
          pending := Function.update s.pending client (some (call.pending existing.length data)) }
  | raised {client : C} {now : T} {pending : PendingRecord T}
      (hpending : s.pending client = some pending)
      (hstored : StoredPayload.ofFields (pending.record now).toDict = none) :
      ServiceStep s (.append client now) { s with pending := Function.update s.pending client none }
  | saved {client : C} {now : T} {pending : PendingRecord T} {payload : StoredPayload}
      (hpending : s.pending client = some pending)
      (hstored : StoredPayload.ofFields (pending.record now).toDict = some payload) :
      ServiceStep s (.append client now)
        { streams := Function.update s.streams pending.type (s.streams pending.type ++ [payload])
          pending := Function.update s.pending client none
          saved := s.saved ++ [pending.record now] }

theorem serviceStep_cases (s : System C T) (action : ServiceAction C T) :
    ServiceStep s action (s.serviceStep action) := by
  cases action with
  | read client call now =>
      rcases hfree : s.pending client with _ | pending
      · rcases hdata : call.data with _ | data
        · simp only [serviceStep, hfree, hdata]
          exact .refused (by simp [takes, hdata])
        · rcases hread : getAll now s.streams call.type with _ | existing
          · simp only [serviceStep, hfree, hdata, hread]
            exact .refused (by simp [takes, hread])
          · simp only [serviceStep, hfree, hdata, hread]
            exact .taken hfree hdata hread
      · simp only [serviceStep, hfree]
        exact .refused (by simp [takes, hfree])
  | append client now =>
      rcases hpending : s.pending client with _ | pending
      · simp only [serviceStep, hpending]
        exact .idle hpending
      · rcases hstored : StoredPayload.ofFields (pending.record now).toDict with _ | payload
        · simp only [serviceStep, hpending, Streams.append_eq, hstored, Option.map_none]
          exact .raised hpending hstored
        · simp only [serviceStep, hpending, Streams.append_eq, hstored, Option.map_some]
          exact .saved hpending hstored

end System

end PersonalDevin.Memory
