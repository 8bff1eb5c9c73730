import PersonalDevin.Memory.Newest
import PersonalDevin.Memory.RoundTrip
import PersonalDevin.Orchestration.Stages
import PersonalDevin.Orchestration.Report
import PersonalDevin.SelfImprovement.Reports

/-!
# The controller with its own collaborators

`OrchestrationController()`: the planner, the runner, the memory service and the self-improvement loop
that it takes unless it is given others. Every record that it writes is one that the memory service can
write, so the memory that it keeps stays readable.
-/

namespace PersonalDevin.Orchestration

open Lib
open Execution (ExecutionReport ExecutionTask TaskHandler runAnswering)
open Memory (MemoryRecord ServiceCall StoredPayload Streams Timestamp Zoned perform)
open Memory.MemoryService (SameZone readsNewest_iff stamp)
open Planning (ExecutionPlan PlanError)
open SelfImprovement (Counted SelfImprovementLoop)
open SelfImprovement.Patterns (SelfImprovementAdaptation)

/-- The streams of the store, and how often the service has read its clock. -/
structure ServedMemory where
  streams : Streams
  readings : ℕ

/-- What the code leaves open: the clock, which gives times in UTC, what is a parameter of the
self-improvement loop, the shortest decimal of a float, and the texts of what the planner raises and what
the memory raises. -/
structure Setting (T : Type) [Zoned T] where
  clock : ℕ → T
  aware : ∀ n, Zoned.aware (clock n) = true
  py : SelfImprovement.Patterns.Interpreter
  std : SelfImprovement.Analyzer.Interpreter T
  decimal : Binary64 → ℤ × ℤ
  planFailure : PlanError → String
  memoryFailure : Raised

abbrev Handlers := ℕ → Dict String TaskHandler

namespace Setting

variable {T : Type} [Timestamp T] [Zoned T] (setting : Setting T)

/-! ### The collaborators -/

/-- A call of the memory service that writes, with the id of its record. -/
def write (call : ServiceCall T) : EStateM Raised ServedMemory Value := fun memory =>
  match perform (setting.clock memory.readings) call memory.streams with
  | some (record, streams) => .ok (.str record.id) ⟨streams, memory.readings + 1⟩
  | none => .error setting.memoryFailure ⟨memory.streams, memory.readings + 1⟩

/-- What is read of the memory, or the exception of the read. -/
def read {α : Type} (value : ServedMemory → Option α) : EStateM Raised ServedMemory α := fun memory =>
  match value memory with
  | some a => .ok a memory
  | none => .error setting.memoryFailure memory

/-- The fields of an adaptation, as `store_improvements` collects them. -/
def adaptationFields (a : SelfImprovementAdaptation) : Fields :=
  [("adaptation_id", .str a.adaptationId), ("source_pattern_id", .str a.sourcePatternId),
    ("description", .str a.description), ("expected_effect", .str a.expectedEffect),
    ("action_type", .str a.actionType.text), ("target", .str a.target), ("value", a.value),
    ("confidence_score",
      .float (setting.decimal a.confidenceScore).1 (setting.decimal a.confidenceScore).2)]

def adaptationCall (a : SelfImprovementAdaptation) : ServiceCall T :=
  (Memory.ApprovedAction.fields (setting.adaptationFields a)).call

/-- `MemoryService()`. -/
def memoryService : MemoryService ServedMemory T (List SelfImprovementAdaptation) where
  write call := Except.ok <$> setting.write call
  getRecent limit := setting.read fun memory => do
    let newest ← Memory.MemoryService.getRecent (setting.clock memory.readings) memory.streams limit
    return .ok newest.length
  storeImprovements approved := do
    let ids ← approved.mapM fun a => setting.write (setting.adaptationCall a)
    return ⟨ids, none⟩

/-- `OrchestrationController()`. -/
def controller : OrchestrationController ServedMemory T ExecutionPlan Handlers ExecutionReport
    (List SelfImprovementAdaptation) where
  planningEngine tasks := fun memory =>
    match Planning.buildExecutionPlan (tasks.map Value.dict) with
    | .ok plan => .ok (some plan) memory
    | .error error => .error (.other (setting.planFailure error)) memory
  executionEngine plan handlers stopOnFailure := fun memory =>
    .ok (some (runAnswering stopOnFailure handlers plan).report) memory
  reports := .own
  memoryService := setting.memoryService
  selfImprovementRunner := setting.read fun memory => do
    let result ← SelfImprovementLoop.default.run setting.py setting.std
      (setting.clock memory.readings) (setting.clock memory.readings) memory.streams
    return some ⟨.ok result.adaptationsApproved⟩
  stopOnFailure := true
  reflectionLimit := 25

/-- The call of `log_execution` for a report of the runner. -/
def executionCall (request : OrchestrationRequest Handlers) (report : ExecutionReport) :
    ServiceCall T :=
  .logExecution report.status.text report.totalTasks report.completedTasks report.failedTasks
    report.skippedTasks (some [("run_id", .str request.runId), ("goal", .str request.goal),
      ("trace_id", .str (traceIdOf request))])

/-- `build_execution_plan` of the tasks of a request. -/
def requestedPlan (request : OrchestrationRequest Handlers) : Except PlanError ExecutionPlan :=
  Planning.buildExecutionPlan ((defaultTasks request).map Value.dict)

section Calls

variable {setting} {request : OrchestrationRequest Handlers}

theorem planningEngine_of_ok {plan : ExecutionPlan} (h : requestedPlan request = .ok plan)
    (memory : ServedMemory) :
    setting.controller.planningEngine (defaultTasks request) memory = .ok (some plan) memory := by
  show (match requestedPlan request with
    | .ok plan => EStateM.Result.ok (some plan) memory
    | .error error => .error (Raised.other (setting.planFailure error)) memory) = _
  rw [h]

theorem planningEngine_of_error {error : PlanError} (h : requestedPlan request = .error error)
    (memory : ServedMemory) :
    setting.controller.planningEngine (defaultTasks request) memory
      = .error (.other (setting.planFailure error)) memory := by
  show (match requestedPlan request with
    | .ok plan => EStateM.Result.ok (some plan) memory
    | .error error => .error (Raised.other (setting.planFailure error)) memory) = _
  rw [h]

end Calls

/-! ### The memory that the controller writes -/

/-- A memory that calls have written, each at a time with a time zone. -/
structure Kept (history : List (T × ServiceCall T)) (memory : ServedMemory) : Prop where
  written : SelfImprovement.performAll history (fun _ => []) = some memory.streams
  counted : ∀ call ∈ history, Counted call.2
  aware : ∀ call ∈ history, Zoned.aware (stamp call) = true

/-- A call whose record takes the current time and can be written. -/
structure Loggable (call : ServiceCall T) : Prop where
  writable : ∃ data, call.data = some data ∧ ∀ entry ∈ data, entry.2.jsonRoundTrip.isSome = true
  timestamp : call.timestamp = none
  counted : Counted call

omit [Timestamp T] [Zoned T] in
theorem isSome_dict {entries : Fields}
    (h : entries.Forall fun entry => entry.2.jsonRoundTrip.isSome = true) :
    (Value.dict entries).jsonRoundTrip.isSome = true := by
  rw [Value.jsonRoundTrip, Option.isSome_map]
  exact Value.isSome_jsonEntries.2 (List.forall_iff_forall_mem.1 h)

omit [Zoned T] in
theorem exists_perform {history : List (T × ServiceCall T)} {streams : Streams}
    (hwritten : SelfImprovement.performAll history (fun _ => []) = some streams) {call : ServiceCall T}
    (hcall : Loggable call) (now : T) :
    ∃ record streams', perform now call streams = some (record, streams') := by
  -- The new id counts the records of the stream, so the stream has to be read first.
  obtain ⟨data, hdata, hvalues⟩ := hcall.writable
  obtain ⟨written, hstreams⟩ := SelfImprovement.exists_writtenBy hwritten
  have hread := SelfImprovement.getAll_of_wrote (hstreams.stream call.type) now
  let record := (call.pending (written call.type).length data).record now
  have hrecord : record.toDict.Forall fun entry => entry.2.jsonRoundTrip.isSome = true :=
    ⟨rfl, rfl, rfl, isSome_dict (List.forall_iff_forall_mem.2 hvalues)⟩
  obtain ⟨payload, hpayload⟩ := Option.isSome_iff_exists.1
    (StoredPayload.isSome_ofFields.2 (List.forall_iff_forall_mem.1 hrecord))
  refine ⟨record, streams.push call.type payload, ?_⟩
  simp only [perform, hdata, hread, Option.bind_eq_bind, Option.bind_some, Streams.append_eq,
    List.length_map]
  rw [show StoredPayload.ofFields ((call.pending (written call.type).length data).record now).toDict
    = some payload from hpayload]
  rfl

/-- The calls are written at the end of a kept memory. -/
structure Wrote (history : List (T × ServiceCall T)) (calls : List (ServiceCall T))
    (history' : List (T × ServiceCall T)) (memory' : ServedMemory) : Prop where
  kept : Kept history' memory'
  appended : ∃ new, history' = history ++ new ∧ new.map Prod.snd = calls

/-- The calls are written, and the controller lists an id for each. -/
structure Recorded (history : List (T × ServiceCall T)) (calls : List (ServiceCall T))
    (history' : List (T × ServiceCall T)) (s s' : Shared ServedMemory) : Prop where
  wrote : Wrote history calls history' s'.world
  ids : s'.memoryRecordIds.length = s.memoryRecordIds.length + calls.length

section Written

variable {setting} {history middle history' : List (T × ServiceCall T)}
  {calls calls' : List (ServiceCall T)} {memory memory' : ServedMemory}
  {s s' s'' : Shared ServedMemory} {α : Type}

theorem Kept.wrote (h : Kept history memory) : Wrote history [] history memory :=
  ⟨h, [], (List.append_nil _).symm, rfl⟩

theorem Wrote.trans (h : Wrote history calls middle memory)
    (h' : Wrote middle calls' history' memory') : Wrote history (calls ++ calls') history' memory' := by
  obtain ⟨new, rfl, rfl⟩ := h.appended
  obtain ⟨new', rfl, rfl⟩ := h'.appended
  exact ⟨h'.kept, new ++ new', List.append_assoc _ _ _, List.map_append⟩

theorem Wrote.length_eq (h : Wrote history calls history' memory) :
    history'.length = history.length + calls.length := by
  obtain ⟨new, rfl, rfl⟩ := h.appended
  rw [List.length_append, List.length_map]

theorem Recorded.trans (h : Recorded history calls middle s s')
    (h' : Recorded middle calls' history' s' s'') :
    Recorded history (calls ++ calls') history' s s'' := by
  refine ⟨h.wrote.trans h'.wrote, ?_⟩
  rw [h'.ids, h.ids, List.length_append, Nat.add_assoc]

theorem Kept.concat (h : Kept history memory) {now : T} {call : ServiceCall T}
    {record : MemoryRecord T} {streams : Streams}
    (hperform : perform now call memory.streams = some (record, streams)) (hcounted : Counted call)
    (haware : Zoned.aware (stamp (now, call)) = true) (readings : ℕ) :
    Kept (history ++ [(now, call)]) ⟨streams, readings⟩ where
  written := by
    rw [SelfImprovement.performAll, List.foldlM_append]
    show (SelfImprovement.performAll history fun _ => []).bind _ = _
    rw [h.written, Option.bind_some]
    show ((perform now call memory.streams).map Prod.snd).bind _ = _
    rw [hperform]
    rfl
  counted := List.forall_mem_append.2 ⟨h.counted, List.forall_mem_singleton.2 hcounted⟩
  aware := List.forall_mem_append.2 ⟨h.aware, List.forall_mem_singleton.2 haware⟩

/-- A call that can be logged is written. -/
theorem exists_write (hkept : Kept history memory) {call : ServiceCall T} (hcall : Loggable call) :
    ∃ id memory' history', setting.write call memory = .ok id memory'
      ∧ Wrote history [call] history' memory' := by
  obtain ⟨record, streams, hperform⟩ :=
    exists_perform hkept.written hcall (setting.clock memory.readings)
  have haware : Zoned.aware (stamp (setting.clock memory.readings, call)) = true := by
    rw [stamp, hcall.timestamp]
    exact setting.aware _
  refine ⟨.str record.id, ⟨streams, memory.readings + 1⟩, _, ?_,
    hkept.concat hperform hcall.counted haware _, _, rfl, rfl⟩
  rw [write, hperform]

theorem exists_writeAll (f : α → ServiceCall T) (items : List α)
    (hcalls : ∀ item ∈ items, Loggable (f item)) (hkept : Kept history memory) :
    ∃ ids memory' history', items.mapM (fun item => setting.write (f item)) memory = .ok ids memory'
      ∧ ids.length = items.length ∧ Wrote history (items.map f) history' memory' := by
  induction items generalizing history memory with
  | nil => exact ⟨[], memory, history, rfl, rfl, hkept.wrote⟩
  | cons item rest ih =>
      obtain ⟨hitem, hrest⟩ := List.forall_mem_cons.1 hcalls
      obtain ⟨id, middle, history', hwrite, hwrote⟩ := exists_write hkept hitem
      obtain ⟨ids, memory', history'', hwrites, hlength, hwrotes⟩ := ih hrest hwrote.kept
      refine ⟨id :: ids, memory', history'', ?_, congrArg Nat.succ hlength, hwrote.trans hwrotes⟩
      rw [List.mapM_cons, bind_of_ok hwrite, bind_of_ok hwrites]
      rfl

theorem exists_remember (hkept : Kept history s.world) {call : ServiceCall T}
    (hcall : Loggable call) :
    ∃ id s' history', remember setting.memoryService call s = .ok id s'
      ∧ Recorded history [call] history' s s' := by
  obtain ⟨id, memory', history', hwrite, hwrote⟩ := exists_write hkept hcall
  have hcall : setting.memoryService.write call s.world = .ok (.ok id) memory' :=
    map_of_ok Except.ok hwrite
  refine ⟨id, ⟨memory', s.memoryRecordIds ++ [id]⟩, history', ?_, hwrote, List.length_append⟩
  rw [remember, bind_of_ok (onWorld_of_ok hcall)]
  rfl

theorem exists_rememberAll (f : α → ServiceCall T) (items : List α)
    (hcalls : ∀ item ∈ items, Loggable (f item)) (hkept : Kept history s.world) :
    ∃ s' history', (items.forM fun item => do
        let _ ← remember setting.memoryService (f item)) s = .ok () s'
      ∧ Recorded history (items.map f) history' s s' := by
  induction items generalizing history s with
  | nil => exact ⟨s, history, rfl, hkept.wrote, rfl⟩
  | cons item rest ih =>
      obtain ⟨hitem, hrest⟩ := List.forall_mem_cons.1 hcalls
      obtain ⟨id, middle, history', hfirst, hrecorded⟩ := exists_remember hkept hitem
      obtain ⟨s', history'', hothers, hrecordeds⟩ := ih hrest hrecorded.wrote.kept
      have hitem : (remember setting.memoryService (f item) >>= fun _ => pure PUnit.unit) s
          = .ok () middle := bind_of_ok hfirst
      exact ⟨s', history'', (bind_of_ok hitem).trans hothers, hrecorded.trans hrecordeds⟩

end Written

/-! ### The calls of a run -/

section Calls

omit [Zoned T]

variable (request : OrchestrationRequest Handlers)

theorem Loggable.of_data {call : ServiceCall T} {data : Fields} (hdata : call.data = some data)
    (hvalues : data.Forall fun entry => entry.2.jsonRoundTrip.isSome = true)
    (htimestamp : call.timestamp = none) (hcounted : Counted call) : Loggable call :=
  ⟨⟨data, hdata, List.forall_iff_forall_mem.1 hvalues⟩, htimestamp, hcounted⟩

omit [Timestamp T] in
theorem isSome_optionalStr (text : Option String) :
    (Memory.optionalStr text).jsonRoundTrip.isSome = true := by
  cases text <;> rfl

theorem loggable_execution {plan : ExecutionPlan} {report : ExecutionReport}
    (h : Execution.Consistent plan report) :
    Loggable (executionCall request report : ServiceCall T) := by
  have hsum := h.sum
  exact .of_data rfl ⟨rfl, rfl, rfl, rfl, rfl, rfl⟩ rfl ⟨Int.natCast_nonneg _, by omega⟩

theorem loggable_task (task : ExecutionTask) : Loggable (taskCall task : ServiceCall T) :=
  .of_data rfl
    ⟨rfl, rfl, isSome_optionalStr _, isSome_optionalStr _, isSome_optionalStr _⟩ rfl trivial

theorem loggable_failure (tasks : List ExecutionTask) :
    Loggable (failureCall request tasks : ServiceCall T) :=
  .of_data rfl ⟨rfl, rfl, rfl⟩ rfl trivial

theorem loggable_reflection (recentCount : ℕ) :
    Loggable (reflectionCall request recentCount : ServiceCall T) :=
  .of_data rfl ⟨rfl, rfl, rfl⟩ rfl trivial

end Calls

theorem loggable_adaptation {a : SelfImprovementAdaptation}
    (h : a.value.jsonRoundTrip.isSome = true) : Loggable (setting.adaptationCall a) := by
  have hfields : (Value.dict (setting.adaptationFields a)).jsonRoundTrip.isSome = true :=
    isSome_dict ⟨rfl, rfl, rfl, rfl, rfl, rfl, h, rfl⟩
  have hcontext : (Value.dict
      [("improvement", Value.dict (setting.adaptationFields a))]).jsonRoundTrip.isSome = true :=
    isSome_dict hfields
  exact .of_data rfl ⟨rfl, rfl, hcontext⟩ rfl trivial

end Setting

end PersonalDevin.Orchestration
