import PersonalDevin.Memory.History
import PersonalDevin.Memory.Identity
import PersonalDevin.Memory.Sequential

/-!
# What one service stores and reads back

Calls that one client makes one after another on an empty store. As long as their arguments hold JSON
values, each stream reads back as the records that the calls returned, in call order, under the ids from
one on. A call that raises stores nothing.
-/

namespace PersonalDevin.Memory

open Lib

variable {T : Type} [Timestamp T]

/-- An action that `store_improvements` is given: a data class or a dictionary, or something else, of
which only the text is kept. -/
inductive ApprovedAction where
  | fields (entries : Fields)
  | other (text : String)

def ApprovedAction.payload : ApprovedAction → Fields
  | .fields entries => entries
  | .other text => [("action", .str text)]

def ApprovedAction.call (action : ApprovedAction) : ServiceCall T :=
  .logDecision "improvement_action" "approved by self-improvement policy"
    (some [("improvement", .dict action.payload)])

/-- Each action with the time at which its record is made. -/
def storeImprovements : List (T × ApprovedAction) → Streams → Option (List (MemoryRecord T)) × Streams
  | [], streams => (some [], streams)
  | (now, action) :: rest, streams =>
      match perform now action.call streams with
      | none => (none, streams)
      | some (record, streams) =>
          let (saved, streams) := storeImprovements rest streams
          (saved.map (record :: ·), streams)

inductive MemoryCall (T : Type) where
  | service (now : T) (call : ServiceCall T)
  | storeImprovements (improvements : List (T × ApprovedAction))

/-- The records that a call returns, or nothing where it raises, and the streams after it. -/
def MemoryCall.run : MemoryCall T → Streams → Option (List (MemoryRecord T)) × Streams
  | service now call, streams =>
      match perform now call streams with
      | none => (none, streams)
      | some (record, streams) => (some [record], streams)
  | storeImprovements improvements, streams => Memory.storeImprovements improvements streams

/-- The streams, and the records that were returned so far. -/
structure MemoryLog (T : Type) where
  streams : Streams
  returned : List (MemoryRecord T)

namespace MemoryLog

def empty : MemoryLog T where
  streams := fun _ => []
  returned := []

def step (log : MemoryLog T) (call : MemoryCall T) : MemoryLog T :=
  let (saved, streams) := call.run log.streams
  { streams, returned := log.returned ++ saved.getD [] }

/-- The records of a type that calls returned, in call order. -/
def ofType (log : MemoryLog T) (type : MemoryType) : List (MemoryRecord T) :=
  log.returned.filter (·.type = type)

end MemoryLog

/-! ### Arguments of JSON values -/

/-- Every value of the dictionary comes through JSON unchanged. -/
def JsonNative (fields : Fields) : Prop := ∀ entry ∈ fields, entry.2.jsonRoundTrip = some entry.2

theorem JsonNative.entries {fields : Fields} (h : JsonNative fields) :
    Value.jsonEntries fields = some fields := by
  induction fields with
  | nil => rfl
  | cons entry rest ih =>
      obtain ⟨hentry, hrest⟩ := List.forall_mem_cons.1 h
      rw [Value.jsonEntries, hentry, ih hrest]
      rfl

theorem JsonNative.dict {fields : Fields} (h : JsonNative fields) :
    (Value.dict fields).jsonRoundTrip = some (.dict fields) := by
  rw [Value.jsonRoundTrip, h.entries]
  rfl

theorem jsonNative_upsert {key : String} {value : Value} {fields : Fields}
    (hvalue : value.jsonRoundTrip = some value) (h : JsonNative fields) :
    JsonNative (upsert key value fields) := by
  induction fields with
  | nil => exact List.forall_mem_singleton.2 hvalue
  | cons entry rest ih =>
      obtain ⟨hentry, hrest⟩ := List.forall_mem_cons.1 h
      rw [upsert]
      split
      · exact List.forall_mem_cons.2 ⟨hvalue, hrest⟩
      · exact List.forall_mem_cons.2 ⟨hentry, ih hrest⟩

def ServiceCall.JsonNative : ServiceCall T → Prop
  | logExecution _ _ _ _ _ metadata => Memory.JsonNative (metadata.getD [])
  | logTask _ _ _ _ _ => True
  | logFailure _ _ context => Memory.JsonNative (context.getD [])
  | logDecision _ _ context => Memory.JsonNative (context.getD [])
  | recordExecution args =>
      Memory.JsonNative (args.input.getD []) ∧ Memory.JsonNative (args.plan.getD [])
        ∧ Memory.JsonNative (args.result.getD []) ∧ Memory.JsonNative (args.metadata.getD [])

def MemoryCall.JsonNative : MemoryCall T → Prop
  | service _ call => call.JsonNative
  | storeImprovements improvements =>
      ∀ improvement ∈ improvements, Memory.JsonNative improvement.2.payload

theorem jsonNative_texts (errors : List Value) :
    (Value.list (errors.map fun error => .str error.pyStr)).jsonRoundTrip
      = some (.list (errors.map fun error => .str error.pyStr)) := by
  rw [Value.jsonRoundTrip, jsonItems_texts]
  rfl

theorem ServiceCall.jsonNative_data {call : ServiceCall T} (h : call.JsonNative) {data : Fields}
    (hdata : call.data = some data) : Memory.JsonNative data := by
  have hoptional : ∀ text, (optionalStr text).jsonRoundTrip = some (optionalStr text) := by
    intro text
    cases text <;> rfl
  cases call with
  | logExecution status totalTasks completedTasks failedTasks skippedTasks metadata =>
      obtain rfl := Option.some.inj hdata
      simp only [Memory.JsonNative, List.forall_mem_cons]
      exact ⟨rfl, rfl, rfl, rfl, rfl, JsonNative.dict h, fun _ h => absurd h List.not_mem_nil⟩
  | logTask taskId status output error skipReason =>
      obtain rfl := Option.some.inj hdata
      simp only [Memory.JsonNative, List.forall_mem_cons]
      exact ⟨rfl, rfl, hoptional _, hoptional _, hoptional _, fun _ h => absurd h List.not_mem_nil⟩
  | logFailure source error context =>
      obtain rfl := Option.some.inj hdata
      simp only [Memory.JsonNative, List.forall_mem_cons]
      exact ⟨rfl, rfl, JsonNative.dict h, fun _ h => absurd h List.not_mem_nil⟩
  | logDecision decision reason context =>
      obtain rfl := Option.some.inj hdata
      simp only [Memory.JsonNative, List.forall_mem_cons]
      exact ⟨rfl, rfl, JsonNative.dict h, fun _ h => absurd h List.not_mem_nil⟩
  | recordExecution args =>
      obtain ⟨hinput, hplan, hresult, hmetadata⟩ := h
      simp only [ServiceCall.data, ExecutionArgs.data, Option.bind_eq_bind, Option.bind_eq_some_iff,
        Option.pure_def, Option.some.injEq] at hdata
      obtain ⟨taskId, _, _, _, _, _, _, _, _, _, rfl⟩ := hdata
      have hrecord : Memory.JsonNative
          (args.recordFields ((args.errors.getD []).map fun error => .str error.pyStr)) := by
        simp only [Memory.JsonNative, ExecutionArgs.recordFields, List.forall_mem_cons]
        exact ⟨rfl, hinput.dict, hplan.dict, hresult.dict, rfl, jsonNative_texts _, rfl,
          hmetadata.dict, fun _ h => absurd h List.not_mem_nil⟩
      have hnamed : Memory.JsonNative (upsert "task_id" (.str taskId.val) (args.metadata.getD [])) :=
        jsonNative_upsert rfl hmetadata
      have hfull : Memory.JsonNative (upsert "plan" (.dict (args.plan.getD [])) (upsert "input"
          (.dict (args.input.getD [])) (upsert "task_id" (.str taskId.val)
            (args.metadata.getD [])))) :=
        jsonNative_upsert hplan.dict (jsonNative_upsert hinput.dict hnamed)
      simp only [Memory.JsonNative, List.forall_mem_cons]
      exact ⟨rfl, rfl, rfl, rfl, rfl, jsonNative_texts _, hfull.dict, hrecord.dict,
        fun _ h => absurd h List.not_mem_nil⟩

/-! ### The streams hold what was returned -/

def ReadsAs (payload : StoredPayload) (record : MemoryRecord T) : Prop :=
  ∀ now, fromDict now payload.fields = some record

/-- Every stream holds the records that were returned of its type, in call order, and their ids are the
first ones. -/
structure Filed (log : MemoryLog T) : Prop where
  reads : ∀ type, List.Forall₂ ReadsAs (log.streams type) (log.ofType type)
  ids : ∀ type, (log.ofType type).map MemoryRecord.id
    = (List.range (log.ofType type).length).map (nextId type)

theorem filed_empty : Filed (MemoryLog.empty : MemoryLog T) where
  reads _ := .nil
  ids _ := rfl

theorem Filed.getAll {log : MemoryLog T} (h : Filed log) (now : T) (type : MemoryType) :
    getAll now log.streams type = some (log.ofType type) :=
  mapM_eq_some_iff.2 ((h.reads type).imp fun _ _ hread => hread now)

theorem readsAs_of_stored {record : MemoryRecord T} {payload : StoredPayload}
    (hdata : JsonNative record.data) (h : StoredPayload.ofFields record.toDict = some payload) :
    ReadsAs payload record := by
  obtain ⟨stored, ⟨data, hstored, rfl⟩, hread⟩ := fromDict_toDict h
  obtain rfl := Option.some.inj (hdata.entries.symm.trans hstored)
  exact hread

omit [Timestamp T] in
theorem ofType_concat (log : MemoryLog T) (streams : Streams) (record : MemoryRecord T)
    (type : MemoryType) :
    MemoryLog.ofType { streams, returned := log.returned ++ [record] } type
      = log.ofType type ++ if record.type = type then [record] else [] := by
  by_cases htype : record.type = type
  · simp [MemoryLog.ofType, List.filter_append, htype]
  · simp [MemoryLog.ofType, List.filter_append, htype]

/-- **A call that returns adds its record to one stream.** -/
theorem Filed.perform {log : MemoryLog T} (h : Filed log) {now : T} {call : ServiceCall T}
    (hnative : call.JsonNative) {record : MemoryRecord T} {streams : Streams}
    (hcall : perform now call log.streams = some (record, streams)) :
    Filed { streams, returned := log.returned ++ [record] } := by
  obtain ⟨data, payload, hdata, hrecord, hpayload, rfl⟩ := perform_eq_some hcall
  have htype : record.type = call.type := by rw [hrecord]; rfl
  have hread : ReadsAs payload record :=
    readsAs_of_stored (by rw [hrecord]; exact call.jsonNative_data hnative hdata) hpayload
  have hid : record.id = nextId call.type (log.ofType call.type).length := by
    rw [hrecord, ← (h.reads call.type).length_eq]
    rfl
  constructor
  · intro type
    show List.Forall₂ ReadsAs (log.streams.push call.type payload type) _
    rw [ofType_concat]
    by_cases hother : record.type = type
    · obtain rfl : call.type = type := htype.symm.trans hother
      rw [if_pos hother, Streams.push, Function.update_self]
      exact List.rel_append (h.reads call.type) (.cons hread .nil)
    · have hne : type ≠ call.type := fun heq => hother (htype.trans heq.symm)
      rw [if_neg hother, List.append_nil, Streams.push, Function.update_of_ne hne]
      exact h.reads type
  · intro type
    rw [ofType_concat]
    by_cases hother : record.type = type
    · obtain rfl : call.type = type := htype.symm.trans hother
      rw [if_pos hother, List.map_append, h.ids, List.length_append, List.length_singleton,
        List.range_succ, List.map_append, List.map_singleton, List.map_singleton, hid]
    · rw [if_neg hother, List.append_nil]
      exact h.ids type

/-- A call whose data are JSON values never raises once its data are made. -/
theorem Filed.perform_isSome {log : MemoryLog T} (h : Filed log) {now : T} {call : ServiceCall T}
    (hnative : call.JsonNative) {data : Fields} (hdata : call.data = some data) :
    ∃ record streams, Memory.perform now call log.streams = some (record, streams) := by
  have hrecord : ∀ record : MemoryRecord T, record.data = data →
      ∃ payload, StoredPayload.ofFields record.toDict = some payload := by
    intro record hrecord
    apply Option.isSome_iff_exists.1
    rw [StoredPayload.isSome_ofFields, MemoryRecord.toDict, hrecord]
    simp only [List.forall_mem_cons, (call.jsonNative_data hnative hdata).dict]
    exact ⟨rfl, rfl, rfl, rfl, fun _ h => absurd h List.not_mem_nil⟩
  obtain ⟨payload, hpayload⟩ :=
    hrecord ((call.pending (log.ofType call.type).length data).record now) rfl
  refine ⟨(call.pending (log.ofType call.type).length data).record now,
    log.streams.push call.type payload, ?_⟩
  simp only [Memory.perform, hdata, h.getAll, Option.bind_eq_bind, Option.bind_some,
    Streams.append_eq, hpayload, Option.map_some, Option.pure_def]
  rfl

theorem Filed.storeImprovements {improvements : List (T × ApprovedAction)} {log : MemoryLog T}
    (h : Filed log)
    (hnative : ∀ improvement ∈ improvements, JsonNative improvement.2.payload) :
    ∃ saved streams, Memory.storeImprovements improvements log.streams = (some saved, streams)
      ∧ Filed { streams, returned := log.returned ++ saved } := by
  induction improvements generalizing log with
  | nil => exact ⟨[], log.streams, rfl, by rw [List.append_nil]; exact h⟩
  | cons improvement rest ih =>
      obtain ⟨now, action⟩ := improvement
      obtain ⟨hfirst, hrest⟩ := List.forall_mem_cons.1 hnative
      have hcall : (action.call : ServiceCall T).JsonNative :=
        List.forall_mem_singleton.2 hfirst.dict
      obtain ⟨record, streams, hperform⟩ : ∃ record streams,
          Memory.perform now action.call log.streams = some (record, streams) :=
        h.perform_isSome hcall rfl
      obtain ⟨saved, final, hsaved, hfiled⟩ := ih (h.perform hcall hperform) hrest
      refine ⟨record :: saved, final, ?_, ?_⟩
      · simp only [Memory.storeImprovements, hperform, hsaved]
        rfl
      · simpa only [List.append_assoc, List.singleton_append] using hfiled

/-- **A call keeps the streams filed, whether it returns or raises.** -/
theorem Filed.step {log : MemoryLog T} (h : Filed log) {call : MemoryCall T}
    (hnative : call.JsonNative) : Filed (log.step call) := by
  cases call with
  | service now call =>
      rcases hperform : Memory.perform now call log.streams with _ | ⟨record, streams⟩
      · simp only [MemoryLog.step, MemoryCall.run, hperform, Option.getD_none, List.append_nil]
        exact h
      · simp only [MemoryLog.step, MemoryCall.run, hperform, Option.getD_some]
        exact h.perform hnative hperform
  | storeImprovements improvements =>
      obtain ⟨saved, streams, hsaved, hfiled⟩ := h.storeImprovements hnative
      simp only [MemoryLog.step, MemoryCall.run, hsaved, Option.getD_some]
      exact hfiled

theorem filed_run {calls : List (MemoryCall T)} (hnative : ∀ call ∈ calls, call.JsonNative) :
    Filed (calls.foldl MemoryLog.step MemoryLog.empty) := by
  suffices hfrom : ∀ log : MemoryLog T, Filed log → Filed (calls.foldl MemoryLog.step log) from
    hfrom MemoryLog.empty filed_empty
  induction calls with
  | nil => exact fun _ h => h
  | cons call rest ih =>
      obtain ⟨hcall, hrest⟩ := List.forall_mem_cons.1 hnative
      exact fun log h => ih hrest (log.step call) (h.step hcall)

/-! ### Finding a record by its id -/

theorem Filed.id_eq {log : MemoryLog T} (h : Filed log) {record : MemoryRecord T}
    (hmem : record ∈ log.returned) : ∃ n, record.id = nextId record.type n := by
  have hof : record ∈ log.ofType record.type := List.mem_filter.2 ⟨hmem, decide_eq_true rfl⟩
  have hid : record.id ∈ (log.ofType record.type).map MemoryRecord.id := List.mem_map_of_mem hof
  rw [h.ids] at hid
  obtain ⟨n, _, hn⟩ := List.mem_map.1 hid
  exact ⟨n, hn.symm⟩

theorem Filed.type_eq {log : MemoryLog T} (h : Filed log) {record other : MemoryRecord T}
    (hrecord : record ∈ log.returned) (hother : other ∈ log.returned) (hid : record.id = other.id) :
    record.type = other.type := by
  obtain ⟨n, hn⟩ := h.id_eq hrecord
  obtain ⟨m, hm⟩ := h.id_eq hother
  exact (nextId_injective (hn.symm.trans (hid.trans hm))).1

theorem Filed.nodup_ids {log : MemoryLog T} (h : Filed log) (type : MemoryType) :
    ((log.ofType type).map MemoryRecord.id).Nodup := by
  rw [h.ids]
  exact List.nodup_range.map fun _ _ heq => (nextId_injective heq).2

theorem Filed.getById {log : MemoryLog T} (h : Filed log) (now : T) {record : MemoryRecord T}
    (hmem : record ∈ log.returned) : getById now log.streams record.id = some (some record) := by
  suffices hfind : ∀ types, record.type ∈ types →
      findIn now log.streams record.id types = some (some record) from
    hfind MemoryType.all (by cases record.type <;> decide)
  intro types htype
  induction types with
  | nil => cases htype
  | cons first rest ih =>
      by_cases hfirst : record.type = first
      · have hof : record ∈ log.ofType first := List.mem_filter.2 ⟨hmem, decide_eq_true hfirst⟩
        simp only [findIn, h.getAll, find?_id (h.nodup_ids first) hof]
      · have hnone : (log.ofType first).find? (·.id = record.id) = none := by
          refine List.find?_eq_none.2 fun other hother heq => hfirst ?_
          obtain ⟨hreturned, hof⟩ := List.mem_filter.1 hother
          rw [h.type_eq hmem hreturned (of_decide_eq_true heq).symm, of_decide_eq_true hof]
        simp only [findIn, h.getAll, hnone]
        exact ih ((List.mem_cons.1 htype).resolve_left hfirst)

/-- **What the calls of one service returned is what it reads back.** -/
theorem run_reads_back (calls : List (MemoryCall T)) (hnative : ∀ call ∈ calls, call.JsonNative)
    (now : T) :
    let log := calls.foldl MemoryLog.step MemoryLog.empty
    (∀ type, getAll now log.streams type = some (log.ofType type)
      ∧ (log.ofType type).map MemoryRecord.id
        = (List.range (log.ofType type).length).map (nextId type))
    ∧ (∀ record ∈ log.returned, ∀ other ∈ log.returned, record.id = other.id →
      record.type = other.type)
    ∧ ∀ record ∈ log.returned, getById now log.streams record.id = some (some record) := by
  intro log
  have hfiled : Filed log := filed_run hnative
  exact ⟨fun type => ⟨hfiled.getAll now type, hfiled.ids type⟩,
    fun _ hrecord _ hother hid => hfiled.type_eq hrecord hother hid,
    fun _ hmem => hfiled.getById now hmem⟩

def mixedCalls : List (MemoryCall Instant) :=
  [.service .mk (.logTask "t1" "completed" (some "done") none none),
    .service .mk (.recordExecution ⟨"t1", none, none, some [("total_tasks", .int 1)], true, none, none,
      .mk⟩),
    .storeImprovements [(.mk, .other "tune"), (.mk, .fields [("target", .str "planner")])]]

def mixedLog : MemoryLog Instant := mixedCalls.foldl MemoryLog.step MemoryLog.empty

theorem mixedCalls_read_back :
    getAll Instant.mk mixedLog.streams .execution = some (mixedLog.ofType .execution)
      ∧ getAll Instant.mk mixedLog.streams .decision = some (mixedLog.ofType .decision) := by
  have hnone : JsonNative [] := fun _ h => absurd h List.not_mem_nil
  have hnative : ∀ call ∈ mixedCalls, call.JsonNative := by
    refine List.forall_mem_cons.2 ⟨trivial, List.forall_mem_cons.2 ⟨?_, List.forall_mem_singleton.2 ?_⟩⟩
    · exact ⟨hnone, hnone, List.forall_mem_singleton.2 rfl, hnone⟩
    · exact List.forall_mem_cons.2 ⟨List.forall_mem_singleton.2 rfl,
        List.forall_mem_singleton.2 (List.forall_mem_singleton.2 rfl)⟩
  have hread := (run_reads_back mixedCalls hnative .mk).1
  exact ⟨(hread .execution).1, (hread .decision).1⟩

end PersonalDevin.Memory
