import PersonalDevin.Improvement.Engine
import PersonalDevin.Memory.History

/-!
# The engine on a store

`MemoryStore` as a memory argument, and what a run leaves in it while nobody else uses it. The same is
said of every memory argument that reads without a change and writes each event at the end of one
stream.
-/

namespace PersonalDevin.Improvement

open Lib
open Memory (ImprovementAction ImprovementEvent MemoryType StoredPayload Streams Timestamp)

/-! ### Events in a stream -/

/-- What a stream gets of an event: nothing where the event cannot be written. -/
def stored (event : ImprovementEvent) : List StoredPayload :=
  (StoredPayload.ofFields event.toFields).toList

/-- **The event about a run can be written.** -/
theorem isSome_recordEvent {T : Type} [Timestamp T] (record : ImprovementRecord T) :
    (StoredPayload.ofFields (recordEvent record).toFields).isSome := by
  have hmetrics : ∀ metrics : ImprovementMetrics,
      (Value.jsonEntries metrics.toFields).isSome := by
    intro metrics
    rw [Value.isSome_jsonEntries]
    simp [ImprovementMetrics.toFields, Value.ofDecimal, Value.jsonRoundTrip_ofUnits]
  have himpact : (Value.jsonEntries (impactFields record (rollbackExecuted record))).isSome := by
    rw [Value.isSome_jsonEntries]
    simp [impactFields, hmetrics, Value.ofDecimal, Value.jsonRoundTrip_ofUnits, Value.jsonRoundTrip]
  rw [StoredPayload.isSome_ofFields]
  simp [recordEvent, ImprovementEvent.toFields, Pattern.toFields, ImprovementAction.toFields,
    RollbackAction.toFields, hmetrics, himpact, Value.isSome_jsonItems, Value.isSome_jsonEntries,
    Value.ofDecimal, Value.jsonRoundTrip_ofUnits, Value.jsonRoundTrip]

theorem isSome_applied (sequence : ℕ) (action : ImprovementAction) (result : String) :
    (StoredPayload.ofFields (ImprovementEvent.applied sequence action result).toFields).isSome := by
  rw [StoredPayload.isSome_ofFields]
  simp [ImprovementEvent.toFields, Value.jsonRoundTrip]

/-- The event is written as one payload, whose fields have a property. -/
def WrittenAs (P : Fields → Prop) (event : ImprovementEvent) : Prop :=
  ∃ payload, stored event = [payload] ∧ P payload.fields

theorem WrittenAs.mono {P Q : Fields → Prop} {event : ImprovementEvent} (h : WrittenAs P event)
    (himp : ∀ fields, P fields → Q fields) : WrittenAs Q event :=
  h.imp fun _ hpayload => ⟨hpayload.1, himp _ hpayload.2⟩

theorem writtenAs_of_isSome {event : ImprovementEvent}
    (h : (StoredPayload.ofFields event.toFields).isSome) :
    WrittenAs (fun fields => ∀ key,
      fields.get? key = (event.toFields.get? key).bind Value.jsonRoundTrip) event := by
  obtain ⟨payload, hpayload⟩ := Option.isSome_iff_exists.1 h
  refine ⟨payload, by rw [stored, hpayload]; rfl, ?_⟩
  exact Value.get?_jsonEntries (StoredPayload.ofFields_eq_some_iff.1 hpayload)

theorem writtenAs_recordEvent {T : Type} [Timestamp T] (record : ImprovementRecord T) :
    WrittenAs (fun fields => ∀ key, fields.get? key
      = ((recordEvent record).toFields.get? key).bind Value.jsonRoundTrip) (recordEvent record) :=
  writtenAs_of_isSome (isSome_recordEvent record)

theorem writtenAs_applied (sequence : ℕ) (action : ImprovementAction) (result : String) :
    WrittenAs (isImprovementRecord · = false) (.applied sequence action result) := by
  apply (writtenAs_of_isSome (isSome_applied sequence action result)).mono
  intro fields hfields
  have hevent : fields.get? "event" = some (.str "self_improvement_applied") := hfields "event"
  simp [isImprovementRecord, isEvent, hevent]

theorem writtenAs_cooldownActive : WrittenAs (isImprovementRecord · = false) .cooldownActive := by
  apply (writtenAs_of_isSome (by decide)).mono
  intro fields hfields
  have hevent : fields.get? "event" = some (.str "improvement_cooldown_active") := hfields "event"
  simp [isImprovementRecord, isEvent, hevent]

theorem writtenAs_actionEvents (actions : List ImprovementAction) (result : String) :
    ∀ event ∈ actionEvents actions result, WrittenAs (isImprovementRecord · = false) event := by
  intro event hmem
  obtain ⟨⟨action, i⟩, _, rfl⟩ := List.mem_map.1 hmem
  exact writtenAs_applied _ _ _

theorem writtenAs_notice (cooldown : Bool) :
    ∀ event ∈ if cooldown then [ImprovementEvent.cooldownActive] else [],
      WrittenAs (isImprovementRecord · = false) event := by
  intro event hmem
  cases cooldown
  · cases hmem
  · rw [List.mem_singleton.1 hmem]
    exact writtenAs_cooldownActive

theorem length_stored {P : Fields → Prop} {events : List ImprovementEvent}
    (h : ∀ event ∈ events, WrittenAs P event) :
    (events.flatMap stored).length = events.length := by
  induction events with
  | nil => rfl
  | cons event rest ih =>
      obtain ⟨payload, hstored, _⟩ := h event List.mem_cons_self
      rw [List.flatMap_cons, hstored, List.singleton_append, List.length_cons, List.length_cons,
        ih fun other hmem => h other (List.mem_cons_of_mem _ hmem)]

theorem of_mem_stored {P : Fields → Prop} {event : ImprovementEvent} (h : WrittenAs P event)
    {payload : StoredPayload} (hmem : payload ∈ stored event) : P payload.fields := by
  obtain ⟨payload', hstored, hP⟩ := h
  rw [hstored, List.mem_singleton] at hmem
  exact hmem ▸ hP

/-- The streams with payloads at the end of one of them. -/
def extend (streams : Streams) (type : MemoryType) (payloads : List StoredPayload) : Streams :=
  Function.update streams type (streams type ++ payloads)

theorem extend_self (streams : Streams) (type : MemoryType) (payloads : List StoredPayload) :
    extend streams type payloads type = streams type ++ payloads := Function.update_self _ _ _

theorem extend_of_ne (streams : Streams) {type other : MemoryType} (payloads : List StoredPayload)
    (hne : other ≠ type) : extend streams type payloads other = streams other :=
  Function.update_of_ne hne _ _

theorem extend_nil (streams : Streams) (type : MemoryType) : extend streams type [] = streams := by
  rw [extend, List.append_nil, Function.update_eq_self]

theorem extend_extend (streams : Streams) (type : MemoryType) (payloads more : List StoredPayload) :
    extend (extend streams type payloads) type more = extend streams type (payloads ++ more) := by
  rw [extend, extend_self, extend, extend, Function.update_idem, List.append_assoc]

/-- What the store does with a payload, whether `append` returns or raises. -/
theorem append_getD (streams : Streams) (type : MemoryType) (payload : Fields) :
    (streams.append type payload).getD streams
      = extend streams type (StoredPayload.ofFields payload).toList := by
  rw [Streams.append_eq]
  rcases StoredPayload.ofFields payload with _ | payload
  · exact (extend_nil streams type).symm
  · rfl

/-! ### The store as a memory argument -/

section Store

variable {T : Type} [Timestamp T] [LE T] [DecidableLE T]

/-- `MemoryStore.append`, which changes nothing where it raises. -/
def appendTo (type : MemoryType) (payload : Fields) : EStateM Raised Streams PUnit := fun streams =>
  match streams.append type payload with
  | some streams' => .ok ⟨⟩ streams'
  | none => .error .memory streams

variable (T) in
def memoryStore : MemoryObject Streams where
  readAll := some fun type streams => .ok ((streams type).map StoredPayload.fields) streams
  getRecent := some fun limit streams => .ok (Memory.MemoryStore.getRecent T streams limit) streams
  retrieve := none
  append := some appendTo
  save := none

/-- A memory argument that reads a history and decision records without a change, and writes each event
at the end of one stream. -/
structure StoreLike (memory : MemoryObject Streams) (target : MemoryType)
    (history : Streams → List Fields) (decisions : Streams → Option (List Fields)) : Prop where
  reads : ∀ streams, readExecutionHistory memory streams = .ok (history streams) streams
  decides : ∀ streams, readDecisions memory streams = .ok (decisions streams) streams
  writes : ∀ event streams,
    writeMemoryEvent memory event streams = .ok ⟨⟩ (extend streams target (stored event))

def payloads (type : MemoryType) (streams : Streams) : List Fields :=
  (streams type).map StoredPayload.fields

theorem appendTo_dropped (type : MemoryType) (payload : Fields) (streams : Streams) :
    (tryCatch (appendTo type payload) fun _ => pure ⟨⟩ : EStateM Raised Streams PUnit) streams
      = .ok ⟨⟩ (extend streams type (StoredPayload.ofFields payload).toList) := by
  rw [← append_getD]
  show EStateM.tryCatch _ _ streams = _
  rcases happend : streams.append type payload with _ | streams' <;>
    simp only [EStateM.tryCatch, appendTo, happend] <;> rfl

theorem memoryStore_storeLike : StoreLike (memoryStore T) .decision (payloads .execution)
    (fun streams => some (payloads .decision streams)) where
  reads _ := rfl
  decides _ := rfl
  writes event streams := appendTo_dropped .decision event.toFields streams

end Store

/-! ### A run on a store -/

section Run

variable {T : Type} (engine : ImprovementEngine T)

/-- The plan after its validation. -/
def validated (history : List Fields) : ImprovementPlan T :=
  engine.validate (proposedPlan engine history)

def cooldownFor (decisions : Option (List Fields)) : Bool := (decisions.map onCooldown).getD false

def appliedActions (history : List Fields) (cooldown : Bool) : List ImprovementAction :=
  if cooldown then [] else (validated engine history).actions

/-- The events before that about the run. -/
def earlierEvents (history : List Fields) (cooldown : Bool) : List ImprovementEvent :=
  actionEvents (appliedActions engine history cooldown) "success"
    ++ actionEvents (validated engine history).rejectedActions "rejected"
    ++ if cooldown then [.cooldownActive] else []

theorem writtenAs_earlierEvents (history : List Fields) (cooldown : Bool) :
    ∀ event ∈ earlierEvents engine history cooldown,
      WrittenAs (isImprovementRecord · = false) event := by
  intro event hmem
  rcases List.mem_append.1 hmem with hmem | hmem
  · rcases List.mem_append.1 hmem with hmem | hmem
    · exact writtenAs_actionEvents _ _ event hmem
    · exact writtenAs_actionEvents _ _ event hmem
  · exact writtenAs_notice cooldown event hmem

/-- The record of a run that has read the history twice. -/
def runRecord (now : T) (before after : List Fields) (cooldown : Bool) (version : ℤ)
    (accepted : Bool) : ImprovementRecord T where
  id := recordName version
  timestamp := now
  patterns := (validated engine before).patterns
  actions := appliedActions engine before cooldown
  result := resultText (appliedActions engine before cooldown) cooldown
  version := version
  rollbackActions := buildRollbackActions (appliedActions engine before cooldown) version
  metricsBefore := Metrics.compute before
  metricsAfter := Metrics.compute after
  impactScore := Metrics.impactScore (Metrics.compute before) (Metrics.compute after)
  accepted := accepted && !(appliedActions engine before cooldown).isEmpty

variable [Timestamp T] {memory : MemoryObject Streams} {target : MemoryType}
  {history : Streams → List Fields} {decisions : Streams → Option (List Fields)}

theorem StoreLike.writeAll (h : StoreLike memory target history decisions)
    (events : List ImprovementEvent) (streams : Streams) :
    writeMemoryEvents memory events streams
      = .ok ⟨⟩ (extend streams target (events.flatMap stored)) := by
  induction events generalizing streams with
  | nil => exact congrArg (EStateM.Result.ok _) (extend_nil streams target).symm
  | cons event rest ih =>
      show (writeMemoryEvent memory event >>= fun _ => writeMemoryEvents memory rest) streams = _
      rw [bind_of_ok (h.writes event streams), ih, extend_extend, List.flatMap_cons]

theorem StoreLike.version (h : StoreLike memory target history decisions) (streams : Streams) :
    nextImprovementVersion memory streams
      = .ok (((decisions streams).map nextVersion).getD 1) streams :=
  bind_of_ok (h.decides streams)

/-- **A run on a store**: its events are written one after the other, and then the one about the run. -/
theorem StoreLike.run_eq (h : StoreLike memory target history decisions) (now : T)
    {streams streams' : Streams} {cooldown accepted : Bool}
    (hcooldown : cooldownFor (decisions streams) = cooldown)
    (hevents : extend streams target
      ((earlierEvents engine (history streams) cooldown).flatMap stored) = streams')
    (hgate : shouldAccept memory (Metrics.impactScore (Metrics.compute (history streams))
      (Metrics.compute (history streams'))) streams' = .ok accepted streams') :
    run memory engine now streams
      = let record := runRecord engine now (history streams) (history streams') cooldown
          (((decisions streams').map nextVersion).getD 1) accepted
        .ok { validated engine (history streams) with
            actions := appliedActions engine (history streams) cooldown
            record := some record }
          (extend streams' target (stored (recordEvent record))) := by
  have hcheck : isOnCooldown memory streams = .ok cooldown streams := by
    rw [← hcooldown]
    exact bind_of_ok (h.decides streams)
  have hwrite : ∀ events (before : List ImprovementEvent), writeMemoryEvents memory events
      (extend streams target (before.flatMap stored))
      = .ok ⟨⟩ (extend streams target ((before ++ events).flatMap stored)) := by
    intro events before
    rw [h.writeAll, extend_extend, List.flatMap_append]
  have hstart : streams = extend streams target (([] : List ImprovementEvent).flatMap stored) :=
    (extend_nil streams target).symm
  have happlied := hwrite (actionEvents (appliedActions engine (history streams) cooldown) "success")
    []
  rw [← hstart, List.nil_append] at happlied
  subst hevents
  rw [run, bind_of_ok hcheck, bind_of_ok (h.reads streams)]
  dsimp only
  rw [← validated, ← appliedActions, bind_of_ok happlied, bind_of_ok (hwrite _ _),
    bind_of_ok (hwrite _ _), ← earlierEvents, bind_of_ok (h.reads _), bind_of_ok hgate,
    bind_of_ok (h.version _), bind_of_ok (h.version _), bind_of_ok (h.writes _ _)]
  rfl

end Run

end PersonalDevin.Improvement
