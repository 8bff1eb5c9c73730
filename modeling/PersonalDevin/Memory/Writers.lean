import PersonalDevin.Agent.Controller
import PersonalDevin.Memory.Service

/-!
# The other writers of the store

The loop controller saves its records through `FileMemoryStore` in the execution stream, and the
improvement engine appends its events to the decision stream. Neither dictionary has a key `type`. The
rows of the statistics in a loop record and the parts of an improvement record that are data classes
are given as dictionaries.
-/

namespace PersonalDevin

namespace Agent

def Classification.toFields (classification : Classification) : Fields :=
  [("success", .bool classification.success), ("error_type", .str classification.errorType),
    ("retryable", .bool classification.retryable), ("reason", .str classification.reason)]

def optionalStep : Option Step → Value
  | some step => .dict (Value.safeEntries step.toFields)
  | none => .none

/-- The dictionary that is passed to `memory.save`. -/
def LoopRecord.toFields (record : LoopRecord) (strategyStats : List Fields) : Fields :=
  [("iteration_id", .str record.iterationId), ("timestamp", .str record.timestamp),
    ("goal", .str record.goal), ("plan", .dict (Value.safeEntries record.plan.toFields)),
    ("current_step", .dict (Value.safeEntries record.currentStep.toFields)),
    ("result", .dict record.result), ("classification", .dict record.classification.toFields),
    ("success", .bool record.success), ("decision", .str record.decision.text),
    ("strategy_pattern", .str record.strategyPattern), ("strategy_hint", .str record.strategyHint),
    ("strategy_stats", .list (strategyStats.map .dict)),
    ("repair_applied", .bool record.repairApplied),
    ("original_step", optionalStep record.originalStep),
    ("repaired_step", optionalStep record.repairedStep)]

end Agent

namespace Memory

structure ImprovementAction where
  target : String
  change : String
  reason : String
  actionType : String
  sourceSignal : String

/-- `asdict` of an action. -/
def ImprovementAction.toFields (action : ImprovementAction) : Fields :=
  [("target", .str action.target), ("change", .str action.change), ("reason", .str action.reason),
    ("action_type", .str action.actionType), ("source_signal", .str action.sourceSignal)]

/-- What the last event of an engine run carries. -/
structure ImprovementRun where
  id : String
  timestamp : String
  version : ℤ
  result : String
  patterns : List Fields
  actions : List ImprovementAction
  accepted : Bool
  impactScore : Value
  metricsBefore : Fields
  metricsAfter : Fields
  rollbackActions : List Fields
  rollbackExecuted : Bool
  impact : Fields

/-- What `_write_memory_event` is called with. -/
inductive ImprovementEvent where
  | applied (sequence : ℕ) (action : ImprovementAction) (result : String)
  | cooldownActive
  | improvementRecord (run : ImprovementRun)

def ImprovementEvent.toFields : ImprovementEvent → Fields
  | applied sequence action result =>
      [("sequence", .int sequence), ("event", .str "self_improvement_applied"),
        ("pattern", .str action.sourceSignal), ("action", .str action.change),
        ("result", .str result), ("target", .str action.target), ("reason", .str action.reason)]
  | cooldownActive =>
      [("event", .str "improvement_cooldown_active"), ("cycles_remaining", .int 3)]
  | improvementRecord run =>
      [("event", .str "improvement_record"), ("id", .str run.id), ("timestamp", .str run.timestamp),
        ("version", .int run.version), ("result", .str run.result),
        ("patterns", .list (run.patterns.map .dict)),
        ("actions", .list (run.actions.map fun action => .dict action.toFields)),
        ("accepted", .bool run.accepted), ("impact_score", run.impactScore),
        ("metrics_before", .dict run.metricsBefore), ("metrics_after", .dict run.metricsAfter),
        ("rollback_actions", .list (run.rollbackActions.map .dict)),
        ("rollback_executed", .bool run.rollbackExecuted), ("impact", .dict run.impact)]

/-! ### The store with all its writers -/

inductive Action (C T : Type) where
  | service (action : ServiceAction C T)
  /-- `FileMemoryStore.save`. -/
  | loopRecord (record : Agent.LoopRecord) (strategyStats : List Fields)
  /-- `ImprovementEngine._write_memory_event`. -/
  | improvementEvent (event : ImprovementEvent)

variable {T C : Type} [Timestamp T] [DecidableEq C]

/-- `MemoryStore.append` by a writer that is not the service; it changes nothing where it raises. -/
def System.store (s : System C T) (type : MemoryType) (payload : Fields) : System C T :=
  match s.streams.append type payload with
  | none => s
  | some streams => { s with streams }

def System.step (s : System C T) : Action C T → System C T
  | .service action => s.serviceStep action
  | .loopRecord record strategyStats => s.store .execution (record.toFields strategyStats)
  | .improvementEvent event => s.store .decision event.toFields

/-- A loop record or an improvement event that the store can write. -/
def Action.StoresForeign : Action C T → Prop
  | .service _ => False
  | .loopRecord record strategyStats =>
      (StoredPayload.ofFields (record.toFields strategyStats)).isSome = true
  | .improvementEvent event => (StoredPayload.ofFields event.toFields).isSome = true

/-- No loop record and no improvement event is a memory record. -/
theorem type_not_mem_loopRecord (record : Agent.LoopRecord) (strategyStats : List Fields) :
    "type" ∉ (record.toFields strategyStats).map Prod.fst := by
  simp [Agent.LoopRecord.toFields]

theorem type_not_mem_improvementEvent (event : ImprovementEvent) :
    "type" ∉ event.toFields.map Prod.fst := by
  cases event <;> simp [ImprovementEvent.toFields]

/-- **What a step of the store can do.** -/
inductive StoreStep (s : System C T) : Action C T → System C T → Prop
  | service {action : ServiceAction C T} {s' : System C T} (hstep : System.ServiceStep s action s') :
      StoreStep s (.service action) s'
  | raised {action : Action C T} (hown : ¬ action.StoresForeign) : StoreStep s action s
  | foreign {action : Action C T} {type : MemoryType} {payload : StoredPayload}
      (hforeign : action.StoresForeign) (hread : ∀ now : T, fromDict now payload.fields = none) :
      StoreStep s action
        { s with streams := Function.update s.streams type (s.streams type ++ [payload]) }

theorem store_cases (s : System C T) {action : Action C T} (type : MemoryType) {fields : Fields}
    (htype : "type" ∉ fields.map Prod.fst)
    (hforeign : action.StoresForeign ↔ (StoredPayload.ofFields fields).isSome = true) :
    StoreStep s action (s.store type fields) := by
  rcases hstored : StoredPayload.ofFields fields with _ | payload
  · simp only [System.store, Streams.append_eq, hstored, Option.map_none]
    exact .raised (by simp [hforeign, hstored])
  · simp only [System.store, Streams.append_eq, hstored, Option.map_some]
    exact .foreign (by simp [hforeign, hstored]) (StoredPayload.fromDict_eq_none hstored htype)

theorem step_cases (s : System C T) (action : Action C T) : StoreStep s action (s.step action) := by
  cases action with
  | service action => exact .service (s.serviceStep_cases action)
  | loopRecord record strategyStats =>
      exact store_cases s .execution (type_not_mem_loopRecord record strategyStats) Iff.rfl
  | improvementEvent event =>
      exact store_cases s .decision (type_not_mem_improvementEvent event) Iff.rfl

end Memory

end PersonalDevin
