import PersonalDevin.Improvement.Cooldown

/-!
# The engine on the adapter of the store

`FileMemoryStore`, which the loop controller passes to the engine, has neither `read_all` nor `append`.
The engine then reads its history with `retrieve("*")`, sees no decision record, and saves its events as
execution records.
-/

namespace PersonalDevin.Improvement

open Lib
open Memory (ImprovementEvent Instant MemoryType StoredPayload Streams Timestamp)

section Adapter

variable (T : Type) [Timestamp T] [LE T] [DecidableLE T]

def matchingRecords (goal : String) (streams : Streams) : List Fields :=
  (Memory.MemoryStore.getRecent T streams 50).filter fun item => textField item "goal" "" = goal

def retrieve (goal : String) (streams : Streams) : Fields :=
  let matching := matchingRecords T goal streams
  let failures := matching.filter fun item => !((item.get? "success").map Value.truthy).getD false
  [("goal", .str goal), ("recent", .list (matching.map .dict)),
    ("recent_failures", .list (failures.map .dict)), ("attempt_count", .int matching.length)]

def fileMemoryStore : MemoryObject Streams where
  readAll := none
  getRecent := none
  retrieve := some fun goal streams => .ok (retrieve T goal streams) streams
  append := none
  save := some (appendTo .execution)

variable {T}

theorem recentRecords_retrieve (goal : String) (streams : Streams) :
    recentRecords (retrieve T goal streams) = matchingRecords T goal streams := by
  have hrecent : (retrieve T goal streams).get? "recent"
      = some (.list ((matchingRecords T goal streams).map .dict)) := rfl
  rw [recentRecords, hrecent]
  dsimp only
  rw [List.filterMap_map]
  exact List.filterMap_some

theorem fileMemoryStore_storeLike : StoreLike (fileMemoryStore T) .execution (matchingRecords T "*")
    (fun _ => none) where
  reads streams := congrArg (EStateM.Result.ok · streams) (recentRecords_retrieve "*" streams)
  decides _ := rfl
  writes event streams := appendTo_dropped .execution event.toFields streams

/-! ### A run on the adapter -/

variable (engine : ImprovementEngine T)

/-- **A run on the adapter leaves its events in the execution stream.** -/
theorem run_fileMemoryStore (now : T) (streams : Streams) : ∃ plan streams',
    run (fileMemoryStore T) engine now streams = .ok plan streams'
      ∧ (streams .execution).length < (streams' .execution).length := by
  obtain ⟨streams', hstreams'⟩ : ∃ streams', extend streams .execution
      ((earlierEvents engine (matchingRecords T "*" streams) false).flatMap stored) = streams' :=
    ⟨_, rfl⟩
  obtain ⟨accepted, hgate⟩ : ∃ accepted, shouldAccept (fileMemoryStore T) (Metrics.impactScore
      (Metrics.compute (matchingRecords T "*" streams))
      (Metrics.compute (matchingRecords T "*" streams'))) streams' = .ok accepted streams' := by
    unfold shouldAccept
    split
    · exact ⟨false, rfl⟩
    · exact ⟨true, rfl⟩
  refine ⟨_, _, fileMemoryStore_storeLike.run_eq engine now rfl hstreams' hgate, ?_⟩
  have hone : ∀ record : ImprovementRecord T, (stored (recordEvent record)).length = 1 := by
    intro record
    obtain ⟨payload, hstored, _⟩ := writtenAs_recordEvent record
    rw [hstored, List.length_singleton]
  show (streams .execution).length < (extend streams' .execution (stored (recordEvent _)) _).length
  rw [extend_self, ← hstreams', extend_self, List.length_append, List.length_append, hone]
  omega

/-- A run on the adapter gives what a run on the store gives, and neither changes the execution
stream. -/
def AdapterAgrees (now : T) (streams : Streams) : Prop :=
  ∃ plan streams₁ plan' streams₂, run (memoryStore T) engine now streams = .ok plan streams₁
    ∧ run (fileMemoryStore T) engine now streams = .ok plan' streams₂
    ∧ plan'.analysis = plan.analysis ∧ plan'.patterns = plan.patterns
    ∧ engine.generate plan'.patterns = engine.generate plan.patterns
    ∧ (plan'.record.map fun record => decide (record.result = "cooldown"))
      = (plan.record.map fun record => decide (record.result = "cooldown"))
    ∧ plan'.record.map ImprovementRecord.version = plan.record.map ImprovementRecord.version
    ∧ streams₁ .execution = streams .execution ∧ streams₂ .execution = streams .execution

theorem execution_changes {now : T} {streams streams' : Streams} {plan : ImprovementPlan T}
    (h : run (fileMemoryStore T) engine now streams = .ok plan streams') :
    streams' .execution ≠ streams .execution := by
  obtain ⟨plan', streams'', hrun, hlength⟩ := run_fileMemoryStore engine now streams
  cases hrun.symm.trans h
  exact fun heq => absurd (congrArg List.length heq) (Nat.ne_of_gt hlength)

/-- **The adapter never agrees with the store.** -/
theorem not_adapterAgrees (engine : ImprovementEngine T) (now : T) (streams : Streams) :
    ¬ AdapterAgrees engine now streams := by
  rintro ⟨_, _, _, _, _, hrun, _, _, _, _, _, _, hexecution⟩
  exact execution_changes engine hrun hexecution

end Adapter

/-! ### A store with a history -/

/-- On the store the run sees a failed execution and an accepted improvement, and writes version 2. -/
example : ∃ plan streams', run (memoryStore Instant) {} Instant.mk
      (failedStore [acceptedRecord]) = .ok plan streams'
    ∧ plan.analysis.totalExecutions = 1
    ∧ plan.record.map ImprovementRecord.result = some "cooldown"
    ∧ plan.record.map ImprovementRecord.version = some 2
    ∧ (streams' .execution).length = 1 :=
  ends_never_raises.1 (by decide +kernel)

/-- On the adapter it sees neither, and writes version 1 to the execution stream. -/
theorem fileMemoryStore_disagrees : (∃ plan streams', run (fileMemoryStore Instant) {} Instant.mk
      (failedStore [acceptedRecord]) = .ok plan streams'
    ∧ plan.analysis.totalExecutions = 0
    ∧ plan.record.map ImprovementRecord.result = some "noop"
    ∧ plan.record.map ImprovementRecord.version = some 1
    ∧ (streams' .execution).length = 2)
    ∧ ¬ AdapterAgrees {} Instant.mk (failedStore [acceptedRecord]) := by
  refine ⟨ends_never_raises.1 (by decide +kernel), ?_⟩
  rintro ⟨_, _, _, _, _, hrun, _, _, _, _, _, _, hexecution⟩
  exact execution_changes {} hrun hexecution

end PersonalDevin.Improvement
