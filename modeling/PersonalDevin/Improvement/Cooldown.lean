import PersonalDevin.Improvement.Store
import PersonalDevin.Memory.Contract

/-!
# The cooldown

After an accepted improvement no action is to be applied for three cycles, of which each leaves one
improvement record. The engine counts the records of every kind that follow the accepted one, and a
cycle on cooldown writes at least two. The engine is on a store that nobody else uses.
-/

namespace PersonalDevin.Improvement

open Lib
open Memory (ImprovementAction ImprovementEvent Instant MemoryType StoredPayload Streams Timestamp)

/-- How many improvement records follow the last accepted one, if there is one. -/
def cyclesSinceAccepted (records : List Fields) : Option ℕ :=
  sinceAccepted (records.filter isImprovementRecord)

theorem sinceAccepted_append {records more : List Fields}
    (hmore : ∀ record ∈ more, isAccepted record = false) :
    sinceAccepted (records ++ more) = (sinceAccepted records).map (· + more.length) := by
  have hnone : more.reverse.findIdx? isAccepted = none := by
    rw [List.findIdx?_eq_none_iff]
    exact fun record hmem => hmore record (List.mem_reverse.1 hmem)
  rw [sinceAccepted, List.reverse_append, List.findIdx?_append, hnone, List.length_reverse]
  rfl

theorem isAccepted_of_not_record {fields : Fields} (h : isImprovementRecord fields = false) :
    isAccepted fields = false := by
  rw [isAccepted, h]
  rfl

/-- A run that has accepted nothing writes no accepted improvement. -/
theorem writtenAs_of_not_accepted {T : Type} [Timestamp T] {record : ImprovementRecord T}
    (h : record.accepted = false) : WrittenAs (isAccepted · = false) (recordEvent record) := by
  apply (writtenAs_recordEvent record).mono
  intro fields hfields
  have haccepted : fields.get? "accepted" = some (.bool record.accepted) := hfields "accepted"
  simp [isAccepted, haccepted, h]

/-- Other events move the last accepted improvement back by their number. -/
theorem sinceAccepted_events {events : List ImprovementEvent}
    (h : ∀ event ∈ events, WrittenAs (isAccepted · = false) event) (streams : Streams) :
    sinceAccepted (payloads .decision (extend streams .decision (events.flatMap stored)))
      = (sinceAccepted (payloads .decision streams)).map (· + events.length) := by
  have hmore : ∀ record ∈ (events.flatMap stored).map StoredPayload.fields,
      isAccepted record = false := by
    intro record hmem
    obtain ⟨payload, hpayload, rfl⟩ := List.mem_map.1 hmem
    obtain ⟨event, hevent, hpayload⟩ := List.mem_flatMap.1 hpayload
    exact of_mem_stored (h event hevent) hpayload
  rw [payloads, extend_self, List.map_append, sinceAccepted_append hmore, List.length_map,
    length_stored h]
  rfl

/-! ### A run that has the store to itself -/

section Run

variable {T : Type} [Timestamp T] [LE T] [DecidableLE T] (engine : ImprovementEngine T)

/-- **A run on a store that nobody else uses** finds the history as it was, so it accepts nothing. -/
theorem run_memoryStore (now : T) (streams : Streams) :
    let history := payloads .execution streams
    let cooldown := onCooldown (payloads .decision streams)
    ∃ record : ImprovementRecord T, record.accepted = false
      ∧ run (memoryStore T) engine now streams
        = .ok { validated engine history with
            actions := appliedActions engine history cooldown
            record := some record }
          (extend streams .decision
            ((earlierEvents engine history cooldown ++ [recordEvent record]).flatMap stored)) := by
  intro history cooldown
  obtain ⟨streams', hstreams'⟩ : ∃ streams', extend streams .decision
      ((earlierEvents engine history cooldown).flatMap stored) = streams' := ⟨_, rfl⟩
  have hhistory : payloads .execution streams' = history := by
    rw [← hstreams', payloads, extend_of_ne _ _ (by decide)]
    rfl
  have hgate : shouldAccept (memoryStore T) (Metrics.impactScore (Metrics.compute history)
      (Metrics.compute (payloads .execution streams'))) streams' = .ok false streams' := by
    rw [hhistory, Metrics.impactScore_self, shouldAccept, if_pos (by norm_num [minImprovementDelta])]
    rfl
  have hrun := memoryStore_storeLike.run_eq engine now rfl hstreams' hgate
  refine ⟨runRecord engine now history (payloads .execution streams') cooldown
    (nextVersion (payloads .decision streams')) false, rfl, hrun.trans ?_⟩
  rw [List.flatMap_append, List.flatMap_singleton, ← extend_extend, hstreams']
  rfl

/-- The run applies no action. -/
def AppliesNothing (now : T) (streams : Streams) : Prop :=
  ∃ plan streams', run (memoryStore T) engine now streams = .ok plan streams' ∧ plan.actions = []

theorem appliesNothing_iff (now : T) (streams : Streams) :
    AppliesNothing engine now streams ↔ onCooldown (payloads .decision streams) = true
      ∨ (validated engine (payloads .execution streams)).actions = [] := by
  obtain ⟨record, _, hrun⟩ := run_memoryStore engine now streams
  have hactions : AppliesNothing engine now streams ↔ appliedActions engine
      (payloads .execution streams) (onCooldown (payloads .decision streams)) = [] := by
    constructor
    · rintro ⟨plan, streams', hplan, hnothing⟩
      cases hrun.symm.trans hplan
      exact hnothing
    · exact fun hnothing => ⟨_, _, hrun, hnothing⟩
  rw [hactions, appliedActions]
  cases onCooldown (payloads .decision streams) <;> simp

/-- A run leaves the history as it was, and moves the last accepted improvement back by what it
writes. -/
theorem finalState_run (now : T) (streams : Streams) :
    payloads .execution (finalState (run (memoryStore T) engine now streams))
        = payloads .execution streams
      ∧ sinceAccepted (payloads .decision (finalState (run (memoryStore T) engine now streams)))
        = (sinceAccepted (payloads .decision streams)).map (· + ((earlierEvents engine
            (payloads .execution streams) (onCooldown (payloads .decision streams))).length + 1)) := by
  obtain ⟨record, haccepted, hrun⟩ := run_memoryStore engine now streams
  rw [hrun]
  constructor
  · show payloads .execution (extend _ _ _) = _
    rw [payloads, extend_of_ne _ _ (by decide)]
    rfl
  · have hevents : ∀ event ∈ earlierEvents engine (payloads .execution streams)
        (onCooldown (payloads .decision streams)) ++ [recordEvent record],
        WrittenAs (isAccepted · = false) event := by
      intro event hmem
      rcases List.mem_append.1 hmem with hmem | hmem
      · exact (writtenAs_earlierEvents engine _ _ event hmem).mono
          fun _ => isAccepted_of_not_record
      · rw [List.mem_singleton.1 hmem]
        exact writtenAs_of_not_accepted haccepted
    have hsince := sinceAccepted_events hevents streams
    rw [List.length_append, List.length_singleton] at hsince
    exact hsince

theorem onCooldown_iff {records : List Fields} :
    onCooldown records = true ↔ ∃ n < cooldownCycles, sinceAccepted records = some n := by
  rw [onCooldown]
  cases sinceAccepted records <;> simp

/-- One run after the other, each of which applies no action. -/
def RunsApplyNothing : List T → Streams → Prop
  | [], _ => True
  | now :: later, streams =>
      AppliesNothing engine now streams
        ∧ RunsApplyNothing later (finalState (run (memoryStore T) engine now streams))

theorem runsApplyNothing_of_nil {streams : Streams}
    (hactions : (validated engine (payloads .execution streams)).actions = []) (times : List T) :
    RunsApplyNothing engine times streams := by
  induction times generalizing streams with
  | nil => trivial
  | cons now later ih =>
      refine ⟨(appliesNothing_iff engine now streams).2 (.inr hactions), ih ?_⟩
      rw [(finalState_run engine now streams).1]
      exact hactions

theorem runsApplyNothing_iff {streams : Streams}
    (haccepted : sinceAccepted (payloads .decision streams) = some 0) (first second third : T) :
    RunsApplyNothing engine [first, second, third] streams
      ↔ (validated engine (payloads .execution streams)).actions = [] := by
  constructor
  · rintro ⟨_, hsecond, hthird, _⟩
    obtain ⟨hhistory, hsince⟩ := finalState_run engine first streams
    obtain ⟨hhistory', hsince'⟩ := finalState_run engine second
      (finalState (run (memoryStore T) engine first streams))
    have hfirst : onCooldown (payloads .decision streams) = true :=
      onCooldown_iff.2 ⟨0, by decide, haccepted⟩
    rw [haccepted, hfirst, Option.map_some] at hsince
    rw [appliesNothing_iff, hhistory] at hsecond
    rw [appliesNothing_iff, hhistory', hhistory] at hthird
    rcases hsecond with hcooldown | hactions
    · -- Two runs on cooldown leave four records or more.
      rw [hsince, hhistory, hcooldown, Option.map_some] at hsince'
      rcases hthird with hcooldown' | hactions
      · obtain ⟨n, hn, hlast⟩ := onCooldown_iff.1 hcooldown'
        rw [hsince', Option.some.injEq, earlierEvents, if_pos rfl, List.length_append,
          List.length_singleton] at hlast
        rw [cooldownCycles] at hn
        omega
      · exact hactions
    · exact hactions
  · exact fun hactions => runsApplyNothing_of_nil engine hactions _

/-- **When the cooldown lasts three cycles.** With an accepted improvement fewer than three cycles ago, a
run applies nothing if and only if fewer than three records of any kind have followed it or the plan has
no action; and three runs in a row after an accepted improvement apply nothing if and only if the plan
has no action. -/
theorem run_cooldown_iff (engine : ImprovementEngine T) (streams : Streams)
    (first second third : T) :
    (((∃ n < cooldownCycles, cyclesSinceAccepted (payloads .decision streams) = some n) →
          AppliesNothing engine first streams)
        ↔ ((∃ n < cooldownCycles, cyclesSinceAccepted (payloads .decision streams) = some n) →
          (∃ n < cooldownCycles, sinceAccepted (payloads .decision streams) = some n)
            ∨ (validated engine (payloads .execution streams)).actions = []))
      ∧ (sinceAccepted (payloads .decision streams) = some 0 →
        (RunsApplyNothing engine [first, second, third] streams
          ↔ (validated engine (payloads .execution streams)).actions = [])) := by
  refine ⟨imp_congr_right fun _ => ?_, fun haccepted =>
    runsApplyNothing_iff engine haccepted first second third⟩
  rw [appliesNothing_iff, onCooldown_iff]

end Run

/-! ### A third run that applies an action -/

def acceptedRecord : StoredPayload where
  fields := [("event", .str "improvement_record"), ("version", .int 1), ("accepted", .bool true),
    ("impact_score", .float 1 (-1))]
  stable := rfl

/-- What a run on cooldown writes. -/
def cooldownCycle (version : ℤ) : List StoredPayload :=
  [⟨[("event", .str "improvement_cooldown_active"), ("cycles_remaining", .int 3)], rfl⟩,
    ⟨[("event", .str "improvement_record"), ("version", .int version), ("accepted", .bool false),
      ("impact_score", .float 0 0)], rfl⟩]

def failedStore (decisions : List StoredPayload) : Streams
  | .execution => [⟨[("success", .bool false)], rfl⟩]
  | .decision => decisions
  | _ => []

theorem run_cooldown_iff_sample :
    RunsApplyNothing {} [Instant.mk, .mk, .mk] (failedStore [acceptedRecord])
      ↔ (validated ({} : ImprovementEngine Instant)
          (payloads .execution (failedStore [acceptedRecord]))).actions = [] :=
  (run_cooldown_iff {} (failedStore [acceptedRecord]) Instant.mk .mk .mk).2 (by decide)

/-- A failed execution is reason enough for an action. -/
theorem failed_plan :
    (validated ({} : ImprovementEngine Instant) [[("success", .bool false)]]).actions ≠ [] := by
  decide +kernel

/-- Two cycles after an accepted improvement a run applies an action, and so does one of the three runs
that follow it. -/
theorem third_run_applies :
    cyclesSinceAccepted (payloads .decision
          (failedStore ([acceptedRecord] ++ cooldownCycle 2 ++ cooldownCycle 3))) = some 2
      ∧ ¬ AppliesNothing {} Instant.mk
        (failedStore ([acceptedRecord] ++ cooldownCycle 2 ++ cooldownCycle 3))
      ∧ ¬ RunsApplyNothing {} [Instant.mk, .mk, .mk] (failedStore [acceptedRecord]) := by
  refine ⟨by decide, fun hnothing => ?_, fun hnothing => ?_⟩
  · rcases (appliesNothing_iff _ _ _).1 hnothing with hcooldown | hactions
    · exact absurd hcooldown (by decide)
    · exact failed_plan hactions
  · exact failed_plan ((runsApplyNothing_iff {} (by decide) _ _ _).1 hnothing)

end PersonalDevin.Improvement
