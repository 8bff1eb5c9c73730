import PersonalDevin.Orchestration.Controller

/-!
# A run as one computation

The phases of a run move the state machine, record traces and try operations again. What they do to the
world and to the list of record ids is what one computation does that raises where a phase fails and gives
`none` where an engine has answered `None`. Every run ends as that computation does, unless it raises: where
an exception has no text, or where the status of the report cannot be read in the end.
-/

namespace PersonalDevin.Orchestration

open Lib
open Execution (ExecutionStatus)

variable {σ T P H R A α : Type}

/-! ### One phase -/

/-- Trying an operation again calls it a number of times, and does nothing else to the events. -/
theorem retry_invoke (phase : Phase) (operation : EStateM Raised (Shared σ) α) (retries : ℕ)
    (shared : Shared σ) (events : List Event) : ∃ calls,
      retry isRetried (invoke phase operation) retries (shared, events) =
        match retry isRetried operation retries shared with
        | .ok value shared' => .ok value (shared', events ++ List.replicate calls (.invoked phase))
        | .error error shared' =>
            .error error (shared', events ++ List.replicate calls (.invoked phase)) := by
  have hinvoked : ∀ (shared : Shared σ) (events : List Event),
      invoke phase operation (shared, events) =
        match operation shared with
        | .ok value shared' => .ok value (shared', events ++ [.invoked phase])
        | .error error shared' => .error error (shared', events ++ [.invoked phase]) :=
    fun _ _ => rfl
  induction retries generalizing shared events with
  | zero =>
      refine ⟨1, ?_⟩
      rw [retry, hinvoked]
      rfl
  | succ retries ih =>
      have hfirst := hinvoked shared events
      rcases hx : operation shared with ⟨value, shared'⟩ | ⟨error, shared'⟩
      · rw [hx] at hfirst
        refine ⟨1, ?_⟩
        rw [retry_of_ok _ hfirst, retry_of_ok _ hx]
        rfl
      · rw [hx] at hfirst
        by_cases hretried : isRetried error = true
        · obtain ⟨calls, heq⟩ := ih shared' (events ++ [.invoked phase])
          refine ⟨calls + 1, ?_⟩
          rw [retry_again _ hfirst hretried, retry_again _ hx hretried, heq, List.replicate_succ]
          simp only [List.append_assoc, List.singleton_append]
        · refine ⟨1, ?_⟩
          rw [retry_of_final _ hfirst hretried, retry_of_final _ hx hretried]
          rfl

def RunState.leave (s : RunState σ) (traceId : String) (phase : Phase) (recovery : RecoveryResult α)
    (after : Shared σ × List Event) : RunState σ :=
  { s.fail traceId phase recovery after with
    machine := s.machine.moveTo .failed (phase.text ++ "_failed")
      (traceMetadata traceId ++ [("error", .str recovery.finalError)]) }

theorem transition_of_mem {s : RunState σ} {newState : SystemState}
    (h : newState ∈ s.machine.state.allowedTransitions) (reason : String) (metadata : Fields) :
    transition newState reason metadata s
      = .ok () { s with machine := s.machine.moveTo newState reason metadata } := by
  rw [transition, SystemStateMachine.transitionTo_of_mem h]

theorem failed_mem_allowed (phase : Phase) :
    SystemState.failed ∈ phase.targetState.allowedTransitions := by
  cases phase <;> decide

section RunPhase

variable {s : RunState σ} (traceId : String) {phase : Phase}
  {operation : EStateM Raised (Shared σ) (Option α)}
  (hallowed : phase.targetState ∈ s.machine.state.allowedTransitions)

include hallowed

theorem runPhase_of_recovery {recovery : RecoveryResult α} {after : Shared σ × List Event}
    (h : RecoveryManager.execute phase.text (invoke phase operation) phase.maxRetries
      (s.shared, s.events) = .ok recovery after) :
    runPhase traceId phase operation s =
      if recovery.success then
        .ok recovery.value ((s.enter traceId phase).complete traceId phase recovery after)
      else .ok none ((s.enter traceId phase).leave traceId phase recovery after) := by
  rw [runPhase, bind_of_ok (transition_of_mem hallowed _ _), bind_get]
  dsimp only
  rw [h]
  dsimp only
  split
  · rfl
  · show (transition .failed (phase.text ++ "_failed")
      (traceMetadata traceId ++ [("error", .str recovery.finalError)]) >>= fun _ => pure none) _ = _
    rw [bind_of_ok (transition_of_mem (failed_mem_allowed phase) _ _)]
    rfl

theorem runPhase_of_raise {error : Raised} {after : Shared σ × List Event}
    (h : RecoveryManager.execute phase.text (invoke phase operation) phase.maxRetries
      (s.shared, s.events) = .error error after) :
    runPhase traceId phase operation s
      = .error error { s.enter traceId phase with shared := after.1, events := after.2 } := by
  rw [runPhase, bind_of_ok (transition_of_mem hallowed _ _), bind_get]
  dsimp only
  rw [h]
  rfl

theorem runPhase_of_ok {value : Option α} {shared : Shared σ}
    (h : retry isRetried operation phase.maxRetries s.shared = .ok value shared) :
    ∃ attempts calls, runPhase traceId phase operation s =
      .ok value ((s.enter traceId phase).complete traceId phase
        (.succeeded value attempts : RecoveryResult α)
        (shared, s.events ++ List.replicate calls (.invoked phase))) := by
  obtain ⟨calls, hcalls⟩ := retry_invoke phase operation phase.maxRetries s.shared s.events
  have hrecovered := RecoveryManager.execute_recovered phase.text (invoke phase operation)
    phase.maxRetries (s.shared, s.events)
  rw [hcalls, h] at hrecovered
  generalize hexecute : RecoveryManager.execute phase.text (invoke phase operation) phase.maxRetries
    (s.shared, s.events) = executed at hrecovered
  cases hrecovered with
  | succeeded => exact ⟨_, calls, runPhase_of_recovery traceId hallowed hexecute⟩

theorem runPhase_of_error {error : Raised} {text : String} (htext : error.text = .ok text)
    {shared : Shared σ}
    (h : retry isRetried operation phase.maxRetries s.shared = .error error shared) :
    ∃ attempts calls, runPhase traceId phase operation s =
      .ok none ((s.enter traceId phase).leave traceId phase
        (.raised error text attempts : RecoveryResult α)
        (shared, s.events ++ List.replicate calls (.invoked phase))) := by
  obtain ⟨calls, hcalls⟩ := retry_invoke phase operation phase.maxRetries s.shared s.events
  have hrecovered := RecoveryManager.execute_recovered phase.text (invoke phase operation)
    phase.maxRetries (s.shared, s.events)
  rw [hcalls, h] at hrecovered
  generalize hexecute : RecoveryManager.execute phase.text (invoke phase operation) phase.maxRetries
    (s.shared, s.events) = executed at hrecovered
  cases hrecovered with
  | raised htext' =>
      obtain rfl := Except.ok.inj (htext.symm.trans htext')
      exact ⟨_, calls, runPhase_of_recovery traceId hallowed hexecute⟩
  | unprintable htext' => cases htext.symm.trans htext'

/-- The recovery itself raises on an exception without a text. -/
theorem runPhase_of_silent {error : Raised} {text : String} (htext : error.text = .error text)
    {shared : Shared σ}
    (h : retry isRetried operation phase.maxRetries s.shared = .error error shared) :
    ∃ s', runPhase traceId phase operation s = .error (.other text) s' ∧ s'.shared = shared := by
  obtain ⟨calls, hcalls⟩ := retry_invoke phase operation phase.maxRetries s.shared s.events
  have hrecovered := RecoveryManager.execute_recovered phase.text (invoke phase operation)
    phase.maxRetries (s.shared, s.events)
  rw [hcalls, h] at hrecovered
  generalize hexecute : RecoveryManager.execute phase.text (invoke phase operation) phase.maxRetries
    (s.shared, s.events) = executed at hrecovered
  cases hrecovered with
  | raised htext' => cases htext.symm.trans htext'
  | unprintable htext' =>
      obtain rfl := Except.error.inj (htext.symm.trans htext')
      exact ⟨_, runPhase_of_raise traceId hallowed hexecute, rfl⟩

end RunPhase

theorem retry_once {phase : Phase} (hmax : phase.maxRetries = 0)
    {operation : EStateM Raised (Shared σ) α} {shared : Shared σ}
    {result : EStateM.Result Raised (Shared σ) α} (h : operation shared = result) :
    retry isRetried operation phase.maxRetries shared = result := by
  rw [hmax]
  exact h

/-! ### Stages -/

def Phase.before : Phase → List Phase
  | planning => []
  | executing => [planning]
  | validating => [planning, executing]
  | reflecting => [planning, executing, validating]
  | improving => [planning, executing, validating, reflecting]

theorem Phase.before_concat (phase : Phase) : phase.before ++ [phase] <+: Phase.all := by
  cases phase <;> decide

/-- No operation is called before every earlier phase has completed. -/
def InOrder (events : List Event) : Prop :=
  ∀ past phase, past ++ [.invoked phase] <+: events →
    ∀ earlier ∈ phase.before, Event.completed earlier ∈ past

/-- The run has completed these phases and no other phase was begun. -/
structure Stage (done : List Phase) (s : RunState σ) : Prop where
  wellFormed : s.machine.WellFormed
  visited : s.machine.visited = done.map Phase.targetState
  phases : s.phaseTraces.map OrchestrationPhaseTrace.phase = done
  states : s.phaseTraces.map OrchestrationPhaseTrace.state = done.map Phase.targetState
  completed : ∀ trace ∈ s.phaseTraces, trace.status = .completed
  inOrder : InOrder s.events
  recorded : ∀ phase ∈ done, Event.completed phase ∈ s.events

/-- The run is in a terminal state, and its history is that of a run. -/
structure Ended (s : RunState σ) : Prop where
  wellFormed : s.machine.WellFormed
  terminal : s.machine.state.IsTerminal
  phases : s.phaseTraces.map OrchestrationPhaseTrace.phase <+: Phase.all
  states : s.phaseTraces.map OrchestrationPhaseTrace.state
    = s.phaseTraces.map fun trace => trace.phase.targetState
  visited : s.machine.visited
    = s.phaseTraces.map OrchestrationPhaseTrace.state ++ [s.machine.state]
  completed : ∀ trace ∈ s.phaseTraces.dropLast, trace.status = .completed
  failed : (∃ trace ∈ s.phaseTraces.getLast?, trace.status = .failed)
    ↔ s.machine.state = .failed
      ∧ s.phaseTraces.countP (·.status = .completed) < Phase.all.length
  inOrder : InOrder s.events

theorem InOrder.concat {events : List Event} (h : InOrder events) {event : Event}
    (hevent : ∀ phase, event = .invoked phase →
      ∀ earlier ∈ phase.before, Event.completed earlier ∈ events) :
    InOrder (events ++ [event]) := by
  intro past phase hpast
  rcases List.prefix_concat_iff.1 hpast with hwhole | hold
  · obtain ⟨rfl, hlast⟩ := List.append_inj' hwhole rfl
    exact hevent phase (List.cons.inj hlast).1.symm
  · exact h past phase hold

theorem InOrder.append_invoked {events : List Event} (h : InOrder events) {phase : Phase}
    (hbefore : ∀ earlier ∈ phase.before, Event.completed earlier ∈ events) (calls : ℕ) :
    InOrder (events ++ List.replicate calls (.invoked phase)) := by
  induction calls with
  | zero => simpa using h
  | succ calls ih =>
      rw [List.replicate_succ', ← List.append_assoc]
      apply ih.concat
      rintro _ ⟨⟩ earlier hearlier
      exact List.mem_append_left _ (hbefore earlier hearlier)

theorem stage_start (request : OrchestrationRequest H) (world : σ) :
    Stage [] (RunState.start request world) where
  wellFormed := SystemStateMachine.wellFormed_new _ _
  visited := rfl
  phases := rfl
  states := rfl
  completed := nofun
  inOrder := by
    intro past phase hpast
    exact absurd (List.prefix_nil.1 hpast) (by simp)
  recorded := nofun

/-- The machine is where the phases have left it. -/
theorem Stage.state {done : List Phase} {s : RunState σ} (h : Stage done s) :
    s.machine.state
      = (SystemState.initialized :: done.map Phase.targetState).getLast (List.cons_ne_nil _ _) := by
  have hchained := h.wellFormed.chained
  rw [h.visited] at hchained
  rw [← List.getLast_congr (by simp) (List.cons_ne_nil _ _) hchained, List.getLast_append_singleton]

section Phase

variable {s : RunState σ} {phase : Phase} (h : Stage phase.before s)

include h

theorem Stage.allowed : phase.targetState ∈ s.machine.state.allowedTransitions := by
  rw [h.state]
  cases phase <;> decide

theorem Stage.complete (traceId : String) (recovery : RecoveryResult α) (shared : Shared σ)
    (calls : ℕ) :
    Stage (phase.before ++ [phase]) ((s.enter traceId phase).complete traceId phase recovery
      (shared, s.events ++ List.replicate calls (.invoked phase))) where
  wellFormed := h.wellFormed.moveTo _ _ _
  visited := by
    show (s.machine.moveTo _ _ _).visited = _
    rw [SystemStateMachine.moveTo_visited, h.visited, List.map_append]
    rfl
  phases := by
    show (s.phaseTraces ++ [_]).map _ = _
    rw [List.map_append, h.phases]
    rfl
  states := by
    show (s.phaseTraces ++ [_]).map _ = _
    rw [List.map_append, h.states, List.map_append]
    rfl
  completed := by
    intro trace hmem
    rcases List.mem_append.1 hmem with hold | hnew
    · exact h.completed trace hold
    · rw [List.mem_singleton.1 hnew]
      rfl
  inOrder := (h.inOrder.append_invoked h.recorded calls).concat nofun
  recorded := by
    intro earlier hmem
    rcases List.mem_append.1 hmem with hold | hnew
    · exact List.mem_append_left _ (List.mem_append_left _ (h.recorded earlier hold))
    · exact List.mem_append_right _ (List.mem_singleton.1 hnew ▸ List.mem_singleton_self _)

theorem Stage.leave (traceId : String) (recovery : RecoveryResult α) (shared : Shared σ)
    (calls : ℕ) :
    Ended ((s.enter traceId phase).leave traceId phase recovery
      (shared, s.events ++ List.replicate calls (.invoked phase))) where
  wellFormed := (h.wellFormed.moveTo _ _ _).moveTo _ _ _
  terminal := .inr rfl
  phases := by
    show (s.phaseTraces ++ [failedTrace traceId phase recovery]).map _ <+: _
    rw [List.map_append, h.phases]
    exact phase.before_concat
  states := by
    show (s.phaseTraces ++ [failedTrace traceId phase recovery]).map _
      = (s.phaseTraces ++ [failedTrace traceId phase recovery]).map _
    rw [List.map_append, List.map_append, h.states, ← h.phases, List.map_map]
    rfl
  visited := by
    show ((s.machine.moveTo _ _ _).moveTo _ _ _).visited
      = (s.phaseTraces ++ [failedTrace traceId phase recovery]).map _ ++ _
    rw [SystemStateMachine.moveTo_visited, SystemStateMachine.moveTo_visited, h.visited,
      List.map_append, h.states]
    rfl
  completed := by
    show ∀ trace ∈ (s.phaseTraces ++ [failedTrace traceId phase recovery]).dropLast, _
    rw [List.dropLast_concat]
    exact h.completed
  failed := by
    refine iff_of_true ⟨_, List.getLast?_concat, rfl⟩ ⟨rfl, ?_⟩
    show (s.phaseTraces ++ [failedTrace traceId phase recovery]).countP _ < _
    rw [List.countP_append]
    have hbefore : s.phaseTraces.countP (·.status = .completed) ≤ phase.before.length := by
      rw [← h.phases, List.length_map]
      exact List.countP_le_length
    have hlength : phase.before.length < Phase.all.length := by
      have hle := phase.before_concat.length_le
      rwa [List.length_append] at hle
    exact Nat.lt_of_le_of_lt hbefore hlength
  inOrder := h.inOrder.append_invoked h.recorded calls

/-- **A phase that completes.** -/
theorem Stage.run_of_ok (traceId : String) {operation : EStateM Raised (Shared σ) (Option α)}
    {value : Option α} {shared : Shared σ}
    (hoperation : retry isRetried operation phase.maxRetries s.shared = .ok value shared) :
    ∃ s', runPhase traceId phase operation s = .ok value s' ∧ s'.shared = shared
      ∧ s'.machine.state = phase.targetState ∧ Stage (phase.before ++ [phase]) s' := by
  obtain ⟨attempts, calls, hrun⟩ := runPhase_of_ok traceId h.allowed hoperation
  exact ⟨_, hrun, rfl, rfl, h.complete traceId _ shared calls⟩

/-- **A phase that fails.** -/
theorem Stage.run_of_error (traceId : String) {operation : EStateM Raised (Shared σ) (Option α)}
    {error : Raised} {text : String} (htext : error.text = .ok text) {shared : Shared σ}
    (hoperation : retry isRetried operation phase.maxRetries s.shared = .error error shared) :
    ∃ s', runPhase traceId phase operation s = .ok none s' ∧ s'.shared = shared
      ∧ s'.machine.state = .failed ∧ Ended s' := by
  obtain ⟨attempts, calls, hrun⟩ := runPhase_of_error traceId h.allowed htext hoperation
  exact ⟨_, hrun, rfl, rfl, h.leave traceId _ shared calls⟩

theorem Stage.run_some_of_ok (traceId : String) (hmax : phase.maxRetries = 0)
    {operation : EStateM Raised (Shared σ) α} {value : α} {shared : Shared σ}
    (hoperation : operation s.shared = .ok value shared) :
    ∃ s', runPhase traceId phase (some <$> operation) s = .ok (some value) s' ∧ s'.shared = shared
      ∧ s'.machine.state = phase.targetState ∧ Stage (phase.before ++ [phase]) s' :=
  h.run_of_ok traceId (retry_once hmax (map_of_ok some hoperation))

end Phase

/-- A run that has completed every phase ends in the state it is moved to. -/
theorem Stage.finish {s : RunState σ} (h : Stage Phase.all s) {newState : SystemState}
    (hterminal : newState.IsTerminal) (reason : String) (metadata : Fields) :
    Ended { s with machine := s.machine.moveTo newState reason metadata } where
  wellFormed := h.wellFormed.moveTo _ _ _
  terminal := hterminal
  phases := by
    show s.phaseTraces.map _ <+: _
    rw [h.phases]
  states := by
    show s.phaseTraces.map _ = s.phaseTraces.map _
    rw [h.states, ← h.phases, List.map_map]
    rfl
  visited := by
    show (s.machine.moveTo _ _ _).visited = s.phaseTraces.map _ ++ _
    rw [SystemStateMachine.moveTo_visited, h.visited, h.states]
    rfl
  completed := fun trace hmem => h.completed trace (List.dropLast_subset _ hmem)
  failed := by
    refine iff_of_false ?_ ?_
    · rintro ⟨trace, hlast, hfailed⟩
      rw [h.completed trace (List.mem_of_getLast? hlast)] at hfailed
      cases hfailed
    · rintro ⟨_, hcount⟩
      have hall : s.phaseTraces.countP (·.status = .completed) = s.phaseTraces.length :=
        List.countP_eq_length.2 fun trace hmem => decide_eq_true (h.completed trace hmem)
      rw [← h.phases, List.length_map] at hcount
      exact absurd hall (Nat.ne_of_lt hcount)
  inOrder := h.inOrder

/-! ### The run -/

/-- The execution engine, called again after a transient failure. -/
def executionCalls (controller : OrchestrationController σ T P H R A)
    (request : OrchestrationRequest H) (plan : P) : EStateM Raised σ (Option R) :=
  retry isRetried (controller.executionEngine plan request.handlers controller.stopOnFailure)
    Phase.executing.maxRetries

def lifecycleAfterExecuting (controller : OrchestrationController σ T P H R A)
    (request : OrchestrationRequest H) (report : R) :
    EStateM Raised (Shared σ) (Option R) := do
  let _ ← observing (controller.reports.validateExecutionReport report)
  let _ ← reflect controller request report
  let _ ← improve controller
  return some report

def lifecycleAfterPlanning (controller : OrchestrationController σ T P H R A)
    (request : OrchestrationRequest H) (plan : P) :
    EStateM Raised (Shared σ) (Option R) := do
  let some report ← onWorld (executionCalls controller request plan) | return none
  lifecycleAfterExecuting controller request report

/-- What the phases do to the world and to the ids: it gives the report once every phase has completed,
and `none` if an engine answers `None`. -/
def lifecycle (controller : OrchestrationController σ T P H R A) (request : OrchestrationRequest H) :
    EStateM Raised (Shared σ) (Option R) := do
  let some plan ← onWorld (controller.planningEngine (defaultTasks request)) | return none
  lifecycleAfterPlanning controller request plan

theorem onWorld_of_ok {call : EStateM Raised σ α} {shared : Shared σ} {value : α} {world : σ}
    (h : call shared.world = .ok value world) :
    onWorld call shared = .ok value { shared with world } := by
  simp only [onWorld, h]

theorem onWorld_of_error {call : EStateM Raised σ α} {shared : Shared σ} {error : Raised} {world : σ}
    (h : call shared.world = .error error world) :
    onWorld call shared = .error error { shared with world } := by
  simp only [onWorld, h]

/-- A call that is tried again changes the world alone. -/
theorem retry_onWorld (call : EStateM Raised σ α) (retries : ℕ) (shared : Shared σ) :
    retry isRetried (onWorld call) retries shared
      = onWorld (retry isRetried call retries) shared := by
  induction retries generalizing shared with
  | zero => rfl
  | succ retries ih =>
      rcases hcall : call shared.world with ⟨value, world⟩ | ⟨error, world⟩
      · rw [retry_of_ok _ (onWorld_of_ok hcall), onWorld_of_ok (retry_of_ok _ hcall)]
      · by_cases hretried : isRetried error = true
        · rw [retry_again _ (onWorld_of_error hcall) hretried, ih]
          simp only [onWorld, retry_again _ hcall hretried]
        · rw [retry_of_final _ (onWorld_of_error hcall) hretried,
            onWorld_of_error (retry_of_final _ hcall hretried)]

/-- The state that the status of a report calls for. -/
def terminalState (status : ExecutionStatus) : SystemState :=
  if status = .failed then .failed else .completed

theorem terminalState_mem_allowed (status : ExecutionStatus) :
    terminalState status ∈ Phase.improving.targetState.allowedTransitions := by
  unfold terminalState
  split <;> decide

/-- **How a run ends**, for what its lifecycle comes to. -/
inductive LifecycleEnd (reports : Reports σ R) (request : OrchestrationRequest H) :
    EStateM.Result Raised (Shared σ) (Option R) →
      EStateM.Result Raised (RunState σ) (OrchestrationResult P R A) → Prop
  | failed {error : Raised} {s : RunState σ} {plan : Option P} {report : Option R}
      {validation reflection : Option Fields} {text : String} (htext : error.HasText)
      (hended : Ended s) (hfailed : s.machine.state = .failed) :
      LifecycleEnd reports request (.error error s.shared)
        (.ok (buildResult request s plan report validation reflection none text) s)
  | silent {error : Raised} {s : RunState σ} {text : String} (htext : error.text = .error text) :
      LifecycleEnd reports request (.error error s.shared) (.error (.other text) s)
  | answeredNone {s : RunState σ} {plan : Option P} {text : String}
      (hstate : s.machine.state = .planning ∨ s.machine.state = .executing) :
      LifecycleEnd reports request (.ok none s.shared)
        (.ok (buildResult request s plan none none none none text) s)
  | finished {report : R} {status : ExecutionStatus} {validation reflection : Fields}
      {s : RunState σ} {plan : P} {improvement : AdaptationResult A}
      (hstatus : reports.status report s.shared.world = .ok status) (hended : Ended s)
      (hstate : s.machine.state = terminalState status) :
      LifecycleEnd reports request (.ok (some report) s.shared)
        (.ok (buildResult request s (some plan) (some report) (some validation) (some reflection)
          (some improvement) "") s)
  | unreadable {report : R} {error : Raised} {s : RunState σ}
      (hstatus : reports.status report s.shared.world = .error error) :
      LifecycleEnd reports request (.ok (some report) s.shared) (.error error s)

section Phases

variable (controller : OrchestrationController σ T P H R A) (request : OrchestrationRequest H)

/-- `runPhases` after the last phase. -/
def runAfterImproving (plan : P) (report : R) (validation reflection : Fields)
    (improvement : AdaptationResult A) : EStateM Raised (RunState σ) (OrchestrationResult P R A) := do
  let s ← get
  let status ← reading (controller.reports.status report s.shared.world)
  if status = .failed then
    transition .failed "execution_report_failed" (traceMetadata (traceIdOf request))
  else
    transition .completed "run_completed" (traceMetadata (traceIdOf request))
  let s ← get
  return buildResult request s (some plan) (some report) (some validation) (some reflection)
    (some improvement) ""

/-- `runPhases` once the execution engine has answered. -/
def runAfterExecuting (plan : P) (report : R) :
    EStateM Raised (RunState σ) (OrchestrationResult P R A) := do
  let traceId := traceIdOf request
  let some validation ← runPhase traceId .validating
      (some <$> observing (controller.reports.validateExecutionReport report))
    | stopped request (some plan) (some report) none none
  let some reflection ← runPhase traceId .reflecting (some <$> reflect controller request report)
    | stopped request (some plan) (some report) (some validation) none
  let some improvement ← runPhase traceId .improving (some <$> improve controller)
    | stopped request (some plan) (some report) (some validation) (some reflection)
  runAfterImproving controller request plan report validation reflection improvement

/-- `runPhases` once the planning engine has answered. -/
def runAfterPlanning (plan : P) : EStateM Raised (RunState σ) (OrchestrationResult P R A) := do
  let some report ← runPhase (traceIdOf request) .executing
      (onWorld (controller.executionEngine plan request.handlers controller.stopOnFailure))
    | stopped request (some plan) none none none
  runAfterExecuting controller request plan report

theorem runPhases_eq : runPhases controller request = (do
    let some plan ← runPhase (traceIdOf request) .planning
        (onWorld (controller.planningEngine (defaultTasks request)))
      | stopped request none none none none
    runAfterPlanning controller request plan) := rfl

variable {controller request}

/-- **A phase that ends the run**: its operation raises, and the run stops or raises itself. -/
theorem Stage.lifecycleEnd {phase : Phase} {s : RunState σ} (h : Stage phase.before s)
    {operation : EStateM Raised (Shared σ) (Option α)} {error : Raised} {shared : Shared σ}
    (hoperation : retry isRetried operation phase.maxRetries s.shared = .error error shared)
    (reports : Reports σ R) {next : Option α → EStateM Raised (RunState σ) (OrchestrationResult P R A)}
    {plan : Option P} {report : Option R} {validation reflection : Option Fields}
    (hnext : next none = stopped request plan report validation reflection) :
    LifecycleEnd reports request (.error error shared)
      ((runPhase (traceIdOf request) phase operation >>= next) s) := by
  rcases htext : error.text with text | text
  · obtain ⟨s', hrun, rfl⟩ := runPhase_of_silent (traceIdOf request) h.allowed htext hoperation
    rw [bind_of_error hrun]
    exact .silent htext
  · obtain ⟨s', hrun, rfl, hfailed, hended⟩ := h.run_of_error (traceIdOf request) htext hoperation
    rw [bind_of_ok hrun, hnext]
    exact .failed ⟨text, htext⟩ hended hfailed

theorem Stage.lifecycleEnd_some {phase : Phase} {s : RunState σ} (h : Stage phase.before s)
    (hmax : phase.maxRetries = 0) {operation : EStateM Raised (Shared σ) α} {error : Raised}
    {shared : Shared σ} (hoperation : operation s.shared = .error error shared)
    (reports : Reports σ R) {next : Option α → EStateM Raised (RunState σ) (OrchestrationResult P R A)}
    {plan : Option P} {report : Option R} {validation reflection : Option Fields}
    (hnext : next none = stopped request plan report validation reflection) :
    LifecycleEnd reports request (.error error shared)
      ((runPhase (traceIdOf request) phase (some <$> operation) >>= next) s) :=
  h.lifecycleEnd (retry_once hmax (map_of_error some hoperation)) reports hnext

theorem runAfterImproving_lifecycle {plan : P} {report : R} {validation reflection : Fields}
    {improvement : AdaptationResult A} {s : RunState σ} (hstage : Stage Phase.all s)
    (hstate : s.machine.state = Phase.improving.targetState) :
    LifecycleEnd controller.reports request (.ok (some report) s.shared)
      (runAfterImproving controller request plan report validation reflection improvement s) := by
  rw [runAfterImproving, bind_get]
  rcases hstatus : controller.reports.status report s.shared.world with error | status
  · exact .unreadable hstatus
  · have hread : (reading (Except.ok status) : EStateM Raised (RunState σ) _) s = .ok status s := rfl
    have hallowed : terminalState status ∈ s.machine.state.allowedTransitions := by
      rw [hstate]
      exact terminalState_mem_allowed status
    rw [bind_of_ok hread]
    by_cases hfailed : status = .failed
    · rw [terminalState, if_pos hfailed] at hallowed
      rw [if_pos hfailed, bind_of_ok (transition_of_mem hallowed _ _)]
      exact .finished (s := { s with machine := s.machine.moveTo .failed _ _ }) hstatus
        (hstage.finish (.inr rfl) _ _) (if_pos hfailed).symm
    · rw [terminalState, if_neg hfailed] at hallowed
      rw [if_neg hfailed, bind_of_ok (transition_of_mem hallowed _ _)]
      exact .finished (s := { s with machine := s.machine.moveTo .completed _ _ }) hstatus
        (hstage.finish (.inl rfl) _ _) (if_neg hfailed).symm

theorem runAfterExecuting_lifecycle {plan : P} {report : R} {s : RunState σ}
    (hexecuted : Stage Phase.validating.before s) :
    LifecycleEnd controller.reports request
      (lifecycleAfterExecuting controller request report s.shared)
      (runAfterExecuting controller request plan report s) := by
  rw [runAfterExecuting, lifecycleAfterExecuting]
  rcases hvalid : observing (controller.reports.validateExecutionReport report) s.shared with
    ⟨summary, shared⟩ | ⟨error, shared⟩
  rotate_left
  · rw [bind_of_error hvalid]
    exact hexecuted.lifecycleEnd_some rfl hvalid _ rfl
  obtain ⟨s₁, hrun, rfl, _, hvalidated⟩ :=
    hexecuted.run_some_of_ok (traceIdOf request) rfl hvalid
  rw [bind_of_ok hrun, bind_of_ok hvalid]
  dsimp only
  replace hvalidated : Stage Phase.reflecting.before s₁ := hvalidated
  rcases hreflect : reflect controller request report s₁.shared with
    ⟨reflection, shared⟩ | ⟨error, shared⟩
  rotate_left
  · rw [bind_of_error hreflect]
    exact hvalidated.lifecycleEnd_some rfl hreflect _ rfl
  obtain ⟨s₂, hrun, rfl, _, hreflected⟩ :=
    hvalidated.run_some_of_ok (traceIdOf request) rfl hreflect
  rw [bind_of_ok hrun, bind_of_ok hreflect]
  dsimp only
  replace hreflected : Stage Phase.improving.before s₂ := hreflected
  rcases himprove : improve controller s₂.shared with ⟨improvement, shared⟩ | ⟨error, shared⟩
  rotate_left
  · rw [bind_of_error himprove]
    exact hreflected.lifecycleEnd_some rfl himprove _ rfl
  obtain ⟨s₃, hrun, rfl, hstate, himproved⟩ :=
    hreflected.run_some_of_ok (traceIdOf request) rfl himprove
  rw [bind_of_ok hrun, bind_of_ok himprove]
  exact runAfterImproving_lifecycle himproved hstate

theorem runAfterPlanning_lifecycle {plan : P} {s : RunState σ}
    (hplanned : Stage Phase.executing.before s) :
    LifecycleEnd controller.reports request
      (lifecycleAfterPlanning controller request plan s.shared)
      (runAfterPlanning controller request plan s) := by
  rw [runAfterPlanning, lifecycleAfterPlanning]
  have hcalls := retry_onWorld
    (controller.executionEngine plan request.handlers controller.stopOnFailure)
    Phase.executing.maxRetries s.shared
  rcases hexecute : onWorld (executionCalls controller request plan) s.shared with
    ⟨_ | report, shared⟩ | ⟨error, shared⟩
  · obtain ⟨s₁, hrun, rfl, hstate, _⟩ :=
      hplanned.run_of_ok (traceIdOf request) (hcalls.trans hexecute)
    rw [bind_of_ok hrun, bind_of_ok hexecute]
    exact .answeredNone (.inr hstate)
  · obtain ⟨s₁, hrun, rfl, _, hexecuted⟩ :=
      hplanned.run_of_ok (traceIdOf request) (hcalls.trans hexecute)
    rw [bind_of_ok hrun, bind_of_ok hexecute]
    exact runAfterExecuting_lifecycle hexecuted
  · rw [bind_of_error hexecute]
    exact hplanned.lifecycleEnd (hcalls.trans hexecute) _ rfl

end Phases

theorem run_lifecycle (controller : OrchestrationController σ T P H R A)
    (request : OrchestrationRequest H) (world : σ) :
    LifecycleEnd controller.reports request (lifecycle controller request ⟨world, []⟩)
      (run controller request world) := by
  have hstart : Stage Phase.planning.before (RunState.start request world) := stage_start request world
  rw [run, runPhases_eq, lifecycle]
  rcases hplan : onWorld (controller.planningEngine (defaultTasks request)) ⟨world, []⟩ with
    ⟨_ | plan, shared⟩ | ⟨error, shared⟩
  · obtain ⟨s, hrun, rfl, hstate, _⟩ := hstart.run_of_ok (traceIdOf request) (retry_once rfl hplan)
    rw [bind_of_ok hrun, bind_of_ok hplan]
    exact .answeredNone (.inl hstate)
  · obtain ⟨s, hrun, rfl, _, hplanned⟩ := hstart.run_of_ok (traceIdOf request) (retry_once rfl hplan)
    rw [bind_of_ok hrun, bind_of_ok hplan]
    exact runAfterPlanning_lifecycle hplanned
  · rw [bind_of_error hplan]
    exact hstart.lifecycleEnd (retry_once rfl hplan) _ rfl

end PersonalDevin.Orchestration
