import PersonalDevin.Agent.Runs

/-!
# What a run of the loop controller answers for

A run counts every executor call as an iteration and saves one record for it, and stops at the first
violation and at the failure threshold. It reports success only if the calls that succeeded last are
the steps of the plan it ends on, provided that no completed step has changed since it was executed.
That can happen where the planner is asked to adjust the plan and answers with no plan: the active one
is then normalized once more, and a step without dependencies gets an empty list of them. The run
raises where the memory calls something recent that has no length.
-/

namespace PersonalDevin.Agent

open Lib

variable {σ F : Type}

def RawPlan.StartsAtZero (rawPlan : RawPlan) : Prop :=
  ∃ plan, normalizeStepPlan rawPlan none = some plan ∧ plan.currentStep = 0

/-- The planner's plans start at position 0, and a plan it repairs with has a position. -/
structure PlansFromZero (env : Env σ) : Prop where
  created : ∀ world state context, (env.createPlan world state context).1.StartsAtZero
  repaired : ∀ repair ∈ env.repairStep, ∀ world step state context,
    (normalizeStepPlan (.value (repair world step state context).1) none).isSome = true

/-- What `_normalize_step_plan` does not take its fallback for. -/
def RawPlan.isPlan : RawPlan → Bool
  | .value (.dict _) => true
  | .orderedTasks _ => true
  | .value _ => false

/-- `_normalize_step` keeps the step. -/
structure Step.Settled (step : Step) : Prop where
  action : step.action ≠ ""
  dependencies : step.dependencies.isSome = true

/-- Where the active plan is read again for want of a plan, its completed steps stay what they are. -/
def LoopHead.Settled (env : Env σ) (head : LoopHead σ F) : Prop :=
  ∀ active, head.state.activePlan = some active → head.state.lastDecision = some .adjustPlan →
    (env.createPlan head.world (head.state.attempt (head.iteration + 1))
      head.state.memoryContext).1.isPlan = false →
    ∀ step ∈ active.completed, step.Settled

def ExecutorCall.violated (call : ExecutorCall) : Bool :=
  !call.succeeded
    && (classifyResult call.result).errorType ∈ ["policy_violation", "security_violation"]

def failedCalls (trace : List (Event F)) : List ExecutorCall :=
  (executorCalls trace).filter fun call => !call.succeeded

def successfulSteps (trace : List (Event F)) : List Step :=
  ((executorCalls trace).filter ExecutorCall.succeeded).map ExecutorCall.step

def Event.isEffect : Event F → Bool
  | .started _ _ => false
  | .planned _ _ => false
  | .executed _ _ _ => true
  | .decided _ => true
  | .saved _ _ => true

/-- A turn without its planning: the call, the decision and the saved record. -/
def Turn.effects (turn : Turn F) : List (Event F) :=
  [.executed turn.plan.currentStep turn.step turn.result, .decided turn.decision,
    .saved turn.record turn.after]

/-- What a run that returned answers for. -/
structure SoundRun (config : Config) (trace : List (Event F)) (result : RunResult) : Prop where
  iterations_eq : result.iterations = (executorCalls trace).length
  iterations_le : (result.iterations : ℤ) ≤ max 0 config.maxIterations
  saved : ∃ turns : List (Turn F), trace.filter Event.isEffect = turns.flatMap Turn.effects
    ∧ ∀ turn ∈ turns, turn.record.result = turn.result ∧ turn.record.decision = turn.decision
  failures_le : ((failedCalls trace).length : ℤ) ≤ max 1 config.failureThreshold
  failures_eq : result.reason = some "failure_threshold" →
    ((failedCalls trace).length : ℤ) = max 1 config.failureThreshold
  violation_last : ∀ call ∈ (executorCalls trace).dropLast, call.violated = false
  violation_escalates : ∀ call ∈ executorCalls trace, call.violated = true →
    result.status = .failed ∧ result.reason = some "escalated"

/-- Success is reported of executed steps. -/
def SuccessSound (trace : List (Event F)) (result : RunResult) (plan : Option StepPlan) : Prop :=
  result.status = .success → ∃ active, plan = some active ∧ active.steps <:+ successfulSteps trace

/-- The invariant of the loop. -/
structure SoundInv [ScoreArith F] (config : Config) (turns : List (Turn F)) (past : List (Event F))
    (head : LoopHead σ F) : Prop where
  turns_inv : TurnsInv turns past head
  iteration_eq : head.iteration = (executorCalls past).length
  iteration_le : (head.iteration : ℤ) ≤ max 0 config.maxIterations
  failures_eq : head.failures = (failedCalls past).length
  failures_lt : (head.failures : ℤ) < max 1 config.failureThreshold
  no_violation : ∀ call ∈ executorCalls past, call.violated = false

/-- The completed steps of the active plan are the ones that succeeded last. -/
def CompletedInv (past : List (Event F)) (head : LoopHead σ F) : Prop :=
  ∀ plan, head.state.activePlan = some plan → plan.completed <:+ successfulSteps past

/-! ### The counters through a turn -/

theorem executorCalls_concat (past : List (Event F)) (turn : Turn F) :
    executorCalls (past ++ turn.events) = executorCalls past ++ [turn.toCall.executorCall] := by
  rw [executorCalls_append, executorCalls_turn]

theorem length_failedCalls_concat (past : List (Event F)) (turn : Turn F) :
    (failedCalls (past ++ turn.events)).length
      = (failedCalls past).length + if turn.success then 0 else 1 := by
  have hsucceeded : turn.toCall.executorCall.succeeded = turn.success := rfl
  rw [failedCalls, executorCalls_concat, List.filter_append, List.length_append,
    List.filter_singleton, hsucceeded]
  cases turn.success <;> rfl

theorem successfulSteps_concat (past : List (Event F)) (turn : Turn F) :
    successfulSteps (past ++ turn.events)
      = successfulSteps past ++ if turn.success then [turn.step] else [] := by
  have hsucceeded : turn.toCall.executorCall.succeeded = turn.success := rfl
  rw [successfulSteps, executorCalls_concat, List.filter_append, List.map_append,
    List.filter_singleton, hsucceeded]
  cases turn.success <;> rfl

theorem effects_flatMap (turns : List (Turn F)) :
    (turns.flatMap Turn.events).filter Event.isEffect = turns.flatMap Turn.effects := by
  rw [List.filter_flatMap]
  rfl

/-- A violation is never credited, and the controller escalates it. -/
theorem escalates_of_violated {env : Env σ} {head : LoopHead σ F} {call : Call F}
    (hcall : CallAt env head call) (h : call.executorCall.violated = true) :
    call.success = false ∧ call.decision = .escalate := by
  have hviolated : (!call.success
      && decide (call.pattern ∈ ["policy_violation", "security_violation"])) = true := h
  rw [Bool.and_eq_true, Bool.not_eq_true', decide_eq_true_eq] at hviolated
  exact ⟨hviolated.1, hcall.violation hviolated.1 hviolated.2⟩

/-! ### The plan of an iteration -/

theorem normalizeStep_toFields (step : Step) (index : ℕ) :
    normalizeStep (.dict step.toFields) index
      = { step with
          action := if step.action = "" then stepName index else step.action
          dependencies := some (step.dependencies.getD []) } := by
  obtain ⟨id, action, dependencies, metadata⟩ := step
  cases dependencies <;> by_cases haction : action = "" <;>
    simp [normalizeStep, Step.toFields, Fields.get?, List.lookup_cons, firstTruthy, Value.truthy,
      Value.pyStr, Function.comp_def, haction]

theorem normalizeStep_toFields_iff (step : Step) (index : ℕ) :
    normalizeStep (.dict step.toFields) index = step ↔ step.Settled := by
  rw [normalizeStep_toFields]
  constructor
  · intro heq
    have haction := congrArg Step.action heq
    have hdependencies := congrArg Step.dependencies heq
    refine ⟨fun hempty => ?_, hdependencies ▸ rfl⟩
    simp [hempty, stepName] at haction
  · rintro ⟨haction, hdependencies⟩
    rw [if_neg haction, ← Option.some_get hdependencies, Option.getD_some, Option.some_get]

/-- A plan is made of the planner's answer alone, or is the active one, normalized once more. -/
theorem normalizeStepPlan_cases (rawPlan : RawPlan) (fallback : Option StepPlan) :
    normalizeStepPlan rawPlan fallback = normalizeStepPlan rawPlan none
      ∨ ∃ active, fallback = some active ∧ rawPlan.isPlan = false
        ∧ normalizeStepPlan rawPlan fallback = some
          { steps := active.steps.mapIdx fun index step => normalizeStep (.dict step.toFields) index
            currentStep := active.currentStep } := by
  rcases rawPlan with value | tasks
  · cases value with
    | dict fields => exact .inl (by simp only [normalizeStepPlan])
    | _ =>
        cases fallback with
        | none => exact .inl rfl
        | some active => exact .inr ⟨active, rfl, rfl, rfl⟩
  · exact .inl rfl

theorem normalizeStepPlan_isSome {rawPlan : RawPlan}
    (h : (normalizeStepPlan rawPlan none).isSome = true) (fallback : Option StepPlan) :
    (normalizeStepPlan rawPlan fallback).isSome = true := by
  rcases normalizeStepPlan_cases rawPlan fallback with heq | ⟨_, _, _, heq⟩
  · rwa [heq]
  · rw [heq]
    rfl

theorem ensureStepPlan_isSome {env : Env σ} (h : PlansFromZero env) (world : σ)
    (state : LoopState) : (ensureStepPlan env world state).isSome = true := by
  rcases ensureStepPlan_cases env world state with ⟨_, _, _, hkept⟩ | ⟨_, hcreated⟩
  · rw [hkept]
    rfl
  · obtain ⟨plan, hplan, _⟩ := h.created world state state.memoryContext
    rw [hcreated, Option.isSome_map]
    exact normalizeStepPlan_isSome (Option.isSome_of_eq_some hplan) _

theorem normalizeRepairCandidate_isSome {candidate : Value}
    (h : (normalizeStepPlan (.value candidate) none).isSome = true) (index : ℕ)
    (fallbackStep : Step) : (normalizeRepairCandidate candidate index fallbackStep).isSome = true := by
  unfold normalizeRepairCandidate
  split
  · split
    · rwa [Option.isSome_map]
    · rfl
  · rfl
  · rfl

/-- A plan with settled steps behind it has them behind it when it is normalized once more. -/
theorem completed_readAgain {plan : StepPlan} (h : ∀ step ∈ plan.completed, step.Settled) :
    StepPlan.completed
      { steps := plan.steps.mapIdx fun index step => normalizeStep (.dict step.toFields) index
        currentStep := plan.currentStep } = plan.completed := by
  refine List.ext_getElem? fun index => ?_
  simp only [StepPlan.completed, List.getElem?_take, List.getElem?_mapIdx]
  split
  · rename_i hbelow
    rcases hstep : plan.steps[index]? with _ | step
    · rfl
    · have hmem : step ∈ plan.completed :=
        List.mem_of_getElem? (by rw [StepPlan.completed, List.getElem?_take, if_pos hbelow, hstep])
      rw [Option.map_some, (normalizeStep_toFields_iff step index).2 (h step hmem)]
  · rfl

theorem repairPlan_isSome {env : Env σ} (h : PlansFromZero env) (world : σ) (state : LoopState)
    (plan : StepPlan) (step : Step) (decision : Decision) :
    (repairPlan env world state plan step decision).isSome = true := by
  unfold repairPlan
  split
  · rw [Option.isSome_map]
    unfold repairStep
    split
    · rename_i repair hrepair
      rw [Option.isSome_map]
      exact normalizeRepairCandidate_isSome (h.repaired repair hrepair _ _ _ _) _ _
    · obtain ⟨_, hplan, _⟩ := h.created world state state.memoryContext
      rw [Option.isSome_map]
      exact normalizeStepPlan_isSome (Option.isSome_of_eq_some hplan) _
  · rfl

section Step

variable [ScoreArith F] {env : Env σ} {config : Config} {turns : List (Turn F)}
  {past events : List (Event F)} {head : LoopHead σ F}

omit [ScoreArith F] in
/-- A plan made now has nothing behind it, the active plan only what has succeeded. -/
theorem CompletedInv.planned (h : CompletedInv past head) (hplans : PlansFromZero env)
    (hsettled : head.Settled env) {state : LoopState}
    (hstate : state = head.state.attempt (head.iteration + 1)) {fresh : Bool} {plan : StepPlan}
    {world : σ} (hplanned : ensureStepPlan env head.world state = some (fresh, plan, world)) :
    plan.completed <:+ successfulSteps past := by
  subst hstate
  rcases ensureStepPlan_cases env head.world (head.state.attempt (head.iteration + 1)) with
    ⟨active, hactive, _, hkept⟩ | ⟨hwhen, hcreated⟩
  · obtain ⟨_, rfl, _⟩ := (Prod.mk.inj (Option.some.inj (hkept.symm.trans hplanned))).imp_right
      Prod.mk.inj
    exact h active hactive
  · obtain ⟨made, hmade, heq⟩ := Option.map_eq_some_iff.1 (hcreated.symm.trans hplanned)
    obtain ⟨_, rfl, _⟩ := (Prod.mk.inj heq).imp_right Prod.mk.inj
    rcases normalizeStepPlan_cases (env.createPlan head.world
        (head.state.attempt (head.iteration + 1)) head.state.memoryContext).1
        head.state.activePlan with hnew | ⟨active, hactive, hplan, hagain⟩
    · obtain ⟨plan, hplan, hposition⟩ := hplans.created head.world
        (head.state.attempt (head.iteration + 1)) head.state.memoryContext
      obtain rfl : plan = made := Option.some.inj (hplan.symm.trans (hnew.symm.trans hmade))
      rw [StepPlan.completed, hposition, List.take_zero]
      exact List.nil_suffix
    · have hadjust : head.state.lastDecision = some .adjustPlan := by
        rcases hwhen with hnone | hadjust
        · exact absurd (hactive.symm.trans hnone) (Option.some_ne_none _)
        · exact hadjust
      obtain rfl := Option.some.inj (hagain.symm.trans hmade)
      rw [completed_readAgain (hsettled active hactive hadjust hplan)]
      exact h active hactive

omit [ScoreArith F] in
theorem CompletedInv.carried (h : CompletedInv past head) (hplans : PlansFromZero env)
    (hsettled : head.Settled env) {turn : Turn F} {plan : StepPlan}
    (hcall : CallAt env head turn.toCall) (hcarried : Carried turn.toCall plan) :
    plan.completed <:+ successfulSteps (past ++ turn.events) := by
  obtain ⟨world, hplanned⟩ := hcall.planned
  rw [hcarried.completed_eq, successfulSteps_concat]
  exact List.suffix_append_self_iff.2 (h.planned hplans hsettled hcall.state_eq hplanned)

theorem CompletedInv.next (h : CompletedInv past head) (hplans : PlansFromZero env)
    (hsettled : head.iteration < config.maxIterations → head.Settled env) {head' : LoopHead σ F}
    (hiteration : Iteration env config head events (.next head')) :
    CompletedInv (past ++ events) head' := by
  cases hiteration with
  | turn hmax hcall _ hend =>
      cases hend with
      | next hcarried hplan =>
          intro active hactive
          obtain rfl : _ = active := Option.some.inj (hplan ▸ hactive)
          exact h.carried hplans (hsettled hmax) hcall hcarried

/-- An iteration without a call answers for what the run has done before. -/
theorem SoundInv.stop_without_call (h : SoundInv config turns past head) {result : RunResult}
    (hcalls : executorCalls events = [])
    (heffects : events.filter Event.isEffect = [])
    (hiterations : result.iterations = head.iteration)
    (hreason : result.reason ≠ some "failure_threshold") :
    SoundRun config (past ++ events) result := by
  have hall : executorCalls (past ++ events) = executorCalls past := by
    rw [executorCalls_append, hcalls, List.append_nil]
  have hfailed : failedCalls (past ++ events) = failedCalls past := by
    rw [failedCalls, hall]
    rfl
  constructor
  · rw [hiterations, hall]
    exact h.iteration_eq
  · rw [hiterations]
    exact h.iteration_le
  · refine ⟨turns, ?_, fun turn hmem => ?_⟩
    · rw [List.filter_append, heffects, List.append_nil, h.turns_inv.past_eq, effects_flatMap]
    · have hsaved := h.turns_inv.saved turn hmem
      exact ⟨hsaved.result_eq, hsaved.decision_eq⟩
  · rw [hfailed, ← h.failures_eq]
    exact h.failures_lt.le
  · exact fun heq => absurd heq hreason
  · rw [hall]
    exact fun call hmem => h.no_violation call (List.mem_of_mem_dropLast hmem)
  · rw [hall]
    intro call hmem hviolated
    rw [h.no_violation call hmem] at hviolated
    cases hviolated

theorem SoundInv.stop_after_turn (h : SoundInv config turns past head) {turn : Turn F}
    (hmax : head.iteration < config.maxIterations) (hcall : CallAt env head turn.toCall)
    (hsaved : TurnSaved turn) {result : RunResult}
    (hiterations : result.iterations = head.iteration + 1)
    (hreason : result.reason = some "failure_threshold" →
      turn.success = false ∧ config.failureThreshold ≤ (head.failures + 1 : ℕ))
    (hviolation : turn.success = false → turn.decision = .escalate →
      result.status = .failed ∧ result.reason = some "escalated") :
    SoundRun config (past ++ turn.events) result := by
  have hfailures := h.failures_lt
  have hturns := h.turns_inv.concat hcall hsaved { head with strategies := turn.after } rfl
  constructor
  · rw [hiterations, executorCalls_concat, h.iteration_eq]
    simp
  · rw [hiterations]
    push_cast
    omega
  · refine ⟨turns ++ [turn], ?_, fun other hmem => ?_⟩
    · rw [hturns.past_eq, effects_flatMap]
    · have hother := hturns.saved other hmem
      exact ⟨hother.result_eq, hother.decision_eq⟩
  · rw [length_failedCalls_concat, ← h.failures_eq]
    split <;> push_cast <;> omega
  · intro heq
    obtain ⟨hfailed, hthreshold⟩ := hreason heq
    rw [length_failedCalls_concat, ← h.failures_eq, hfailed, if_neg Bool.false_ne_true]
    push_cast at hthreshold ⊢
    omega
  · rw [executorCalls_concat, List.dropLast_concat]
    exact h.no_violation
  · rw [executorCalls_concat]
    intro call hmem hviolated
    rcases List.mem_append.1 hmem with hold | hnew
    · rw [h.no_violation call hold] at hviolated
      cases hviolated
    · rw [List.mem_singleton.1 hnew] at hviolated
      obtain ⟨hfailed, hdecision⟩ := escalates_of_violated hcall hviolated
      exact hviolation hfailed hdecision

theorem SoundInv.next (h : SoundInv config turns past head) {head' : LoopHead σ F}
    (hiteration : Iteration env config head events (.next head')) :
    ∃ turns', SoundInv config turns' (past ++ events) head' := by
  cases hiteration with
  | @turn turn _ hmax hcall hsaved hend =>
      cases hend with
      | next _ _ hiterations hfailures hstrategies _ hgoing =>
          refine ⟨turns ++ [turn], h.turns_inv.concat hcall hsaved _ hstrategies, ?_, ?_, ?_, ?_, ?_⟩
          · rw [hiterations, executorCalls_concat, h.iteration_eq]
            simp
          · rw [hiterations]
            push_cast
            omega
          · rw [hfailures, length_failedCalls_concat, h.failures_eq]
          · have hbefore := h.failures_lt
            rcases hsuccess : turn.success with _ | _
            · have hbelow := (hgoing hsuccess).2
              omega
            · rw [hsuccess, if_pos rfl] at hfailures
              omega
          · intro call hmem
            rw [executorCalls_concat] at hmem
            rcases List.mem_append.1 hmem with hold | hnew
            · exact h.no_violation call hold
            · rw [List.mem_singleton.1 hnew]
              apply Bool.eq_false_iff.2
              intro hviolated
              obtain ⟨hfailed, hdecision⟩ := escalates_of_violated hcall hviolated
              exact (hgoing hfailed).1 hdecision

/-- What an iteration that returns answers for. -/
theorem SoundInv.stop (h : SoundInv config turns past head) {result : RunResult}
    {plan : Option StepPlan}
    (hiteration : Iteration env config head events (.stop (.returned result plan))) :
    SoundRun config (past ++ events) result := by
  cases hiteration with
  | exhausted =>
      exact h.stop_without_call rfl rfl rfl fun heq => absurd (Option.some.inj heq) (by decide)
  | completed => exact h.stop_without_call rfl rfl rfl fun heq => nomatch heq
  | @turn turn _ hmax hcall hsaved hend =>
      cases hend with
      | achieved _ hsuccess =>
          refine h.stop_after_turn hmax hcall hsaved rfl (fun heq => nomatch heq) fun hfailed => ?_
          rw [hsuccess] at hfailed
          cases hfailed
      | escalated =>
          exact h.stop_after_turn hmax hcall hsaved rfl
            (fun heq => absurd (Option.some.inj heq) (by decide)) fun _ _ => ⟨rfl, rfl⟩
      | aborted _ habort =>
          refine h.stop_after_turn hmax hcall hsaved rfl
            (fun heq => absurd (Option.some.inj heq) (by decide)) fun _ hescalate => ?_
          rw [habort] at hescalate
          cases hescalate
      | exceeded hfailed hnot hthreshold =>
          exact h.stop_after_turn hmax hcall hsaved rfl (fun _ => ⟨hfailed, hthreshold⟩)
            fun _ hescalate => absurd hescalate hnot

theorem completed_eq_steps {plan : StepPlan} (h : plan.steps.length ≤ plan.currentStep) :
    plan.completed = plan.steps := List.take_of_length_le h

theorem CompletedInv.stop (h : CompletedInv past head) (hplans : PlansFromZero env)
    (hsettled : head.iteration < config.maxIterations → head.Settled env) {result : RunResult}
    {plan : Option StepPlan}
    (hiteration : Iteration env config head events (.stop (.returned result plan))) :
    SuccessSound (past ++ events) result plan := by
  cases hiteration with
  | exhausted => exact fun hstatus => nomatch hstatus
  | @completed _ _ plan _ _ hmax hstate hplanned hcomplete =>
      refine fun _ => ⟨plan, rfl, ?_⟩
      rw [← completed_eq_steps hcomplete, successfulSteps, executorCalls_append]
      exact (List.append_nil (executorCalls past)).symm ▸
        h.planned hplans (hsettled hmax) hstate hplanned
  | @turn turn _ hmax hcall _ hend =>
      cases hend with
      | @achieved plan _ hcarried _ hcomplete =>
          refine fun _ => ⟨plan, rfl, ?_⟩
          rw [← completed_eq_steps hcomplete]
          exact h.carried hplans (hsettled hmax) hcall hcarried
      | escalated => exact fun hstatus => nomatch hstatus
      | aborted => exact fun hstatus => nomatch hstatus
      | exceeded => exact fun hstatus => nomatch hstatus

/-- With such a planner, only the log call can raise. -/
theorem unsized_of_raised (hplans : PlansFromZero env)
    (hiteration : Iteration env config head events (.stop .raised)) :
    head.iteration < config.maxIterations
      ∧ memoryContextSize head.state.memoryContext = none := by
  cases hiteration with
  | logRaised hmax hsize => exact ⟨hmax, hsize⟩
  | @planRaised state _ _ hplanned =>
      have hsome := ensureStepPlan_isSome hplans head.world state
      rw [hplanned] at hsome
      cases hsome
  | @repairRaised call world state plan _ _ hrepair =>
      have hsome := repairPlan_isSome hplans world state plan call.step call.decision
      rw [hrepair] at hsome
      cases hsome
  | turn _ _ _ hend => cases hend

end Step

section Runs

variable [ScoreArith F] {env : Env σ} {config : Config} {strategies : Strategies F} {world : σ}
  {goal : String}

/-- A run that comes to a context without a length raises there. -/
theorem raised_of_unsized {head : LoopHead σ F} (h : Visited env config strategies world goal head)
    (hsize : memoryContextSize head.state.memoryContext = none) {finish : Finish}
    (hfinish : (run env config strategies world goal).2 = some finish) : finish = .raised := by
  have hbody : iterate env config head = ([], .stop .raised) := by
    simp only [iterate, if_pos h.below, hsize]
  obtain ⟨rest, hrest⟩ := runLoop_of_reaches h.reached hfinish
  cases rest with
  | zero => cases hrest
  | succ rest => simpa only [runLoop, hbody, Option.some.injEq, eq_comm] using hrest

/-- What a run comes to: it raises at a context without a length, or answers for what it did. -/
theorem run_outcome (hplans : PlansFromZero env) (config : Config) (strategies : Strategies F)
    (world : σ) (goal : String) :
    ((run env config strategies world goal).2 = some .raised
        ∧ ∃ head, Visited env config strategies world goal head
          ∧ memoryContextSize head.state.memoryContext = none)
      ∨ ∃ result plan, (run env config strategies world goal).2 = some (.returned result plan)
        ∧ SoundRun config (run env config strategies world goal).1 result
        ∧ ((∀ head, Visited env config strategies world goal head → head.Settled env) →
          SuccessSound (run env config strategies world goal).1 result plan) := by
  obtain ⟨finish, hfinish, hpost⟩ := run_induction_visited env config strategies world goal
    (fun past head => (∃ turns, SoundInv config turns past head)
      ∧ ((∀ head, Visited env config strategies world goal head → head.Settled env) →
        CompletedInv past head))
    (fun trace finish => match finish with
      | .raised => ∃ head, Visited env config strategies world goal head
          ∧ memoryContextSize head.state.memoryContext = none
      | .returned result plan => SoundRun config trace result
          ∧ ((∀ head, Visited env config strategies world goal head → head.Settled env) →
            SuccessSound trace result plan))
    ⟨⟨[], { turns_inv := turnsInv_initial _
            iteration_eq := rfl
            iteration_le := le_max_left 0 _
            failures_eq := rfl
            failures_lt := lt_max_of_lt_left zero_lt_one
            no_violation := fun _ hmem => absurd hmem List.not_mem_nil }⟩,
      fun _ _ hactive => nomatch hactive⟩
    (fun past head events head' hvisited ⟨⟨_, hsound⟩, hcompleted⟩ hiteration =>
      ⟨hsound.next hiteration, fun hsettled => (hcompleted hsettled).next hplans
        (fun hmax => hsettled head (hvisited hmax)) hiteration⟩)
    (fun past head events finish hvisited ⟨⟨_, hsound⟩, hcompleted⟩ hiteration => by
      cases finish with
      | raised =>
          obtain ⟨hmax, hsize⟩ := unsized_of_raised hplans hiteration
          exact ⟨head, hvisited hmax, hsize⟩
      | returned result plan =>
          exact ⟨hsound.stop hiteration, fun hsettled => (hcompleted hsettled).stop hplans
            (fun hmax => hsettled head (hvisited hmax)) hiteration⟩)
  cases finish with
  | raised => exact .inl ⟨hfinish, hpost⟩
  | returned result plan => exact .inr ⟨result, plan, hfinish, hpost⟩

/-- **A run returns exactly if what the memory calls recent always has a length. It then answers for
what it did, and for its success as well if the active plan is never read again with an unsettled
step behind it.** -/
theorem run_sound_of_settled (hplans : PlansFromZero env) :
    ((∃ result plan, (run env config strategies world goal).2 = some (.returned result plan))
        ↔ ∀ head, Visited env config strategies world goal head →
          (memoryContextSize head.state.memoryContext).isSome = true)
      ∧ ∀ result plan, (run env config strategies world goal).2 = some (.returned result plan) →
        SoundRun config (run env config strategies world goal).1 result
          ∧ ((∀ head, Visited env config strategies world goal head → head.Settled env) →
            SuccessSound (run env config strategies world goal).1 result plan) := by
  rcases run_outcome hplans config strategies world goal with
    ⟨hraised, head, hvisited, hsize⟩ | ⟨result, plan, hreturned, hsound⟩
  · refine ⟨iff_of_false ?_ fun hsized => ?_, ?_⟩
    · rintro ⟨result, plan, hreturned⟩
      cases hraised.symm.trans hreturned
    · have hsome := hsized head hvisited
      rw [hsize] at hsome
      cases hsome
    · rintro result plan hreturned
      cases hraised.symm.trans hreturned
  · refine ⟨iff_of_true ⟨result, plan, hreturned⟩ fun head hvisited => ?_, ?_⟩
    · rw [Option.isSome_iff_ne_none]
      intro hsize
      cases raised_of_unsized hvisited hsize hreturned
    · rintro result' plan' hreturned'
      obtain ⟨rfl, rfl⟩ : result = result' ∧ plan = plan' := by
        cases hreturned.symm.trans hreturned'
        exact ⟨rfl, rfl⟩
      exact hsound

end Runs

theorem plansFromZero_scripted : PlansFromZero (scriptedEnv twoSteps) where
  created _ _ _ := ⟨_, rfl, rfl⟩
  repaired _ hmem := nomatch hmem

def Finish.status? : Finish → Option RunStatus
  | .returned result _ => some result.status
  | .raised => none

def Finish.steps : Finish → List Step
  | .returned _ (some plan) => plan.steps
  | _ => []

theorem Finish.exists_returned {status : RunStatus} (finish : Option Finish)
    (h : finish.bind Finish.status? = some status) :
    ∃ result plan, finish = some (.returned result plan) ∧ result.status = status := by
  obtain ⟨finish, rfl, hstatus⟩ := Option.bind_eq_some_iff.1 h
  cases finish with
  | returned result plan => exact ⟨result, plan, rfl, Option.some.inj hstatus⟩
  | raised => cases hstatus

/-- The second step fails once and is retried. -/
theorem run_sound_of_settled_twoSteps :
    ∃ result plan, (run (F := ℚ) (scriptedEnv twoSteps) defaultConfig .empty
        [succeeds, failsWith "runtime_error", succeeds] "goal").2 = some (.returned result plan)
      ∧ result.status = .success
      ∧ SoundRun defaultConfig (run (F := ℚ) (scriptedEnv twoSteps) defaultConfig .empty
        [succeeds, failsWith "runtime_error", succeeds] "goal").1 result
      ∧ SuccessSound (run (F := ℚ) (scriptedEnv twoSteps) defaultConfig .empty
        [succeeds, failsWith "runtime_error", succeeds] "goal").1 result plan := by
  obtain ⟨result, plan, hreturned, hstatus⟩ := Finish.exists_returned
    (run (F := ℚ) (scriptedEnv twoSteps) defaultConfig .empty
      [succeeds, failsWith "runtime_error", succeeds] "goal").2
    (show _ = some RunStatus.success by decide +kernel)
  obtain ⟨hsound, hsuccess⟩ := (run_sound_of_settled plansFromZero_scripted).2 result plan hreturned
  refine ⟨result, plan, hreturned, hstatus, hsound, hsuccess fun head _ _ _ _ hplan => ?_⟩
  exact nomatch hplan

/-- A memory that calls nothing recent. -/
def forgetfulEnv : Env (List Fields) :=
  { scriptedEnv twoSteps with
    retrieve := fun script _ => (.returned (.dict [("recent", .none)]), script) }

/-- A planner that adjusts no plan. -/
def stubbornEnv : Env (List Fields) :=
  { scriptedEnv twoSteps with
    createPlan := fun script state _ =>
      (.value (if state.activePlan.isNone then .dict twoSteps else .none), script) }

/-- The first run raises in its first iteration. The second reports success of a plan whose first step
has dependencies, and it has executed one without. -/
theorem run_unsound :
    PlansFromZero forgetfulEnv
      ∧ (run (F := ℚ) forgetfulEnv defaultConfig .empty [succeeds, succeeds] "goal").2 = some .raised
      ∧ PlansFromZero stubbornEnv
      ∧ ∃ result plan, (run (F := ℚ) stubbornEnv defaultConfig .empty
          [succeeds, failsWith "invalid_plan", succeeds] "goal").2 = some (.returned result plan)
        ∧ ¬ SuccessSound (run (F := ℚ) stubbornEnv defaultConfig .empty
          [succeeds, failsWith "invalid_plan", succeeds] "goal").1 result plan := by
  refine ⟨⟨fun _ _ _ => ⟨_, rfl, rfl⟩, fun _ hmem => nomatch hmem⟩, rfl,
    ⟨fun _ state _ => ?_, fun _ hmem => nomatch hmem⟩, ?_⟩
  · rcases hactive : state.activePlan with _ | active
    · exact ⟨_, by simp only [stubbornEnv, hactive]; rfl, rfl⟩
    · exact ⟨_, by simp only [stubbornEnv, hactive]; rfl, rfl⟩
  · obtain ⟨result, plan, hreturned, hstatus⟩ := Finish.exists_returned
      (run (F := ℚ) stubbornEnv defaultConfig .empty
        [succeeds, failsWith "invalid_plan", succeeds] "goal").2
      (show _ = some RunStatus.success by decide +kernel)
    refine ⟨result, plan, hreturned, fun hsound => ?_⟩
    obtain ⟨active, rfl, hsuffix⟩ := hsound hstatus
    have hsteps : (((run (F := ℚ) stubbornEnv defaultConfig .empty
        [succeeds, failsWith "invalid_plan", succeeds] "goal").2.map Finish.steps).getD []).map
          Step.dependencies = [some [], some []] := by decide +kernel
    have hexecuted : (successfulSteps (run (F := ℚ) stubbornEnv defaultConfig .empty
        [succeeds, failsWith "invalid_plan", succeeds] "goal").1).map Step.dependencies
          = [none, some []] := by decide +kernel
    have hmap := hsuffix.map Step.dependencies
    rw [hreturned] at hsteps
    rw [hexecuted, show active.steps.map Step.dependencies = [some [], some []] from hsteps] at hmap
    revert hmap
    decide

end PersonalDevin.Agent
