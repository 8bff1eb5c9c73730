import PersonalDevin.Agent.Controller

/-!
# What one iteration of the loop controller can do

An iteration finds the rounds used up, or finds the plan completed, or is cut short by a context whose
recent records have no length or by a plan whose `current_step` is no number, or makes a turn: one
executor call, one decision, one saved record. A turn keeps the completed part of the plan and adds the
step to it when the call succeeded. What is proved of runs rests on this case analysis alone.
-/

namespace PersonalDevin.Agent

open Lib

/-- One executor call, from the head of the loop to the decision. -/
structure Call (F : Type) where
  state : LoopState
  before : Strategies F
  fresh : Bool
  plan : StepPlan
  step : Step
  result : Fields
  decision : Decision

/-- A call with the record that was saved and the statistics after it. -/
structure Turn (F : Type) extends Call F where
  record : LoopRecord
  after : Strategies F

section Turns

variable {σ F : Type}

/-- The call of an iteration that starts at the head of the loop. -/
def LoopHead.call (head : LoopHead σ F) (fresh : Bool) (plan : StepPlan) (step : Step)
    (result : Fields) (decision : Decision) : Call F where
  state := head.state.attempt (head.iteration + 1)
  before := head.strategies
  fresh := fresh
  plan := plan
  step := step
  result := result
  decision := decision

def Call.success (call : Call F) : Bool := (classifyResult call.result).success

def Call.pattern (call : Call F) : String := (classifyResult call.result).errorType

def Call.events (call : Call F) : List (Event F) :=
  [.started call.state call.before, .planned call.fresh call.plan,
    .executed call.plan.currentStep call.step call.result, .decided call.decision]

def Turn.events (turn : Turn F) : List (Event F) :=
  turn.toCall.events ++ [.saved turn.record turn.after]

/-- What holds of a call that starts at the head of the loop. -/
structure CallAt (env : Env σ) (head : LoopHead σ F) (call : Call F) : Prop where
  state_eq : call.state = head.state.attempt (head.iteration + 1)
  before_eq : call.before = head.strategies
  planned : ∃ world, ensureStepPlan env head.world call.state = some (call.fresh, call.plan, world)
  current : call.plan.current? = some call.step
  violation : call.success = false → call.pattern ∈ ["policy_violation", "security_violation"] →
    call.decision = .escalate

/-- The plan a turn leaves: the completed part is kept, and grows by the step if it succeeded. -/
structure Carried (turn : Call F) (plan : StepPlan) : Prop where
  length_eq : plan.steps.length = turn.plan.steps.length
  position_eq : plan.currentStep = turn.plan.currentStep + if turn.success then 1 else 0
  completed_eq : plan.completed = turn.plan.completed ++ if turn.success then [turn.step] else []

structure TurnSaved [ScoreArith F] (turn : Turn F) : Prop where
  result_eq : turn.record.result = turn.result
  decision_eq : turn.record.decision = turn.decision
  after_eq : turn.after = turn.before.update turn.pattern turn.decision turn.success
  advance : turn.success = true → turn.decision = .advanceStep

inductive TurnEnd (config : Config) (head : LoopHead σ F) (turn : Turn F) :
    Round (LoopHead σ F) Finish → Prop
  | next {head' : LoopHead σ F} {plan : StepPlan} (hcarried : Carried turn.toCall plan)
      (hplan : head'.state.activePlan = some plan) (hiteration : head'.iteration = head.iteration + 1)
      (hfailures : head'.failures = head.failures + if turn.success then 0 else 1)
      (hstrategies : head'.strategies = turn.after)
      (hdecision : head'.state.lastDecision = some turn.decision)
      (hgoing : turn.success = false →
        turn.decision ≠ .escalate ∧ (head'.failures : ℤ) < config.failureThreshold) :
      TurnEnd config head turn (.next head')
  | achieved {plan : StepPlan} {result : Fields} (hcarried : Carried turn.toCall plan)
      (hsuccess : turn.success = true) (hcomplete : plan.steps.length ≤ plan.currentStep) :
      TurnEnd config head turn (.stop (.returned
        { status := .success, iterations := head.iteration + 1, reason := none, errorType := none
          result := some result } (some plan)))
  | escalated {plan : StepPlan} (hfailed : turn.success = false)
      (hdecision : turn.decision = .escalate) :
      TurnEnd config head turn (.stop (.returned
        (failedResult (head.iteration + 1) "escalated" (some turn.pattern)) (some plan)))
  | aborted {plan : StepPlan} (hfailed : turn.success = false) (hdecision : turn.decision = .abort) :
      TurnEnd config head turn (.stop (.returned
        (failedResult (head.iteration + 1) "abort" (some turn.pattern)) (some plan)))
  | exceeded {plan : StepPlan} (hfailed : turn.success = false) (hdecision : turn.decision ≠ .escalate)
      (hthreshold : config.failureThreshold ≤ (head.failures + 1 : ℕ)) :
      TurnEnd config head turn (.stop (.returned
        (failedResult (head.iteration + 1) "failure_threshold" none) (some plan)))

/-- **What one iteration can do.** -/
inductive Iteration [ScoreArith F] (env : Env σ) (config : Config) (head : LoopHead σ F) :
    List (Event F) → Round (LoopHead σ F) Finish → Prop
  | exhausted (hmax : config.maxIterations ≤ head.iteration) :
      Iteration env config head [] (.stop (.returned
        { status := .stopped, iterations := head.iteration, reason := some "max_iterations"
          errorType := none, result := none } head.state.activePlan))
  | logRaised (hmax : head.iteration < config.maxIterations)
      (hsize : memoryContextSize head.state.memoryContext = none) :
      Iteration env config head [] (.stop .raised)
  | planRaised {state : LoopState} (hmax : head.iteration < config.maxIterations)
      (hstate : state = head.state.attempt (head.iteration + 1))
      (hplanned : ensureStepPlan env head.world state = none) :
      Iteration env config head [.started state head.strategies] (.stop .raised)
  | completed {state : LoopState} {fresh : Bool} {plan : StepPlan} {world : σ} {result : Fields}
      (hmax : head.iteration < config.maxIterations)
      (hstate : state = head.state.attempt (head.iteration + 1))
      (hplanned : ensureStepPlan env head.world state = some (fresh, plan, world))
      (hcomplete : plan.steps.length ≤ plan.currentStep) :
      Iteration env config head [.started state head.strategies, .planned fresh plan]
        (.stop (.returned
          { status := .success, iterations := head.iteration, reason := none, errorType := none
            result := some result } (some plan)))
  | repairRaised {call : Call F} {world : σ} {state : LoopState} {plan : StepPlan}
      (hmax : head.iteration < config.maxIterations) (hcall : CallAt env head call)
      (hrepair : repairPlan env world state plan call.step call.decision = none) :
      Iteration env config head call.events (.stop .raised)
  | turn {turn : Turn F} {round : Round (LoopHead σ F) Finish}
      (hmax : head.iteration < config.maxIterations) (hcall : CallAt env head turn.toCall)
      (hsaved : TurnSaved turn) (hend : TurnEnd config head turn round) :
      Iteration env config head turn.events round

/-! ### The plan through an iteration -/

/-- The plan of an iteration is the active one, or made of the planner's answer. -/
theorem ensureStepPlan_cases (env : Env σ) (world : σ) (state : LoopState) :
    (∃ plan, state.activePlan = some plan ∧ state.lastDecision ≠ some .adjustPlan
        ∧ ensureStepPlan env world state = some (false, plan, world))
      ∨ ((state.activePlan = none ∨ state.lastDecision = some .adjustPlan)
        ∧ ensureStepPlan env world state
          = (normalizeStepPlan (env.createPlan world state state.memoryContext).1 state.activePlan).map
            fun plan => (true, plan, (env.createPlan world state state.memoryContext).2)) := by
  rcases hactive : state.activePlan with _ | plan
  · refine .inr ⟨.inl rfl, ?_⟩
    simp only [ensureStepPlan, hactive]
  · by_cases hdecision : state.lastDecision = some .adjustPlan
    · refine .inr ⟨.inr hdecision, ?_⟩
      simp only [ensureStepPlan, hactive, hdecision, if_true]
    · refine .inl ⟨plan, rfl, hdecision, ?_⟩
      simp only [ensureStepPlan, hactive, if_neg hdecision]

theorem completed_set (plan : StepPlan) (step : Step) :
    StepPlan.completed { plan with steps := plan.steps.set plan.currentStep step }
      = plan.completed := by
  rw [StepPlan.completed, StepPlan.completed, List.take_set_of_le (Nat.le_refl _)]

theorem applyAdjustment_frame (plan : StepPlan) (hint : String) :
    (plan.applyAdjustment hint).steps.length = plan.steps.length
      ∧ (plan.applyAdjustment hint).currentStep = plan.currentStep
      ∧ (plan.applyAdjustment hint).completed = plan.completed := by
  unfold StepPlan.applyAdjustment
  split
  · exact ⟨rfl, rfl, rfl⟩
  · split
    · exact ⟨rfl, rfl, rfl⟩
    · exact ⟨List.length_set, rfl, completed_set plan _⟩

theorem replaceCurrent_frame (plan : StepPlan) (repaired : Step) :
    (plan.replaceCurrent repaired).steps.length = plan.steps.length
      ∧ (plan.replaceCurrent repaired).currentStep = plan.currentStep
      ∧ (plan.replaceCurrent repaired).completed = plan.completed :=
  ⟨List.length_set, rfl, completed_set plan _⟩

theorem repairPlan_frame {env : Env σ} {world world' : σ} {state : LoopState} {plan plan' : StepPlan}
    {step : Step} {repaired : Option Step} {decision : Decision}
    (h : repairPlan env world state plan step decision = some (plan', repaired, world')) :
    plan'.steps.length = plan.steps.length ∧ plan'.currentStep = plan.currentStep
      ∧ plan'.completed = plan.completed := by
  unfold repairPlan at h
  split at h
  · obtain ⟨_, _, hplan⟩ := Option.map_eq_some_iff.1 h
    obtain ⟨rfl, _, _⟩ := Prod.mk.inj hplan |>.imp_right Prod.mk.inj
    exact replaceCurrent_frame plan _
  · obtain ⟨rfl, _⟩ := Prod.mk.inj (Option.some.inj h)
    exact ⟨rfl, rfl, rfl⟩

theorem advance_completed {plan : StepPlan} {step : Step} (h : plan.current? = some step) :
    plan.advance.completed = plan.completed ++ [step] := by
  rw [StepPlan.completed, StepPlan.completed, StepPlan.advance, List.take_add_one]
  show _ ++ plan.current?.toList = _
  rw [h]
  rfl

/-! ### The case analysis -/

theorem conclude_turnEnd {env : Env σ} {config : Config} {head head' : LoopHead σ F} {turn : Turn F}
    {plan : StepPlan} (hcarried : Carried turn.toCall plan) (hplan : head'.state.activePlan = some plan)
    (hiteration : head'.iteration = head.iteration + 1) (hfailures : head'.failures = head.failures)
    (hstrategies : head'.strategies = turn.after)
    (hdecision : head'.state.lastDecision = some turn.decision) :
    TurnEnd config head turn (conclude env config head' plan (classifyResult turn.result)
      turn.decision turn.result) := by
  unfold conclude
  rw [hiteration, hfailures]
  rcases hsuccess : (classifyResult turn.result).success with _ | _
  · rw [if_neg Bool.false_ne_true]
    split
    · exact .escalated hsuccess ‹_›
    · split
      · exact .aborted hsuccess ‹_›
      · rename_i hescalate _
        dsimp only
        split
        · exact .exceeded hsuccess hescalate ‹_›
        · rename_i hbelow
          refine .next ?_ rfl rfl ?_ hstrategies hdecision fun _ => ⟨hescalate, ?_⟩
          · split
            · obtain ⟨hlength, hposition, hcompleted⟩ :=
                applyAdjustment_frame plan head'.state.strategyHint
              exact ⟨hlength.trans hcarried.length_eq, hposition.trans hcarried.position_eq,
                hcompleted.trans hcarried.completed_eq⟩
            · exact hcarried
          · show head.failures + 1 = _
            rw [Call.success, hsuccess]
            rfl
          · exact lt_of_not_ge hbelow
  · rw [if_pos rfl]
    split
    · rename_i hcomplete
      exact .achieved hcarried hsuccess (of_decide_eq_true hcomplete)
    · refine .next hcarried hplan hiteration ?_ hstrategies hdecision fun hfailed => ?_
      · show head'.failures = _
        rw [hfailures, Call.success, hsuccess]
        rfl
      · rw [Call.success, hsuccess] at hfailed
        cases hfailed

section Judge

variable [ScoreArith F]

theorem judge_success {config : Config} {strategies : Strategies F} {state : LoopState}
    {plan : StepPlan} {step : Step} {classification : Classification}
    (h : classification.success = true) :
    (judge config strategies state plan step classification).decision = .advanceStep
      ∧ (judge config strategies state plan step classification).plan = plan.advance := by
  rw [judge, if_pos h]
  exact ⟨rfl, rfl⟩

theorem judge_failure {config : Config} {strategies : Strategies F} {state : LoopState}
    {plan : StepPlan} {step : Step} {classification : Classification}
    (h : classification.success = false) :
    (judge config strategies state plan step classification).plan = plan
      ∧ (classification.errorType ∈ ["policy_violation", "security_violation"] →
        (judge config strategies state plan step classification).decision = .escalate) := by
  rw [judge, if_neg (by rw [h]; exact Bool.false_ne_true)]
  exact ⟨rfl, fun hmem => if_pos hmem⟩

theorem judge_lastDecision {config : Config} {strategies : Strategies F} {state : LoopState}
    {plan : StepPlan} {step : Step} {classification : Classification} :
    (judge config strategies state plan step classification).state.lastDecision
      = some (judge config strategies state plan step classification).decision := by
  unfold judge
  split <;> rfl

/-- The plan after the judgement and the repair carries the plan of the call on. -/
theorem carried_of_repair {env : Env σ} {config : Config} {strategies : Strategies F}
    {state : LoopState} {call : Call F} {judged : Judged} {world world' : σ} {plan' : StepPlan}
    {repaired : Option Step} (hcurrent : call.plan.current? = some call.step)
    (hjudged : judge config strategies state call.plan call.step (classifyResult call.result) = judged)
    (h : repairPlan env world judged.state judged.plan call.step judged.decision
      = some (plan', repaired, world')) : Carried call plan' := by
  subst hjudged
  obtain ⟨hlength, hposition, hcompleted⟩ := repairPlan_frame h
  rcases hsuccess : (classifyResult call.result).success with _ | _
  · rw [(judge_failure hsuccess).1] at hlength hposition hcompleted
    constructor
    · exact hlength
    · rw [hposition, Call.success, hsuccess]
      rfl
    · rw [hcompleted, Call.success, hsuccess]
      exact (List.append_nil _).symm
  · rw [(judge_success hsuccess).2] at hlength hposition hcompleted
    constructor
    · exact hlength
    · rw [hposition, Call.success, hsuccess]
      rfl
    · rw [hcompleted, advance_completed hcurrent, Call.success, hsuccess]
      rfl

/-- An iteration from the executor's result on raises in the repair, or saves one record and
concludes. -/
theorem afterCall_cases (env : Env σ) (config : Config) (head : LoopHead σ F) (plan : StepPlan)
    (step : Step) (result : Fields) {judged : Judged}
    (hjudged : judge config head.strategies (head.state.evaluated (classifyResult result)) plan step
      (classifyResult result) = judged) :
    (repairPlan env head.world judged.state judged.plan step judged.decision = none
        ∧ afterCall env config head plan step result = ([.decided judged.decision], .stop .raised))
      ∨ ∃ plan' repaired world record head',
        repairPlan env head.world judged.state judged.plan step judged.decision
            = some (plan', repaired, world)
          ∧ record = iterationRecord head.iteration (env.clock world) judged plan' repaired step result
          ∧ head' = head.persisted (env.save world record) (judged.state.install plan')
            (head.strategies.update (classifyResult result).errorType judged.decision
              (classifyResult result).success)
          ∧ afterCall env config head plan step result
            = ([.decided judged.decision, .saved record head'.strategies],
              conclude env config head' plan' (classifyResult result) judged.decision result) := by
  rcases hrepair : repairPlan env head.world judged.state judged.plan step judged.decision with
    _ | ⟨plan', repaired, world⟩
  · refine .inl ⟨rfl, ?_⟩
    simp only [afterCall, hjudged, hrepair]
  · refine .inr ⟨plan', repaired, world, _, _, rfl, rfl, rfl, ?_⟩
    simp only [afterCall, hjudged, hrepair]
    rfl

theorem turn_cases {env : Env σ} {config : Config} {head : LoopHead σ F} {fresh : Bool}
    {plan : StepPlan} {step : Step} {world : σ} (hmax : head.iteration < config.maxIterations)
    (hplanned : ensureStepPlan env head.world (head.state.attempt (head.iteration + 1))
      = some (fresh, plan, world)) (hcurrent : plan.current? = some step) :
    Iteration env config head (afterSnapshot env config head).1 (afterSnapshot env config head).2 := by
  simp only [afterSnapshot, hplanned, hcurrent]
  obtain ⟨judged, hjudged⟩ : ∃ judged, judge config head.strategies
      (((head.state.attempt (head.iteration + 1)).install plan).evaluated
        (classifyResult (env.execute world step).1)) plan step
      (classifyResult (env.execute world step).1) = judged := ⟨_, rfl⟩
  have hadvance : (classifyResult (env.execute world step).1).success = true →
      judged.decision = .advanceStep := fun h => hjudged ▸ (judge_success h).1
  have hviolation : (classifyResult (env.execute world step).1).success = false →
      (classifyResult (env.execute world step).1).errorType
        ∈ ["policy_violation", "security_violation"] → judged.decision = .escalate :=
    fun h hmem => hjudged ▸ (judge_failure h).2 hmem
  have hcall : CallAt env head
      (head.call fresh plan step (env.execute world step).1 judged.decision) :=
    ⟨rfl, rfl, ⟨world, hplanned⟩, hcurrent, hviolation⟩
  rcases afterCall_cases env config (head.called (env.execute world step).2
      ((head.state.attempt (head.iteration + 1)).install plan)) plan step _ hjudged with
    ⟨hrepair, hraised⟩ | ⟨plan', repaired, world'', record, head', hrepair, hrecord, hhead, hafter⟩
  · rw [hraised]
    exact .repairRaised hmax hcall hrepair
  · have hcarried : Carried
        (head.call fresh plan step (env.execute world step).1 judged.decision) plan' :=
      carried_of_repair hcurrent hjudged hrepair
    have hsaved : TurnSaved ⟨head.call fresh plan step (env.execute world step).1 judged.decision,
        record, head'.strategies⟩ := by
      refine ⟨?_, ?_, ?_, hadvance⟩
      · rw [hrecord]
        rfl
      · rw [hrecord]
        rfl
      · rw [hhead]
        rfl
    rw [hafter]
    refine .turn hmax hcall hsaved (conclude_turnEnd hcarried ?_ ?_ ?_ rfl ?_)
    · rw [hhead]
      rfl
    · rw [hhead]
      rfl
    · rw [hhead]
      rfl
    · rw [hhead, ← hjudged]
      exact judge_lastDecision

/-- **Every iteration is one of these.** -/
theorem iterate_cases (env : Env σ) (config : Config) (head : LoopHead σ F) :
    Iteration env config head (iterate env config head).1 (iterate env config head).2 := by
  by_cases hmax : (head.iteration : ℤ) < config.maxIterations
  · rcases hsize : memoryContextSize head.state.memoryContext with _ | size
    · simp only [iterate, if_pos hmax, hsize]
      exact .logRaised hmax hsize
    simp only [iterate, if_pos hmax, hsize]
    rcases hplanned : ensureStepPlan env head.world (head.state.attempt (head.iteration + 1)) with
      _ | ⟨fresh, plan, world⟩
    · simp only [afterSnapshot, hplanned]
      exact .planRaised hmax rfl hplanned
    · rcases hcurrent : plan.current? with _ | step
      · simp only [afterSnapshot, hplanned, hcurrent]
        exact .completed hmax rfl hplanned (List.getElem?_eq_none_iff.1 hcurrent)
      · exact turn_cases hmax hplanned hcurrent
  · simp only [iterate, if_neg hmax]
    exact .exhausted (not_lt.1 hmax)

end Judge

end Turns

end PersonalDevin.Agent
