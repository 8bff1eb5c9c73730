import PersonalDevin.Agent.Sessions

/-!
# What the runs of a session save

A round of the loop saves at most one record, of a result that the executor has just returned, after the
statistics were updated with it. The controller and its world keep the same session.
-/

namespace PersonalDevin.Agent

open Lib
open Memory (Timestamp)

variable {F : Type} [ScoreArith F]

/-- The parts of a record fit together: its pattern is that of its result, and it is a success exactly
if its decision is `advance_step`. -/
structure Recorded (goal : String) (record : LoopRecord) : Prop where
  goal_eq : record.goal = goal
  pattern_eq : record.strategyPattern = record.classification.errorType
  success_eq : record.success = decide (record.decision = .advanceStep)

omit [ScoreArith F] in
def Event.savedRecord? : Event F → Option LoopRecord
  | .saved record _ => some record
  | _ => none

/-- The records with which `save` was called. -/
def savedRecords (trace : List (Event F)) : List LoopRecord := trace.filterMap Event.savedRecord?

omit [ScoreArith F] in
theorem savedRecords_append (past events : List (Event F)) :
    savedRecords (past ++ events) = savedRecords past ++ savedRecords events :=
  List.filterMap_append

/-! ### Decisions -/

theorem decideNextStep_ne_advanceStep (config : Config) (strategies : Strategies F) (state : LoopState)
    (step : Step) (classification : Classification) :
    decideNextStep config strategies state step classification ≠ .advanceStep := by
  unfold decideNextStep
  split
  · decide
  · split
    · decide
    · have hmem := selectBestDecision_mem strategies config.failureThreshold state.attemptCount
        state.memoryContext classification.errorType classification.retryable
      intro heq
      rw [heq, candidates] at hmem
      split_ifs at hmem <;> exact absurd hmem (by decide)

theorem judge_advances (config : Config) (strategies : Strategies F) (state : LoopState)
    (plan : StepPlan) (step : Step) (classification : Classification) :
    classification.success
      = decide ((judge config strategies state plan step classification).decision = .advanceStep) := by
  rcases hsuccess : classification.success with _ | _
  · rw [eq_comm, decide_eq_false_iff_not, judge, if_neg (by rw [hsuccess]; exact Bool.false_ne_true)]
    exact decideNextStep_ne_advanceStep _ _ _ _ _
  · rw [(judge_success hsuccess).1, decide_eq_true rfl]

theorem judge_goal (config : Config) (strategies : Strategies F) (state : LoopState)
    (plan : StepPlan) (step : Step) (classification : Classification) :
    (judge config strategies state plan step classification).state.goal = state.goal := by
  unfold judge
  split <;> rfl

/-! ### The session through an iteration -/

section Iterations

variable {T : Type} [Timestamp T] [LE T] [DecidableLE T] {W : Type} {controller : Controller W F}
  {head head' : LoopHead (W × Session F) F}

theorem session_of_ensureStepPlan {world world' : W × Session F} {state : LoopState} {fresh : Bool}
    {plan : StepPlan} (h : ensureStepPlan (controller.env T) world state = some (fresh, plan, world')) :
    world'.2 = world.2 := by
  rcases ensureStepPlan_cases (controller.env T) world state with ⟨_, _, _, heq⟩ | ⟨_, heq⟩
  · rw [heq, Option.some.injEq, Prod.mk.injEq, Prod.mk.injEq] at h
    rw [← h.2.2]
  · rw [heq] at h
    obtain ⟨_, _, hmade⟩ := Option.map_eq_some_iff.1 h
    rw [Prod.mk.injEq, Prod.mk.injEq] at hmade
    rw [← hmade.2.2]
    rfl

theorem session_of_repairPlan {world world' : W × Session F} {state : LoopState}
    {plan plan' : StepPlan} {step : Step} {repaired : Option Step} {decision : Decision}
    (h : repairPlan (controller.env T) world state plan step decision
      = some (plan', repaired, world')) : world'.2 = world.2 := by
  unfold repairPlan at h
  split at h
  · obtain ⟨⟨_, after⟩, hrepair, hplan⟩ := Option.map_eq_some_iff.1 h
    obtain ⟨-, -, rfl⟩ := Prod.mk.inj hplan |>.imp_right Prod.mk.inj
    rcases hplanner : controller.repairStep with _ | plannerRepair
    · simp only [repairStep, Controller.env, hplanner, Option.map_none] at hrepair
      obtain ⟨_, _, hmade⟩ := Option.map_eq_some_iff.1 hrepair
      rw [← (Prod.mk.inj hmade).2]
    · simp only [repairStep, Controller.env, hplanner, Option.map_some] at hrepair
      obtain ⟨_, _, hmade⟩ := Option.map_eq_some_iff.1 hrepair
      rw [← (Prod.mk.inj hmade).2]
  · obtain ⟨-, -, rfl⟩ := Prod.mk.inj (Option.some.inj h) |>.imp_right Prod.mk.inj
    rfl

/-- The variables at the head of the loop agree with a session. -/
structure InSession (goal : String) (session : Session F) (head : LoopHead (W × Session F) F) :
    Prop where
  strategies_eq : head.strategies = session.strategies
  world_eq : head.world.2 = session
  goal_eq : head.state.goal = goal

theorem InSession.refresh {goal : String} {session : Session F} (h : InSession goal session head) :
    InSession goal session (head.refresh (controller.env T)) where
  strategies_eq := h.strategies_eq
  world_eq := h.world_eq
  goal_eq := h.goal_eq

theorem InSession.conclude {goal : String} {session : Session F} (h : InSession goal session head)
    {plan : StepPlan} {classification : Classification} {decision : Decision} {result : Fields}
    {config : Config}
    (hnext : conclude (controller.env T) config head plan classification decision result
      = .next head') : InSession goal session head' := by
  unfold Agent.conclude at hnext
  split at hnext
  · split at hnext
    · cases hnext
    · obtain rfl := Round.next.inj hnext
      exact h.refresh
  · dsimp only at hnext
    split_ifs at hnext
    all_goals
      obtain rfl := Round.next.inj hnext
      exact InSession.refresh ⟨h.strategies_eq, h.world_eq, h.goal_eq⟩

/-! ### One round -/

/-- The events of a round: nothing is saved, or one record after the call of the executor. -/
inductive SavesLast (goal : String) (strategies : Strategies F) : List (Event F) → Prop
  | nothing {events : List (Event F)} (hsaved : savedRecords events = []) :
      SavesLast goal strategies events
  | record {events : List (Event F)} {record : LoopRecord} (hsaved : savedRecords events = [])
      (hcall : executorCalls events ≠ []) (hrecorded : Recorded goal record) :
      SavesLast goal strategies (events ++ [.saved record (strategies.learn record)])

omit [ScoreArith F] in
theorem replay_eq_self {decimal : F → ℤ × ℤ} {events : List (Event F)}
    (h : savedRecords events = []) (session : Session F) : session.replay decimal events = session := by
  induction events with
  | nil => rfl
  | cons event rest ih =>
      cases event with
      | saved record strategies => cases h
      | started | planned | executed | decided => exact ih h

omit [ScoreArith F] in
theorem replay_append (decimal : F → ℤ × ℤ) (past events : List (Event F)) (session : Session F) :
    session.replay decimal (past ++ events) = (session.replay decimal past).replay decimal events :=
  List.foldl_append

theorem recorded_iterationRecord (config : Config) (strategies : Strategies F) (state : LoopState)
    (plan : StepPlan) (step : Step) (result : Fields) (iteration : ℕ) (timestamp : String)
    (plan' : StepPlan) (repaired : Option Step) :
    Recorded state.goal (iterationRecord iteration timestamp
      (judge config strategies state plan step (classifyResult result)) plan' repaired step result)
    where
  goal_eq := judge_goal _ _ _ _ _ _
  pattern_eq := rfl
  success_eq := judge_advances _ _ _ _ _ _

/-- What a round does from the executor's result on. -/
theorem InSession.afterCall {goal : String} {session : Session F} (h : InSession goal session head)
    (plan : StepPlan) (step : Step) (result : Fields) (past : List (Event F))
    (hpast : savedRecords past = []) (hcall : executorCalls past ≠ []) :
    SavesLast goal session.strategies
        (past ++ (afterCall (controller.env T) controller.config head plan step result).1)
      ∧ ∀ head', (Agent.afterCall (controller.env T) controller.config head plan step result).2
          = .next head' → InSession goal (session.replay controller.decimal
            (past ++ (Agent.afterCall (controller.env T) controller.config head plan step result).1))
            head' := by
  obtain ⟨judged, hjudged⟩ : ∃ judged, judge controller.config head.strategies
      (head.state.evaluated (classifyResult result)) plan step (classifyResult result) = judged :=
    ⟨_, rfl⟩
  rcases afterCall_cases (controller.env T) controller.config head plan step result hjudged with
    ⟨_, hraised⟩ | ⟨plan', repaired, world, record, next, hrepair, hrecord, hnext, hafter⟩
  · rw [hraised]
    refine ⟨.nothing ?_, fun _ hnext => absurd hnext Round.stop_ne_next⟩
    rw [savedRecords_append, hpast]
    rfl
  · have hrecorded : Recorded goal record := by
      rw [hrecord, ← hjudged, ← h.goal_eq]
      exact recorded_iterationRecord _ _ (head.state.evaluated _) _ _ _ _ _ _ _
    have hstrategies : next.strategies = session.strategies.learn record := by
      rw [hnext, hrecord, ← h.strategies_eq]
      rfl
    have hworld : next.world.2
        = session.save controller.decimal record (session.strategies.learn record) := by
      rw [hnext, ← h.world_eq, ← session_of_repairPlan hrepair]
      rfl
    have hgoal : next.state.goal = goal := by
      rw [hnext, ← h.goal_eq, ← hjudged]
      exact judge_goal _ _ _ _ _ _
    have hdecided : savedRecords (past ++ [.decided judged.decision]) = [] := by
      rw [savedRecords_append, hpast]
      rfl
    rw [hafter, hstrategies, List.append_cons]
    refine ⟨.record hdecided (by simp [executorCalls_append, hcall]) hrecorded, ?_⟩
    intro head' hconclude
    rw [replay_append, replay_eq_self hdecided]
    exact InSession.conclude ⟨hstrategies, hworld, hgoal⟩ hconclude

/-- **A round saves at most one record**, and the session goes on as its events say. -/
theorem InSession.iterate {goal : String} {session : Session F} (h : InSession goal session head) :
    SavesLast goal session.strategies (iterate (controller.env T) controller.config head).1
      ∧ ∀ head', (Agent.iterate (controller.env T) controller.config head).2 = .next head' →
        InSession goal (session.replay controller.decimal
          (Agent.iterate (controller.env T) controller.config head).1) head' := by
  unfold Agent.iterate
  split
  · split
    · exact ⟨.nothing rfl, fun _ hnext => absurd hnext Round.stop_ne_next⟩
    rcases hplanned : ensureStepPlan (controller.env T) head.world
        (head.state.attempt (head.iteration + 1)) with _ | ⟨fresh, plan, world⟩
    · simp only [afterSnapshot, hplanned]
      exact ⟨.nothing rfl, fun _ hnext => absurd hnext Round.stop_ne_next⟩
    · rcases hcurrent : plan.current? with _ | step
      · simp only [afterSnapshot, hplanned, hcurrent]
        exact ⟨.nothing rfl, fun _ hnext => absurd hnext Round.stop_ne_next⟩
      · simp only [afterSnapshot, hplanned, hcurrent]
        have hcalled : InSession goal session (head.called
            ((controller.env T).execute world step).2
            ((head.state.attempt (head.iteration + 1)).install plan)) :=
          ⟨h.strategies_eq, (session_of_ensureStepPlan hplanned).trans h.world_eq, h.goal_eq⟩
        exact hcalled.afterCall plan step _ [.started _ _, .planned fresh plan, .executed _ _ _] rfl
          (List.cons_ne_nil _ _)
  · exact ⟨.nothing rfl, fun _ hnext => absurd hnext Round.stop_ne_next⟩

/-- **So does a round that ends where `save` raises.** -/
theorem InSession.iterateSaving {goal : String} {session : Session F}
    (h : InSession goal session head) {events : List (Event F)}
    {round : Round (LoopHead (W × Session F) F) Finish}
    (hround : iterateSaving T controller head = (events, round)) :
    SavesLast goal session.strategies events
      ∧ ∀ head', round = .next head' →
        InSession goal (session.replay controller.decimal events) head' := by
  unfold Agent.iterateSaving at hround
  dsimp only at hround
  split at hround
  · obtain ⟨rfl, rfl⟩ := Prod.mk.inj hround
    exact ⟨h.iterate.1, fun _ hnext => absurd hnext Round.stop_ne_next⟩
  · obtain ⟨rfl, rfl⟩ := Prod.mk.inj hround
    exact h.iterate

/-! ### A whole run -/

theorem lowers_of_iterateSaving {events : List (Event F)}
    (h : iterateSaving T controller head = (events, .next head')) :
    (controller.config.maxIterations - head'.iteration).toNat
      < (controller.config.maxIterations - head.iteration).toNat := by
  unfold Agent.iterateSaving at h
  dsimp only at h
  split at h
  · cases h
  · exact lowers_of_next h

/-- After these events the property holds of the saved records and of the session, and there are no more
saves than calls of the executor. -/
structure Kept (decimal : F → ℤ × ℤ) (P : List LoopRecord → Session F → Prop) (session : Session F)
    (past : List (Event F)) : Prop where
  holds : P (savedRecords past) (session.replay decimal past)
  length_le : (savedRecords past).length ≤ (executorCalls past).length

theorem Kept.append {decimal : F → ℤ × ℤ} {P : List LoopRecord → Session F → Prop} {goal : String}
    {session : Session F} {past events : List (Event F)} (h : Kept decimal P session past)
    (hsave : ∀ records session record, P records session → Recorded goal record →
      P (records ++ [record]) (session.save decimal record (session.strategies.learn record)))
    (hsaves : SavesLast goal (session.replay decimal past).strategies events) :
    Kept decimal P session (past ++ events) := by
  cases hsaves with
  | nothing hsaved =>
      constructor
      · rw [savedRecords_append, hsaved, List.append_nil, replay_append, replay_eq_self hsaved]
        exact h.holds
      · rw [savedRecords_append, hsaved, List.append_nil, executorCalls_append, List.length_append]
        exact Nat.le_add_right_of_le h.length_le
  | record hsaved hcall hrecorded =>
      constructor
      · rw [savedRecords_append, savedRecords_append, hsaved, List.nil_append, replay_append,
          replay_append, replay_eq_self hsaved]
        exact hsave _ _ _ h.holds hrecorded
      · have hpos := List.length_pos_of_ne_nil hcall
        simp only [savedRecords_append, executorCalls_append, hsaved, List.length_append,
          List.nil_append]
        exact Nat.add_le_add h.length_le (Nat.le_add_right_of_le hpos)

/-- **The rule for what a run saves.** What holds at the start and is kept by every save holds at the
end, and there are no more saves than calls of the executor. -/
theorem trace_induction (controller : Controller W F) (goal : String) (session : Session F)
    (outside : W) (P : List LoopRecord → Session F → Prop) (hstart : P [] (session.merged T goal))
    (hsave : ∀ records session record, P records session → Recorded goal record →
      P (records ++ [record])
        (session.save controller.decimal record (session.strategies.learn record))) :
    Kept controller.decimal P (session.merged T goal)
      (session.trace T controller goal outside) := by
  have hempty : Kept controller.decimal P (session.merged T goal) [] := ⟨hstart, Nat.le_refl _⟩
  have hinitial : InSession goal (session.merged T goal)
      (LoopHead.initial (controller.env T) session.strategies (outside, session.merged T goal) goal) :=
    ⟨rfl, rfl, rfl⟩
  have hround : ∀ past head events round, Kept controller.decimal P (session.merged T goal) past
        ∧ InSession goal ((session.merged T goal).replay controller.decimal past) head →
      iterateSaving T controller head = (events, round) →
      Kept controller.decimal P (session.merged T goal) (past ++ events)
        ∧ ∀ head', round = .next head' → InSession goal
          ((session.merged T goal).replay controller.decimal (past ++ events)) head' := by
    rintro past head events round ⟨hpast, hin⟩ hround
    obtain ⟨hsaves, hnext⟩ := hin.iterateSaving hround
    exact ⟨hpast.append hsave hsaves, replay_append _ past events _ ▸ hnext⟩
  obtain ⟨_, _, hkept⟩ := runLoop_ends (iterateSaving T controller)
    (fun head => (controller.config.maxIterations - head.iteration).toNat)
    (fun _ _ _ h => lowers_of_iterateSaving h)
    (fun past head => Kept controller.decimal P (session.merged T goal) past
      ∧ InSession goal ((session.merged T goal).replay controller.decimal past) head)
    (fun trace _ => Kept controller.decimal P (session.merged T goal) trace)
    (fun past head events head' hinv h =>
      (hround past head events _ hinv h).imp_right fun hnext => hnext head' rfl)
    (fun past head events _ hinv h => (hround past head events _ hinv h).1)
    ⟨hempty, hinitial⟩ (controller.config.maxIterations.toNat + 1) (by simp [LoopHead.initial])
  exact hkept

end Iterations

end PersonalDevin.Agent
