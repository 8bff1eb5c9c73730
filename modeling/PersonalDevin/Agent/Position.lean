import PersonalDevin.Agent.Runs

/-!
# Progress through the steps of a plan

A retry keeps the current step and a repair replaces it in place. An adjustment changes the action of
the current step in place too, but the next iteration then asks the planner again, and a planner that
answers with the same steps from the start takes the run back to position 0. So progress is kept
exactly as long as no iteration starts, with `adjust_plan` as the last decision, on a plan that has
advanced.
-/

namespace PersonalDevin.Agent

open Lib

variable {σ F : Type}

/-- On each call the planner returns the same list of steps, from position 0. -/
def FixedPlanner (env : Env σ) (items : List Value) : Prop :=
  ∀ world state context, ∃ fields : Fields,
    (env.createPlan world state context).1 = .value (.dict fields)
      ∧ fields.get? "steps" = some (.list items)
      ∧ ((fields.get? "current_step").getD (.int 0)).pyInt = some 0

/-- A step never comes after a later one, and comes again no more once it has succeeded. -/
def NeverLost (trace : List (Event F)) : Prop :=
  (executorCalls trace).Pairwise fun earlier later =>
    earlier.position ≤ later.position
      ∧ (earlier.succeeded = true → earlier.position + 1 ≤ later.position)

instance (trace : List (Event F)) : Decidable (NeverLost trace) :=
  inferInstanceAs (Decidable ((executorCalls trace).Pairwise _))

/-- An iteration starts after the decision `adjust_plan` on a plan that has advanced. -/
def ReplansAhead (event : Event F) : Prop :=
  ∃ state strategies plan, event = .started state strategies
    ∧ state.lastDecision = some .adjustPlan ∧ state.activePlan = some plan ∧ 0 < plan.currentStep

/-- The call comes after every step that has succeeded. -/
def Ahead (calls : List ExecutorCall) (position : ℕ) : Prop :=
  ∀ call ∈ calls, call.position ≤ position ∧ (call.succeeded = true → call.position + 1 ≤ position)

theorem neverLost_concat {past events : List (Event F)} {call : ExecutorCall}
    (h : executorCalls events = [call]) :
    NeverLost (past ++ events) ↔ NeverLost past ∧ Ahead (executorCalls past) call.position := by
  rw [NeverLost, executorCalls_append, h, List.pairwise_append]
  simp only [List.pairwise_singleton, true_and, List.mem_singleton, forall_eq]
  rfl

theorem neverLost_append_of_no_call {past events : List (Event F)} (h : executorCalls events = []) :
    NeverLost (past ++ events) ↔ NeverLost past := by
  rw [NeverLost, executorCalls_append, h, List.append_nil]
  rfl

theorem not_replansAhead_of_not_started {event : Event F}
    (h : ∀ state strategies, event ≠ .started state strategies) : ¬ ReplansAhead event :=
  fun ⟨state, strategies, _, heq, _⟩ => h state strategies heq

/-- Of the events of an iteration only the first can be a replanning ahead. -/
theorem forall_not_replansAhead_iff {past : List (Event F)} {state : LoopState}
    {strategies : Strategies F} {rest : List (Event F)}
    (hrest : ∀ event ∈ rest, ∀ state strategies, event ≠ .started state strategies) :
    (∀ event ∈ past ++ .started state strategies :: rest, ¬ ReplansAhead event)
      ↔ (∀ event ∈ past, ¬ ReplansAhead event)
        ∧ ¬ ReplansAhead (Event.started state strategies) := by
  simp only [List.forall_mem_append, List.forall_mem_cons]
  exact and_congr_right fun _ => and_iff_left fun event hmem =>
    not_replansAhead_of_not_started (hrest event hmem)

/-- The plan of an iteration is the active one, or the planner's from position 0. -/
theorem planned_cases {env : Env σ} {items : List Value} (hplanner : FixedPlanner env items)
    (world : σ) (state : LoopState) :
    (∃ plan, state.activePlan = some plan ∧ state.lastDecision ≠ some .adjustPlan
        ∧ ensureStepPlan env world state = some (false, plan, world))
      ∨ ((state.activePlan = none ∨ state.lastDecision = some .adjustPlan)
        ∧ ∃ fresh plan world', ensureStepPlan env world state = some (fresh, plan, world')
          ∧ plan.steps.length = items.length ∧ plan.currentStep = 0) := by
  have hcreate : ∀ fallback, ∃ plan, normalizeStepPlan
      (env.createPlan world state state.memoryContext).1 fallback = some plan
        ∧ plan.steps.length = items.length ∧ plan.currentStep = 0 := by
    intro fallback
    obtain ⟨fields, hraw, hsteps, hcurrent⟩ := hplanner world state state.memoryContext
    refine ⟨⟨items.mapIdx fun index step => normalizeStep step index, 0⟩, ?_, by simp, rfl⟩
    rw [hraw]
    simp only [normalizeStepPlan, hsteps, hcurrent, Int.toNat_zero, Nat.zero_min]
  rcases ensureStepPlan_cases env world state with hactive | ⟨hwhy, hcreated⟩
  · exact .inl hactive
  · obtain ⟨plan, hplan, hfacts⟩ := hcreate state.activePlan
    refine .inr ⟨hwhy, true, plan, (env.createPlan world state state.memoryContext).2, ?_, hfacts⟩
    rw [hcreated, hplan, Option.map_some]

/-- The invariant of the loop, for a planner with `n` steps. -/
structure PositionInv (n : ℕ) (past : List (Event F)) (head : LoopHead σ F) : Prop where
  neverLost_iff : NeverLost past ↔ ∀ event ∈ past, ¬ ReplansAhead event
  no_call : head.state.activePlan = none → executorCalls past = []
  length_eq : ∀ plan, head.state.activePlan = some plan →
    plan.steps.length = n ∧ plan.currentStep ≤ n
  ahead : ∀ plan, head.state.activePlan = some plan → NeverLost past →
    Ahead (executorCalls past) plan.currentStep
  reached : ∀ plan, head.state.activePlan = some plan → 0 < plan.currentStep →
    ∃ call ∈ executorCalls past, call.succeeded = true ∧ call.position + 1 = plan.currentStep

/-- The plan an iteration works on, against what the run has done so far. -/
structure PlannedInv (n : ℕ) (past : List (Event F)) (started : Event F) (plan : StepPlan) : Prop where
  length_eq : plan.steps.length = n ∧ plan.currentStep ≤ n
  ahead_iff : NeverLost past ∧ Ahead (executorCalls past) plan.currentStep
    ↔ (∀ event ∈ past, ¬ ReplansAhead event) ∧ ¬ ReplansAhead started
  reached : 0 < plan.currentStep →
    ∃ call ∈ executorCalls past, call.succeeded = true ∧ call.position + 1 = plan.currentStep
  replans : ReplansAhead started → plan.currentStep < plan.steps.length

theorem replansAhead_started_iff {state : LoopState} {strategies : Strategies F} {plan : StepPlan}
    (hactive : state.activePlan = some plan) :
    ReplansAhead (Event.started state strategies)
      ↔ state.lastDecision = some .adjustPlan ∧ 0 < plan.currentStep := by
  constructor
  · rintro ⟨_, _, plan', heq, hdecision, hactive', hposition⟩
    obtain ⟨rfl, _⟩ := Event.started.inj heq
    rw [hactive, Option.some.injEq] at hactive'
    exact ⟨hdecision, hactive' ▸ hposition⟩
  · exact fun ⟨hdecision, hposition⟩ => ⟨state, strategies, plan, rfl, hdecision, hactive, hposition⟩

/-- From position 0 nothing is lost only if the active plan had reached nothing. -/
theorem PositionInv.ahead_zero_iff {n : ℕ} {past : List (Event F)} {head : LoopHead σ F}
    (h : PositionInv n past head) {active : StepPlan} (hactive : head.state.activePlan = some active)
    (hpast : NeverLost past) : Ahead (executorCalls past) 0 ↔ ¬ 0 < active.currentStep := by
  have hold := h.ahead active hactive hpast
  constructor
  · intro hahead hposition
    obtain ⟨call, hmem, hsuccess, _⟩ := h.reached active hactive hposition
    have hback := (hahead call hmem).2 hsuccess
    omega
  · intro hposition
    have hactiveZero : active.currentStep = 0 := by omega
    exact hactiveZero ▸ hold

theorem PositionInv.planned {env : Env σ} {items : List Value} (hplanner : FixedPlanner env items)
    {past : List (Event F)} {head : LoopHead σ F} (h : PositionInv items.length past head)
    {state : LoopState} (hstate : state = head.state.attempt (head.iteration + 1)) {fresh : Bool}
    {plan : StepPlan} {world : σ} (hplanned : ensureStepPlan env head.world state
      = some (fresh, plan, world)) :
    PlannedInv items.length past (.started state head.strategies) plan := by
  subst hstate
  rcases planned_cases hplanner head.world (head.state.attempt (head.iteration + 1)) with
    ⟨active, hactive, hdecision, hsome⟩ | ⟨hwhy, _, created, _, hsome, hlength, hzero⟩
  · -- the active plan goes on
    rw [hplanned, Option.some.injEq, Prod.mk.injEq, Prod.mk.injEq] at hsome
    obtain ⟨_, rfl, _⟩ := hsome
    have hnot : ¬ ReplansAhead (.started (head.state.attempt (head.iteration + 1)) head.strategies) :=
      fun hreplans => hdecision ((replansAhead_started_iff hactive).1 hreplans).1
    refine ⟨h.length_eq plan hactive, ?_, h.reached plan hactive, fun hreplans => absurd hreplans hnot⟩
    rw [h.neverLost_iff, and_iff_left hnot]
    exact and_iff_left_of_imp fun hpast => h.ahead plan hactive (h.neverLost_iff.2 hpast)
  · rw [hplanned, Option.some.injEq, Prod.mk.injEq, Prod.mk.injEq] at hsome
    obtain ⟨_, rfl, _⟩ := hsome
    rcases hactive : head.state.activePlan with _ | active
    · -- the first plan: nothing was executed
      have hnot : ¬ ReplansAhead
          (.started (head.state.attempt (head.iteration + 1)) head.strategies) := by
        rintro ⟨_, _, active, heq, _, hsome, _⟩
        obtain ⟨rfl, _⟩ := Event.started.inj heq
        have hnone : (head.state.attempt (head.iteration + 1)).activePlan = none := hactive
        rw [hnone] at hsome
        cases hsome
      refine ⟨⟨hlength, by omega⟩, ?_, by omega, fun hreplans => absurd hreplans hnot⟩
      rw [h.neverLost_iff, and_iff_left hnot, h.no_call hactive]
      exact and_iff_left fun _ hmem => absurd hmem List.not_mem_nil
    · -- a new plan from position 0, which loses what the active plan had reached
      have hdecision : head.state.lastDecision = some .adjustPlan := by
        apply hwhy.resolve_left
        intro hnone
        have hsome : (head.state.attempt (head.iteration + 1)).activePlan = some active := hactive
        rw [hnone] at hsome
        cases hsome
      have hreplans : ReplansAhead (.started (head.state.attempt (head.iteration + 1))
          head.strategies) ↔ 0 < active.currentStep := by
        rw [replansAhead_started_iff
          (show (head.state.attempt (head.iteration + 1)).activePlan = some active from hactive)]
        exact and_iff_right hdecision
      obtain ⟨hactiveLength, hactiveStep⟩ := h.length_eq active hactive
      refine ⟨⟨hlength, by omega⟩, ?_, by omega, fun hr => ?_⟩
      · rw [h.neverLost_iff, hreplans, hzero]
        apply and_congr_right
        intro hpast
        exact h.ahead_zero_iff hactive (h.neverLost_iff.2 hpast)
      · have hposition := hreplans.1 hr
        omega

theorem saved_not_started (turn : Turn F) :
    ∀ event ∈ [Event.saved turn.record turn.after], ∀ state strategies,
      event ≠ .started state strategies := by
  intro event hmem state strategies heq
  rw [List.mem_singleton.1 hmem] at heq
  cases heq

/-- After a call, progress was kept exactly if no replanning ahead has occurred. -/
theorem PositionInv.call {env : Env σ} {items : List Value} {past : List (Event F)}
    {head : LoopHead σ F} (hplanner : FixedPlanner env items)
    (h : PositionInv items.length past head) {call : Call F} (hcall : CallAt env head call)
    (rest : List (Event F)) (hrest : ∀ event ∈ rest, ∀ state strategies,
      event ≠ .started state strategies) (hno : executorCalls rest = []) :
    NeverLost (past ++ (call.events ++ rest))
      ↔ ∀ event ∈ past ++ (call.events ++ rest), ¬ ReplansAhead event := by
  obtain ⟨world, hplanned⟩ := hcall.planned
  have hinv := h.planned hplanner hcall.state_eq hplanned
  have hcalls : executorCalls (call.events ++ rest) = [call.executorCall] := by
    rw [executorCalls_append, hno, executorCalls_call, List.append_nil]
  have hevents : call.events ++ rest = .started call.state call.before
      :: (.planned call.fresh call.plan :: .executed call.plan.currentStep call.step call.result
        :: .decided call.decision :: rest) := rfl
  rw [neverLost_concat hcalls, hevents, forall_not_replansAhead_iff, hcall.before_eq]
  · exact hinv.ahead_iff
  · intro event hmem state strategies heq
    simp only [List.mem_cons] at hmem
    rcases hmem with rfl | rfl | rfl | hmem
    · cases heq
    · cases heq
    · cases heq
    · exact hrest event hmem state strategies heq

/-- The plan a turn leaves is ahead of all calls again. -/
theorem ahead_of_carried {past : List (Event F)} {turn : Turn F} {plan : StepPlan}
    (hcarried : Carried turn.toCall plan) (hnever : NeverLost (past ++ turn.events)) :
    Ahead (executorCalls (past ++ turn.events)) plan.currentStep := by
  rw [neverLost_concat (executorCalls_turn turn)] at hnever
  rw [executorCalls_append, executorCalls_turn]
  intro call hmem
  have hposition := hcarried.position_eq
  rcases List.mem_append.1 hmem with hold | hnew
  · obtain ⟨hle, hsuccess⟩ := hnever.2 call hold
    change call.position ≤ turn.plan.currentStep at hle
    change _ → call.position + 1 ≤ turn.plan.currentStep at hsuccess
    exact ⟨by omega, fun hs => (hsuccess hs).trans (by omega)⟩
  · rw [List.mem_singleton.1 hnew]
    refine ⟨by show turn.plan.currentStep ≤ _; omega, fun hs => ?_⟩
    change turn.success = true at hs
    show turn.plan.currentStep + 1 ≤ _
    rw [hposition, hs, if_pos rfl]

theorem PlannedInv.reached_next {n : ℕ} {past : List (Event F)} {started : Event F} {turn : Turn F}
    {plan : StepPlan} (h : PlannedInv n past started turn.plan) (hcarried : Carried turn.toCall plan)
    (hposition : 0 < plan.currentStep) :
    ∃ call ∈ executorCalls (past ++ turn.events),
      call.succeeded = true ∧ call.position + 1 = plan.currentStep := by
  rw [executorCalls_append, executorCalls_turn]
  rcases hsuccess : turn.success with _ | _
  · have heq : plan.currentStep = turn.plan.currentStep := by
      rw [hcarried.position_eq, hsuccess]
      rfl
    obtain ⟨call, hmem, hcall⟩ := h.reached (by omega)
    exact ⟨call, List.mem_append_left _ hmem, heq ▸ hcall⟩
  · refine ⟨turn.toCall.executorCall, by simp, hsuccess, ?_⟩
    rw [hcarried.position_eq, hsuccess]
    rfl

section Step

variable [ScoreArith F] {env : Env σ} {config : Config} {items : List Value} {past : List (Event F)}
  {head : LoopHead σ F} {events : List (Event F)}

theorem PositionInv.next (hplanner : FixedPlanner env items)
    (h : PositionInv items.length past head) {head' : LoopHead σ F}
    (hiteration : Iteration env config head events (.next head')) :
    PositionInv items.length (past ++ events) head' := by
  cases hiteration with
  | @turn turn _ _ hcall _ hend =>
      obtain ⟨world, hplanned⟩ := hcall.planned
      have hinv := h.planned hplanner hcall.state_eq hplanned
      cases hend with
      | next hcarried hplan =>
          constructor
          · exact h.call hplanner hcall _ (saved_not_started turn) rfl
          · intro hnone
            rw [hplan] at hnone
            cases hnone
          · intro active hactive
            obtain rfl : _ = active := Option.some.inj (hplan ▸ hactive)
            have hcurrent : turn.plan.currentStep < turn.plan.steps.length :=
              (List.getElem?_eq_some_iff.1 hcall.current).1
            refine ⟨hcarried.length_eq.trans hinv.length_eq.1, ?_⟩
            have hposition := hcarried.position_eq
            have hlength := hinv.length_eq.1
            split at hposition <;> omega
          · intro active hactive hnever
            obtain rfl : _ = active := Option.some.inj (hplan ▸ hactive)
            exact ahead_of_carried hcarried hnever
          · intro active hactive hposition
            obtain rfl : _ = active := Option.some.inj (hplan ▸ hactive)
            exact hinv.reached_next hcarried hposition

theorem PositionInv.stop (hplanner : FixedPlanner env items)
    (h : PositionInv items.length past head) {finish : Finish}
    (hiteration : Iteration env config head events (.stop finish)) :
    NeverLost (past ++ events) ↔ ∀ event ∈ past ++ events, ¬ ReplansAhead event := by
  cases hiteration with
  | exhausted =>
      rw [List.append_nil]
      exact h.neverLost_iff
  | logRaised =>
      rw [List.append_nil]
      exact h.neverLost_iff
  | planRaised _ hstate hplanned =>
      rcases planned_cases hplanner head.world _ with
        ⟨_, _, _, hsome⟩ | ⟨_, _, _, _, hsome, _⟩
      · rw [hplanned] at hsome
        cases hsome
      · rw [hplanned] at hsome
        cases hsome
  | @completed state fresh plan world result _ hstate hplanned hcomplete =>
      have hinv := h.planned hplanner hstate hplanned
      have hnot : ¬ ReplansAhead (.started state head.strategies) := fun hreplans => by
        have hless := hinv.replans hreplans
        omega
      rw [neverLost_append_of_no_call rfl, forall_not_replansAhead_iff (by simp), h.neverLost_iff]
      exact (and_iff_left hnot).symm
  | @repairRaised call _ _ _ _ hcall _ =>
      have hevents := h.call hplanner hcall [] (by simp) rfl
      rwa [List.append_nil] at hevents
  | @turn turn _ _ hcall _ _ => exact h.call hplanner hcall _ (saved_not_started turn) rfl

end Step

theorem fixedPlanner_twoSteps : FixedPlanner (scriptedEnv twoSteps) [.str "first", .str "second"] :=
  fun _ _ _ => ⟨_, rfl, rfl, rfl⟩

/-- **Progress is kept exactly in the runs where no iteration starts, after `adjust_plan`, on a plan
that has advanced.** -/
theorem run_neverLost_iff [ScoreArith F] {env : Env σ} {items : List Value}
    (hplanner : FixedPlanner env items) (config : Config) (strategies : Strategies F) (world : σ)
    (goal : String) :
    NeverLost (run env config strategies world goal).1
      ↔ ∀ event ∈ (run env config strategies world goal).1, ¬ ReplansAhead event := by
  obtain ⟨_, _, hpost⟩ := run_induction env config strategies world goal
    (PositionInv items.length)
    (fun trace _ => NeverLost trace ↔ ∀ event ∈ trace, ¬ ReplansAhead event)
    { neverLost_iff := iff_of_true .nil fun _ hmem => absurd hmem List.not_mem_nil
      no_call := fun _ => rfl
      length_eq := fun _ hactive => nomatch hactive
      ahead := fun _ hactive => nomatch hactive
      reached := fun _ hactive => nomatch hactive }
    (fun _ _ _ _ hinv hiteration => hinv.next hplanner hiteration)
    (fun _ _ _ _ hinv hiteration => hinv.stop hplanner hiteration)
  exact hpost

theorem run_neverLost_iff_twoSteps :
    NeverLost (run (F := ℚ) (scriptedEnv twoSteps) defaultConfig .empty [succeeds, succeeds] "goal").1
      ↔ ∀ event ∈ (run (F := ℚ) (scriptedEnv twoSteps) defaultConfig .empty [succeeds, succeeds]
        "goal").1, ¬ ReplansAhead event :=
  run_neverLost_iff fixedPlanner_twoSteps _ _ _ _

/-- The first step succeeds, the second fails with `invalid_plan`, and the first is executed again. -/
theorem adjust_plan_restarts :
    FixedPlanner (scriptedEnv twoSteps) [.str "first", .str "second"]
      ∧ (executorCalls (run (F := ℚ) (scriptedEnv twoSteps) defaultConfig .empty
          [succeeds, failsWith "invalid_plan", succeeds, succeeds] "goal").1).map
        (fun call => (call.position, call.succeeded)) = [(0, true), (1, false), (0, true), (1, true)]
      ∧ ¬ NeverLost (run (F := ℚ) (scriptedEnv twoSteps) defaultConfig .empty
        [succeeds, failsWith "invalid_plan", succeeds, succeeds] "goal").1 :=
  ⟨fixedPlanner_twoSteps, by decide +kernel, by decide +kernel⟩

end PersonalDevin.Agent
