import PersonalDevin.Agent.Turns
import Mathlib.Data.List.Chain

/-!
# Runs of the loop controller

Every run ends, and what its iterations keep holds of its whole trace. The executor calls of a trace
are what most properties of a run speak about.
-/

namespace PersonalDevin.Agent

open Lib

section Runs

variable {σ F : Type} [ScoreArith F]

/-- An iteration that goes on uses up a round. -/
theorem lowers_of_next {env : Env σ} {config : Config} {head head' : LoopHead σ F}
    {events : List (Event F)} (h : iterate env config head = (events, .next head')) :
    (config.maxIterations - head'.iteration).toNat < (config.maxIterations - head.iteration).toNat := by
  have hiteration := iterate_cases env config head
  rw [h] at hiteration
  cases hiteration with
  | turn hmax _ _ hend =>
      cases hend with
      | next _ _ hiteration =>
          rw [hiteration]
          push_cast
          omega

/-- A head at which a run starts an iteration. -/
structure Visited (env : Env σ) (config : Config) (strategies : Strategies F) (world : σ)
    (goal : String) (head : LoopHead σ F) : Prop where
  reached : Reaches (iterate env config) (LoopHead.initial env strategies world goal) head
  below : head.iteration < config.maxIterations

/-- **The rule for runs.** What holds at the start and is kept by every iteration that goes on, and
what every iteration that stops establishes, holds of the run, which does stop. -/
theorem run_induction_visited (env : Env σ) (config : Config) (strategies : Strategies F) (world : σ)
    (goal : String) (Inv : List (Event F) → LoopHead σ F → Prop)
    (Post : List (Event F) → Finish → Prop)
    (hinit : Inv [] (LoopHead.initial env strategies world goal))
    (hnext : ∀ past head events head',
      (head.iteration < config.maxIterations → Visited env config strategies world goal head) →
      Inv past head → Iteration env config head events (.next head') → Inv (past ++ events) head')
    (hstop : ∀ past head events finish,
      (head.iteration < config.maxIterations → Visited env config strategies world goal head) →
      Inv past head → Iteration env config head events (.stop finish) → Post (past ++ events) finish) :
    ∃ finish, (run env config strategies world goal).2 = some finish
      ∧ Post (run env config strategies world goal).1 finish := by
  have hcases : ∀ (head : LoopHead σ F) events round, iterate env config head = (events, round) →
      Iteration env config head events round := fun head events round h => by
    have hiteration := iterate_cases env config head
    rwa [h] at hiteration
  exact runLoop_ends (iterate env config) (fun head => (config.maxIterations - head.iteration).toNat)
    (fun _ _ _ h => lowers_of_next h)
    (fun past head =>
      Reaches (iterate env config) (LoopHead.initial env strategies world goal) head
        ∧ Inv past head) Post
    (fun past head events head' hinv h => ⟨hinv.1.next (congrArg Prod.snd h),
      hnext past head events head' (fun hmax => ⟨hinv.1, hmax⟩) hinv.2 (hcases _ _ _ h)⟩)
    (fun past head events r hinv h =>
      hstop past head events r (fun hmax => ⟨hinv.1, hmax⟩) hinv.2 (hcases _ _ _ h))
    ⟨.refl, hinit⟩ (config.maxIterations.toNat + 1) (by simp [LoopHead.initial])

theorem run_induction (env : Env σ) (config : Config) (strategies : Strategies F) (world : σ)
    (goal : String) (Inv : List (Event F) → LoopHead σ F → Prop)
    (Post : List (Event F) → Finish → Prop)
    (hinit : Inv [] (LoopHead.initial env strategies world goal))
    (hnext : ∀ past head events head', Inv past head →
      Iteration env config head events (.next head') → Inv (past ++ events) head')
    (hstop : ∀ past head events finish, Inv past head →
      Iteration env config head events (.stop finish) → Post (past ++ events) finish) :
    ∃ finish, (run env config strategies world goal).2 = some finish
      ∧ Post (run env config strategies world goal).1 finish :=
  run_induction_visited env config strategies world goal Inv Post hinit
    (fun past head events head' _ => hnext past head events head')
    fun past head events finish _ => hstop past head events finish

end Runs

/-! ### The executor calls of a trace -/

structure ExecutorCall where
  position : ℕ
  step : Step
  result : Fields

def ExecutorCall.succeeded (call : ExecutorCall) : Bool := (classifyResult call.result).success

variable {F : Type}

def Event.executorCall? : Event F → Option ExecutorCall
  | .executed position step result => some { position, step, result }
  | _ => none

def executorCalls (trace : List (Event F)) : List ExecutorCall :=
  trace.filterMap Event.executorCall?

def Call.executorCall (call : Call F) : ExecutorCall where
  position := call.plan.currentStep
  step := call.step
  result := call.result

theorem executorCalls_append (past events : List (Event F)) :
    executorCalls (past ++ events) = executorCalls past ++ executorCalls events :=
  List.filterMap_append

@[simp] theorem executorCalls_call (call : Call F) :
    executorCalls call.events = [call.executorCall] := rfl

@[simp] theorem executorCalls_turn (turn : Turn F) :
    executorCalls turn.events = [turn.toCall.executorCall] := rfl

/-! ### The turns of a trace -/

/-- The turns of a trace: the calls whose record was saved, with all their events. -/
def turnsOf : List (Event F) → List (Turn F)
  | .started state before :: .planned fresh plan :: .executed _ step result :: .decided decision
      :: .saved record after :: rest =>
      ⟨⟨state, before, fresh, plan, step, result, decision⟩, record, after⟩ :: turnsOf rest
  | _ :: rest => turnsOf rest
  | [] => []

theorem turnsOf_append (turns : List (Turn F)) (rest : List (Event F)) :
    turnsOf (turns.flatMap Turn.events ++ rest) = turns ++ turnsOf rest := by
  induction turns with
  | nil => rfl
  | cons turn turns ih =>
      rw [List.flatMap_cons, List.append_assoc, List.cons_append, ← ih]
      rfl

/-- The second turn starts from the statistics the first has left. -/
structure Follows [ScoreArith F] (first second : Turn F) : Prop where
  first_saved : TurnSaved first
  second_saved : TurnSaved second
  linked : first.after = second.before

/-- The iterations so far were turns, each following the one before. -/
structure TurnsInv {σ : Type} [ScoreArith F] (turns : List (Turn F)) (past : List (Event F))
    (head : LoopHead σ F) : Prop where
  past_eq : past = turns.flatMap Turn.events
  saved : ∀ turn ∈ turns, TurnSaved turn
  chain : turns.IsChain Follows
  last : ∀ turn ∈ turns.getLast?, turn.after = head.strategies

theorem TurnsInv.concat {σ : Type} [ScoreArith F] {env : Env σ} {turns : List (Turn F)}
    {past : List (Event F)} {head : LoopHead σ F} (h : TurnsInv turns past head) {turn : Turn F}
    (hcall : CallAt env head turn.toCall) (hsaved : TurnSaved turn) (head' : LoopHead σ F)
    (hstrategies : head'.strategies = turn.after) :
    TurnsInv (turns ++ [turn]) (past ++ turn.events) head' where
  past_eq := by simp [h.past_eq]
  saved other hmem := by
    rcases List.mem_append.1 hmem with hold | hnew
    · exact h.saved other hold
    · exact List.mem_singleton.1 hnew ▸ hsaved
  chain := by
    refine List.isChain_append.2 ⟨h.chain, List.isChain_singleton turn, ?_⟩
    intro first hfirst second hsecond
    obtain rfl : turn = second := by simpa using hsecond
    refine ⟨h.saved first (List.mem_of_getLast? hfirst), hsaved, ?_⟩
    rw [h.last first hfirst, hcall.before_eq]
  last other hmem := by
    obtain rfl : turn = other := by simpa using hmem
    exact hstrategies.symm

theorem turnsInv_initial {σ : Type} [ScoreArith F] (head : LoopHead σ F) : TurnsInv [] [] head where
  past_eq := rfl
  saved _ hmem := absurd hmem List.not_mem_nil
  chain := .nil
  last _ hmem := nomatch hmem

structure Turns [ScoreArith F] (trace : List (Event F)) : Prop where
  saved : ∀ turn ∈ turnsOf trace, TurnSaved turn
  chain : (turnsOf trace).IsChain Follows

theorem TurnsInv.turns {σ : Type} [ScoreArith F] {turns : List (Turn F)} {past rest : List (Event F)}
    {head : LoopHead σ F} (h : TurnsInv turns past head) (hrest : turnsOf rest = []) :
    Turns (past ++ rest) := by
  have heq : turnsOf (past ++ rest) = turns := by
    rw [h.past_eq, turnsOf_append, hrest, List.append_nil]
  exact ⟨heq ▸ h.saved, heq ▸ h.chain⟩

theorem TurnsInv.next {σ : Type} [ScoreArith F] {env : Env σ} {config : Config}
    {turns : List (Turn F)} {past events : List (Event F)} {head head' : LoopHead σ F}
    (h : TurnsInv turns past head) (hiteration : Iteration env config head events (.next head')) :
    ∃ turns', TurnsInv turns' (past ++ events) head' := by
  cases hiteration with
  | turn _ hcall hsaved hend =>
      cases hend with
      | next _ _ _ _ hstrategies => exact ⟨_, h.concat hcall hsaved _ hstrategies⟩

theorem TurnsInv.stop {σ : Type} [ScoreArith F] {env : Env σ} {config : Config}
    {turns : List (Turn F)} {past events : List (Event F)} {head : LoopHead σ F} {finish : Finish}
    (h : TurnsInv turns past head) (hiteration : Iteration env config head events (.stop finish)) :
    Turns (past ++ events) := by
  cases hiteration with
  | exhausted => exact h.turns rfl
  | logRaised => exact h.turns rfl
  | planRaised => exact h.turns rfl
  | completed => exact h.turns rfl
  | repairRaised => exact h.turns rfl
  | @turn turn _ _ hcall hsaved _ =>
      have hnext := h.concat hcall hsaved { head with strategies := turn.after } rfl
      rw [← List.append_nil (past ++ turn.events)]
      exact hnext.turns rfl

/-- **The turns of a run**: each saved its own result and decision, and each starts where the one
before it ended. -/
theorem run_turns {σ : Type} [ScoreArith F] (env : Env σ) (config : Config)
    (strategies : Strategies F) (world : σ) (goal : String) :
    Turns (run env config strategies world goal).1 := by
  obtain ⟨_, _, hpost⟩ := run_induction env config strategies world goal
    (fun past head => ∃ turns, TurnsInv turns past head) (fun trace _ => Turns trace)
    ⟨[], turnsInv_initial _⟩
    (fun _ _ _ _ ⟨_, hinv⟩ hiteration => hinv.next hiteration)
    (fun _ _ _ _ ⟨_, hinv⟩ hiteration => hinv.stop hiteration)
  exact hpost

/-! ### A scripted environment

A planner with one plan, and an executor that answers from a list, which is the world. -/

def scriptedEnv (plan : Fields) : Env (List Fields) where
  createPlan script _ _ := (.value (.dict plan), script)
  repairStep := none
  execute script _ := (script.headD [], script.tail)
  save script _ := script
  retrieve script _ := (.missing, script)
  store _ := none
  clock _ := "2026-01-01T00:00:00+00:00"

def twoSteps : Fields :=
  [("steps", .list [.str "first", .str "second"]), ("current_step", .int 0)]

def succeeds : Fields := [("success", .bool true)]

def failsWith (errorType : String) : Fields :=
  [("success", .bool false), ("error_type", .str errorType)]

def defaultConfig : Config where
  maxIterations := 10
  failureThreshold := 3
  stepFailureThreshold := 2

end PersonalDevin.Agent
