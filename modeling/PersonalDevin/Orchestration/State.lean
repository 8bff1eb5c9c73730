import PersonalDevin.Value
import Mathlib.Data.List.Infix

/-!
# The state machine of an orchestration run

`SystemStateMachine` with its table of transitions. A machine that was only moved by `transition_to`
numbers its transitions from 1, and each of them starts where the one before it has ended.
-/

namespace PersonalDevin.Orchestration

inductive SystemState where
  | initialized
  | planning
  | executing
  | validating
  | reflecting
  | improving
  | completed
  | failed
  deriving DecidableEq

namespace SystemState

def text : SystemState → String
  | initialized => "initialized"
  | planning => "planning"
  | executing => "executing"
  | validating => "validating"
  | reflecting => "reflecting"
  | improving => "improving"
  | completed => "completed"
  | failed => "failed"

def allowedTransitions : SystemState → List SystemState
  | initialized => [planning, failed]
  | planning => [executing, failed]
  | executing => [validating, failed]
  | validating => [reflecting, failed]
  | reflecting => [improving, failed]
  | improving => [completed, failed]
  | completed => []
  | failed => []

def IsTerminal (state : SystemState) : Prop := state = completed ∨ state = failed

instance (state : SystemState) : Decidable state.IsTerminal :=
  inferInstanceAs (Decidable (_ ∨ _))

end SystemState

structure StateTransition where
  index : ℕ
  fromState : SystemState
  toState : SystemState
  reason : String
  metadata : Fields

structure SystemStateMachine where
  runId : String
  traceId : String
  state : SystemState
  transitions : List StateTransition

structure SystemStateSnapshot where
  runId : String
  traceId : String
  currentState : SystemState
  transitions : List StateTransition

namespace SystemStateMachine

/-- `__init__`. -/
def new (runId traceId : String) : SystemStateMachine where
  runId := runId
  traceId := traceId
  state := .initialized
  transitions := []

def canTransitionTo (machine : SystemStateMachine) (newState : SystemState) : Bool :=
  newState ∈ machine.state.allowedTransitions

def invalidTransition (machine : SystemStateMachine) (newState : SystemState) : String :=
  "Invalid transition: " ++ machine.state.text ++ " -> " ++ newState.text

/-- The machine after a transition that is allowed. -/
def moveTo (machine : SystemStateMachine) (newState : SystemState) (reason : String)
    (metadata : Fields) : SystemStateMachine :=
  { machine with
    state := newState
    transitions := machine.transitions ++ [{
      index := machine.transitions.length + 1
      fromState := machine.state
      toState := newState
      reason
      metadata }] }

/-- `transition_to`, with the text of the error it raises. -/
def transitionTo (machine : SystemStateMachine) (newState : SystemState) (reason : String)
    (metadata : Fields) : Except String SystemStateMachine :=
  if machine.canTransitionTo newState then .ok (machine.moveTo newState reason metadata)
  else .error (machine.invalidTransition newState)

def snapshot (machine : SystemStateMachine) : SystemStateSnapshot where
  runId := machine.runId
  traceId := machine.traceId
  currentState := machine.state
  transitions := machine.transitions

/-- The states the machine was moved to. -/
def visited (machine : SystemStateMachine) : List SystemState :=
  machine.transitions.map StateTransition.toState

@[simp] theorem moveTo_visited (machine : SystemStateMachine) (newState : SystemState)
    (reason : String) (metadata : Fields) :
    (machine.moveTo newState reason metadata).visited = machine.visited ++ [newState] :=
  List.map_append

theorem transitionTo_of_mem {machine : SystemStateMachine} {newState : SystemState}
    (h : newState ∈ machine.state.allowedTransitions) (reason : String) (metadata : Fields) :
    machine.transitionTo newState reason metadata = .ok (machine.moveTo newState reason metadata) :=
  if_pos (decide_eq_true h)

/-! ### Well-formed histories -/

/-- The transitions are numbered from 1, the first starts in INITIALIZED and each other one where the
one before it has ended; the machine is where the last one has ended. -/
structure WellFormed (machine : SystemStateMachine) : Prop where
  numbered : machine.transitions.map StateTransition.index
    = List.range' 1 machine.transitions.length
  chained : machine.transitions.map StateTransition.fromState ++ [machine.state]
    = SystemState.initialized :: machine.visited

theorem wellFormed_new (runId traceId : String) : (new runId traceId).WellFormed where
  numbered := rfl
  chained := rfl

theorem WellFormed.moveTo {machine : SystemStateMachine} (h : machine.WellFormed)
    (newState : SystemState) (reason : String) (metadata : Fields) :
    (machine.moveTo newState reason metadata).WellFormed where
  numbered := by
    show (machine.transitions ++ [_]).map StateTransition.index
      = List.range' 1 (machine.transitions ++ [_]).length
    rw [List.map_append, h.numbered, List.length_append, List.length_singleton, List.range'_concat]
    simp [Nat.add_comm]
  chained := by
    show (machine.transitions ++ [_]).map StateTransition.fromState ++ [newState] = _
    rw [moveTo_visited, ← List.cons_append, ← h.chained, List.map_append]
    rfl

end SystemStateMachine

end PersonalDevin.Orchestration
