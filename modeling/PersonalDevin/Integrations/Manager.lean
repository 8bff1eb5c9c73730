import PersonalDevin.Lib.Dict
import PersonalDevin.Planning.Graph
import PersonalDevin.Text

/-!
# Integration providers, their registry and the manager

A provider acts on a state `σ` outside the program, the file system for instance. It answers with a
response or raises; the manager lets only exceptions of the integrations layer out. The log lines and
the durations in them are left out, and a timestamp is its text.
-/

namespace PersonalDevin.Integrations

open Lib
open Planning.DependencyGraph (sorted)

structure IntegrationRequest where
  id : String
  integration : String
  payload : Fields
  metadata : Fields
  timestamp : String

structure IntegrationResponse where
  id : String
  integration : String
  payload : Fields
  metadata : Fields
  timestamp : String

/-- What is raised: one of the layer's own exceptions, or any other. -/
inductive IntegrationFailure where
  | notFound (text : String)
  | execution (text : String)
  | other (text : String)
  deriving DecidableEq

/-- `BaseIntegration`. -/
structure Integration (σ : Type) where
  name : String
  allowedActions : List String
  execute : IntegrationRequest → σ → Except IntegrationFailure IntegrationResponse × σ

variable {σ : Type}

/-! ### The registry -/

abbrev IntegrationRegistry (σ : Type) := Dict String (Integration σ)

namespace IntegrationRegistry

def register (registry : IntegrationRegistry σ) (integration : Integration σ) :
    Except String (IntegrationRegistry σ) :=
  if strip integration.name = "" then .error "integration.name must be a non-empty string"
  else if integration.name ∈ registry.keys then
    .error ("integration already registered: " ++ integration.name)
  else .ok (registry.set integration.name integration)

/-- `get`, which raises where there is no such provider. -/
def find (registry : IntegrationRegistry σ) (name : String) :
    Except IntegrationFailure (Integration σ) :=
  match registry.get? name with
  | some integration => .ok integration
  | none => .error (.notFound ("integration not found: " ++ name))

end IntegrationRegistry

/-! ### The manager -/

mutual

/-- The type that makes `hash(x)` raise. -/
def unhashable : Value → Option String
  | .list _ => some "list"
  | .dict _ => some "dict"
  | .tuple items => unhashableItem items
  | _ => none

def unhashableItem : List Value → Option String
  | [] => none
  | item :: rest => (unhashable item).or (unhashableItem rest)

end

/-- `action in allowed`, for a set of texts. -/
def isAllowed (allowed : List String) (action : Value) : Except IntegrationFailure Bool :=
  match unhashable action with
  | some type => .error (.other ("unhashable type: '" ++ type ++ "'"))
  | none =>
      match action with
      | .str s => .ok (s ∈ allowed)
      | _ => .ok false

theorem isAllowed_ok_true {allowed : List String} {action : Value}
    (h : isAllowed allowed action = .ok true) : ∃ s ∈ allowed, action = .str s := by
  unfold isAllowed at h
  split at h
  · cases h
  · cases action with
    | str s => exact ⟨s, of_decide_eq_true (Except.ok.inj h), rfl⟩
    | _ => cases h

/-- The text of `sorted(allowed)`. -/
def allowedText (allowed : List String) : String :=
  (Value.list ((sorted allowed).map .str)).pyRepr

/-- `payload.get("action")`. -/
def IntegrationRequest.action (request : IntegrationRequest) : Value :=
  (request.payload.get? "action").getD .none

/-- The body of the `try` of `execute`. -/
def dispatch (registry : IntegrationRegistry σ) (request : IntegrationRequest) (state : σ) :
    Except IntegrationFailure IntegrationResponse × σ :=
  match registry.find request.integration with
  | .error failure => (.error failure, state)
  | .ok integration =>
      if integration.allowedActions = [] then integration.execute request state
      else
        match isAllowed integration.allowedActions request.action with
        | .error failure => (.error failure, state)
        | .ok false =>
            (.error (.execution ("action " ++ request.action.pyRepr ++ " is not permitted by "
              ++ request.integration ++ "; allowed: " ++ allowedText integration.allowedActions)),
              state)
        | .ok true => integration.execute request state

/-- What the `except` of `execute` raises. -/
def wrap : IntegrationFailure → IntegrationFailure
  | .other text => .execution text
  | failure => failure

def execute (registry : IntegrationRegistry σ) (request : IntegrationRequest) (state : σ) :
    Except IntegrationFailure IntegrationResponse × σ :=
  match dispatch registry request state with
  | (.error failure, state) => (.error (wrap failure), state)
  | (.ok response, state) => (.ok response, state)

/-- Requests one after the other, with the answer to each. -/
def run (registry : IntegrationRegistry σ) :
    List IntegrationRequest → σ → List (Except IntegrationFailure IntegrationResponse) × σ
  | [], state => ([], state)
  | request :: rest, state =>
      let answered := execute registry request state
      let later := run registry rest answered.2
      (answered.1 :: later.1, later.2)

theorem run_append (registry : IntegrationRegistry σ) (requests more : List IntegrationRequest)
    (state : σ) :
    run registry (requests ++ more) state
      = ((run registry requests state).1 ++ (run registry more (run registry requests state).2).1,
        (run registry more (run registry requests state).2).2) := by
  induction requests generalizing state with
  | nil => rfl
  | cons request rest ih =>
      rw [List.cons_append, run]
      rw [ih]
      rfl

theorem execute_state (registry : IntegrationRegistry σ) (request : IntegrationRequest) (state : σ) :
    (execute registry request state).2 = (dispatch registry request state).2 := by
  rw [execute]
  split <;> rename_i hdispatch <;> rw [hdispatch]

theorem execute_ok_iff {registry : IntegrationRegistry σ} {request : IntegrationRequest} {state : σ}
    {response : IntegrationResponse} :
    (execute registry request state).1 = .ok response
      ↔ (dispatch registry request state).1 = .ok response := by
  rw [execute]
  split <;> rename_i hdispatch <;> rw [hdispatch]
  exact ⟨(fun herror => by cases herror), (fun herror => by cases herror)⟩

end PersonalDevin.Integrations
