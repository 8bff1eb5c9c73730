import PersonalDevin.AgentLoop.Copies

/-!
# One step of the agent loop

`_run_step_with_retry` with the states that it records and the entries that it logs. The operation, the
clock and the sink of the log share a world and may do anything to it; the clock never raises. The entry
of a success is emitted inside the `try` of the operation, so what the sink raises on it is handled like
a failure of the operation.
-/

namespace PersonalDevin.Loop

open Lib

def FailureType.text : FailureType → String
  | transient => "TRANSIENT"
  | logic => "LOGIC"
  | validation => "VALIDATION"

namespace Retry

inductive LoopStep where
  | plan
  | execute
  | validate
  | reflect

def LoopStep.text : LoopStep → String
  | plan => "PLAN"
  | execute => "EXECUTE"
  | validate => "VALIDATE"
  | reflect => "REFLECT"

inductive LoopStatus where
  | started
  | success
  | failed
  | retry
  deriving DecidableEq

def LoopStatus.text : LoopStatus → String
  | started => "STARTED"
  | success => "SUCCESS"
  | failed => "FAILED"
  | retry => "RETRY"

structure LoopState where
  iterationId : String
  step : LoopStep
  status : LoopStatus
  attempt : ℕ
  timestamp : String

structure RetryPolicy where
  maxAttempts : ℤ

def RetryPolicy.shouldRetry (policy : RetryPolicy) (failureType : FailureType) (attempt : ℕ) : Bool :=
  if policy.maxAttempts ≤ attempt then false else failureType = .transient

theorem RetryPolicy.shouldRetry_iff {policy : RetryPolicy} {failureType : FailureType} {attempt : ℕ} :
    policy.shouldRetry failureType attempt = true
      ↔ attempt < policy.maxAttempts ∧ failureType = .transient := by
  unfold shouldRetry
  split
  · exact iff_of_false Bool.false_ne_true fun h => absurd h.1 (not_lt.2 ‹_›)
  · rw [decide_eq_true_eq, and_iff_right (lt_of_not_ge ‹_›)]

/-- What a step of the loop is run with. -/
structure StepEnv (W α : Type) where
  iterationId : String
  step : LoopStep
  policy : RetryPolicy
  operation : EStateM Raised W α
  /-- `utc_timestamp`. -/
  now : W → String × W
  sink : Option (Fields → EStateM Raised W PUnit)

/-- The world, the states and log entries so far, and what every invocation of the operation came to. -/
structure StepRun (W α : Type) where
  world : W
  states : List LoopState
  entries : List Fields
  invocations : List (Except Raised α)

section Step

variable {W α : Type} (env : StepEnv W α)

/-- The entry goes to the sink, if there is one. -/
def send (entry : Fields) : EStateM Raised W PUnit :=
  match env.sink with
  | some sink => sink entry
  | none => pure ⟨⟩

def logEntry (timestamp : String) (status : LoopStatus) (attempt : ℕ)
    (errorType : Option FailureType) : Fields :=
  [("timestamp", .str timestamp), ("iteration_id", .str env.iterationId),
    ("step", .str env.step.text), ("status", .str status.text), ("attempt", .int attempt),
    ("duration_ms", .int 0), ("error_type", Memory.optionalStr (errorType.map FailureType.text))]

def inWorld {β : Type} (x : EStateM Raised W β) : EStateM Raised (StepRun W α) β := fun s =>
  match x s.world with
  | .ok b w => .ok b { s with world := w }
  | .error e w => .error e { s with world := w }

def readClock : EStateM Raised W String := fun w => .ok (env.now w).1 (env.now w).2

def recordState (status : LoopStatus) (attempt : ℕ) : EStateM Raised (StepRun W α) PUnit := do
  let timestamp ← inWorld (readClock env)
  modify fun s => { s with
    states := s.states ++ [⟨env.iterationId, env.step, status, attempt, timestamp⟩] }

def emitStep (status : LoopStatus) (attempt : ℕ) (errorType : Option FailureType) :
    EStateM Raised (StepRun W α) PUnit := do
  let timestamp ← inWorld (readClock env)
  let entry := logEntry env timestamp status attempt errorType
  modify fun s => { s with entries := s.entries ++ [entry] }
  inWorld (send env entry)

/-- The call of the operation. -/
def invoke : EStateM Raised (StepRun W α) α := fun s =>
  match env.operation s.world with
  | .ok a w => .ok a { s with world := w, invocations := s.invocations ++ [.ok a] }
  | .error e w => .error e { s with world := w, invocations := s.invocations ++ [.error e] }

/-- The states and the entries of all but the start of an attempt. -/
def report (status : LoopStatus) (attempt : ℕ) (errorType : Option FailureType) :
    EStateM Raised (StepRun W α) PUnit := do
  recordState env status attempt
  emitStep env status attempt errorType

/-- The loop of `_run_step_with_retry` from an attempt on. -/
def runFrom (attempt : ℕ) : EStateM Raised (StepRun W α) α := do
  recordState env .started attempt
  tryCatch
    (do
      let result ← invoke env
      report env .success attempt none
      pure result)
    (fun error => do
      let failureType := classifyFailure error
      report env .failed attempt (some failureType)
      if h : env.policy.shouldRetry failureType attempt = true then
        report env .retry attempt (some failureType)
        runFrom (attempt + 1)
      else throw error)
termination_by (env.policy.maxAttempts - attempt).toNat
decreasing_by
  have hless := (RetryPolicy.shouldRetry_iff.1 h).1
  omega

def runStepWithRetry : EStateM Raised (StepRun W α) α := runFrom env 1

/-! ### What a run should record -/

/-- `STARTED (FAILED RETRY STARTED)*` and then `SUCCESS` or `FAILED`, numbered from an attempt on. -/
inductive Regular : ℕ → List (LoopStatus × ℕ) → Prop
  | success {n : ℕ} : Regular n [(.started, n), (.success, n)]
  | failed {n : ℕ} : Regular n [(.started, n), (.failed, n)]
  | retry {n : ℕ} {rest : List (LoopStatus × ℕ)} (h : Regular (n + 1) rest) :
      Regular n ((.started, n) :: (.failed, n) :: (.retry, n) :: rest)

def LoopState.mark (state : LoopState) : LoopStatus × ℕ := (state.status, state.attempt)

def TransientFailure (outcome : Except Raised α) : Prop :=
  ∃ error, outcome = .error error ∧ classifyFailure error = .transient

structure RegularRun (policy : RetryPolicy) (invocations : List (Except Raised α))
    (recorded : List LoopState) : Prop where
  bounded : (invocations.length : ℤ) ≤ max 1 policy.maxAttempts
  transient : ∀ outcome ∈ invocations.dropLast, TransientFailure outcome
  returned : ∀ a, Except.ok a ∉ invocations.dropLast
  trace : Regular 1 (recorded.map LoopState.mark)

/-- What the run adds to its invocations and states is as it should be. -/
def RunsRegularly (s : StepRun W α) : Prop :=
  ∃ invocations recorded,
    (finalState (runStepWithRetry env s)).invocations = s.invocations ++ invocations
      ∧ (finalState (runStepWithRetry env s)).states = s.states ++ recorded
      ∧ RegularRun env.policy invocations recorded

/-! ### The run as the world sees it -/

def attempted : EStateM Raised W α := do
  let _ ← readClock env
  env.operation

def announce (status : LoopStatus) (attempt : ℕ) (errorType : Option FailureType) :
    EStateM Raised W PUnit := do
  let _ ← readClock env
  let timestamp ← readClock env
  send env (logEntry env timestamp status attempt errorType)

/-- An attempt that fails in a world, and the world in which the next attempt is started. -/
inductive Again (attempt : ℕ) (w : W) : W → Prop
  | intro {error : Raised} {w₁ w₂ w₃ : W} (hfails : attempted env w = .error error w₁)
      (hfailed : announce env .failed attempt (some (classifyFailure error)) w₁ = .ok ⟨⟩ w₂)
      (hretry : env.policy.shouldRetry (classifyFailure error) attempt = true)
      (hannounced : announce env .retry attempt (some (classifyFailure error)) w₂ = .ok ⟨⟩ w₃) :
      Again attempt w w₃

/-- The attempts that follow one in a world, with the worlds in which they are started. -/
inductive Reaches : ℕ → W → ℕ → W → Prop
  | refl {n : ℕ} {w : W} : Reaches n w n w
  | again {n m : ℕ} {w w₁ w₂ : W} (hagain : Again env n w w₁) (hrest : Reaches (n + 1) w₁ m w₂) :
      Reaches n w m w₂

/-- The sink raises neither on the entry of a success nor on the entry of a retry. -/
structure SinkAccepts (attempt : ℕ) (w : W) : Prop where
  success : ∀ result w₁, attempted env w = .ok result w₁ →
    ∃ w₂, announce env .success attempt none w₁ = .ok ⟨⟩ w₂
  retry : ∀ error w₁ w₂, attempted env w = .error error w₁ →
    announce env .failed attempt (some (classifyFailure error)) w₁ = .ok ⟨⟩ w₂ →
    env.policy.shouldRetry (classifyFailure error) attempt = true →
    ∃ w₃, announce env .retry attempt (some (classifyFailure error)) w₂ = .ok ⟨⟩ w₃

def AllAccepted (n : ℕ) (w : W) : Prop := ∀ m w', Reaches env n w m w' → SinkAccepts env m w'

/-! ### The parts of an attempt -/

variable {env} {n : ℕ} {s s' : StepRun W α}

/-- What has been added to the invocations and the states. -/
structure Adds (invocations : List (Except Raised α)) (recorded : List LoopState)
    (s s' : StepRun W α) : Prop where
  invocations : s'.invocations = s.invocations ++ invocations
  states : s'.states = s.states ++ recorded

theorem Adds.trans {s₁ s₂ s₃ : StepRun W α} {invocations invocations' : List (Except Raised α)}
    {recorded recorded' : List LoopState} (h : Adds invocations recorded s₁ s₂)
    (h' : Adds invocations' recorded' s₂ s₃) :
    Adds (invocations ++ invocations') (recorded ++ recorded') s₁ s₃ where
  invocations := by rw [h'.invocations, h.invocations, List.append_assoc]
  states := by rw [h'.states, h.states, List.append_assoc]

/-- **What a report does**: it adds a state with its status, and it ends as the world has it. -/
theorem ends_report {status : LoopStatus} {errorType : Option FailureType} :
    Ends (fun _ s' => ∃ state, state.mark = (status, n) ∧ Adds [] [state] s s'
        ∧ announce env status n errorType s.world = .ok ⟨⟩ s'.world)
      (fun e s' => ∃ state, state.mark = (status, n) ∧ Adds [] [state] s s'
        ∧ announce env status n errorType s.world = .error e s'.world)
      (report env status n errorType) s := by
  let entry := logEntry env (env.now (env.now s.world).2).1 status n errorType
  let logged : StepRun W α := { s with
    world := (env.now (env.now s.world).2).2
    states := s.states ++ [⟨env.iterationId, env.step, status, n, (env.now s.world).1⟩]
    entries := s.entries ++ [entry] }
  have hadds : ∀ w, Adds [] [⟨env.iterationId, env.step, status, n, (env.now s.world).1⟩] s
      { logged with world := w } :=
    fun _ => ⟨(List.append_nil _).symm, rfl⟩
  have hreport : report env status n errorType s = inWorld (send env entry) logged := rfl
  rw [ends_congr hreport]
  rcases hsend : send env entry logged.world with ⟨_, w⟩ | ⟨e, w⟩
  · have hlogged : inWorld (send env entry) logged = .ok ⟨⟩ { logged with world := w } := by
      rw [inWorld, hsend]
    exact (ends_of_ok hlogged).2 ⟨_, rfl, hadds w, hsend⟩
  · have hlogged : inWorld (send env entry) logged = .error e { logged with world := w } := by
      rw [inWorld, hsend]
    exact (ends_of_error hlogged).2 ⟨_, rfl, hadds w, hsend⟩

/-- The run after the start of an attempt has been recorded. -/
def StepRun.started (env : StepEnv W α) (n : ℕ) (s : StepRun W α) : StepRun W α :=
  { s with
    world := (env.now s.world).2
    states := s.states ++ [⟨env.iterationId, env.step, .started, n, (env.now s.world).1⟩] }

/-- **What an invocation adds**, with the start of its attempt. -/
theorem ends_invoke :
    Ends (fun a s' => ∃ state, state.mark = (.started, n) ∧ Adds [.ok a] [state] s s'
        ∧ attempted env s.world = .ok a s'.world)
      (fun e s' => ∃ state, state.mark = (.started, n) ∧ Adds [.error e] [state] s s'
        ∧ attempted env s.world = .error e s'.world)
      (invoke env) (s.started env n) := by
  rcases hoperation : env.operation (s.started env n).world with ⟨a, w⟩ | ⟨e, w⟩
  · have hinvoke : invoke env (s.started env n) = .ok a { s.started env n with
        world := w
        invocations := s.invocations ++ [.ok a] } := by
      rw [invoke, hoperation]
      rfl
    exact (ends_of_ok hinvoke).2 ⟨_, rfl, ⟨rfl, rfl⟩, hoperation⟩
  · have hinvoke : invoke env (s.started env n) = .error e { s.started env n with
        world := w
        invocations := s.invocations ++ [.error e] } := by
      rw [invoke, hoperation]
      rfl
    exact (ends_of_error hinvoke).2 ⟨_, rfl, ⟨rfl, rfl⟩, hoperation⟩

/-- How the `try` of an attempt raises: the operation does, or the sink on the entry of its success. -/
inductive Fails (env : StepEnv W α) (n : ℕ) (s : StepRun W α) (e : Raised) (s' : StepRun W α) : Prop
  | operation (hinvoke : invoke env (s.started env n) = .error e s') : Fails env n s e s'
  | sink {a : α} {s₁ : StepRun W α} (hinvoke : invoke env (s.started env n) = .ok a s₁)
      (hreport : report env .success n none s₁ = .error e s') : Fails env n s e s'

/-- What the handler of an attempt comes to. -/
inductive Handles (env : StepEnv W α) (n : ℕ) (e : Raised) (s : StepRun W α) :
    EStateM.Result Raised (StepRun W α) α → Prop
  | unlogged {e' : Raised} {s' : StepRun W α}
      (hfailed : report env .failed n (some (classifyFailure e)) s = .error e' s') :
      Handles env n e s (.error e' s')
  | final {s' : StepRun W α}
      (hfailed : report env .failed n (some (classifyFailure e)) s = .ok ⟨⟩ s')
      (hretry : ¬ env.policy.shouldRetry (classifyFailure e) n = true) :
      Handles env n e s (.error e s')
  | cut {e' : Raised} {s₁ s' : StepRun W α}
      (hfailed : report env .failed n (some (classifyFailure e)) s = .ok ⟨⟩ s₁)
      (hretry : env.policy.shouldRetry (classifyFailure e) n = true)
      (hreport : report env .retry n (some (classifyFailure e)) s₁ = .error e' s') :
      Handles env n e s (.error e' s')
  | again {s₁ s' : StepRun W α}
      (hfailed : report env .failed n (some (classifyFailure e)) s = .ok ⟨⟩ s₁)
      (hretry : env.policy.shouldRetry (classifyFailure e) n = true)
      (hreport : report env .retry n (some (classifyFailure e)) s₁ = .ok ⟨⟩ s') :
      Handles env n e s (runFrom env (n + 1) s')

/-- **What an attempt can come to.** -/
inductive AttemptEnds (env : StepEnv W α) (n : ℕ) (s : StepRun W α) :
    EStateM.Result Raised (StepRun W α) α → Prop
  | returned {a : α} {s₁ s' : StepRun W α} (hinvoke : invoke env (s.started env n) = .ok a s₁)
      (hreport : report env .success n none s₁ = .ok ⟨⟩ s') : AttemptEnds env n s (.ok a s')
  | handled {e : Raised} {s₁ : StepRun W α} {r : EStateM.Result Raised (StepRun W α) α}
      (hfails : Fails env n s e s₁) (hhandles : Handles env n e s₁ r) : AttemptEnds env n s r

/-- The handler of an attempt. -/
theorem handles (env : StepEnv W α) (n : ℕ) (e : Raised) (s : StepRun W α) :
    Handles env n e s ((do
      report env .failed n (some (classifyFailure e))
      if env.policy.shouldRetry (classifyFailure e) n = true then
        report env .retry n (some (classifyFailure e))
        runFrom env (n + 1)
      else throw e) s) := by
  rcases hfailed : report env .failed n (some (classifyFailure e)) s with ⟨_, s₁⟩ | ⟨e', s'⟩
  · rw [bind_of_ok hfailed]
    by_cases hretry : env.policy.shouldRetry (classifyFailure e) n = true
    · rw [if_pos hretry]
      rcases hreport : report env .retry n (some (classifyFailure e)) s₁ with ⟨_, s'⟩ | ⟨e', s'⟩
      · rw [bind_of_ok hreport]
        exact .again hfailed hretry hreport
      · rw [bind_of_error hreport]
        exact .cut hfailed hretry hreport
    · rw [if_neg hretry]
      exact .final hfailed hretry
  · rw [bind_of_error hfailed]
    exact .unlogged hfailed

theorem runFrom_cases (env : StepEnv W α) (n : ℕ) (s : StepRun W α) :
    AttemptEnds env n s (runFrom env n s) := by
  have hstarted : recordState env .started n s = .ok ⟨⟩ (s.started env n) := rfl
  rw [runFrom, bind_of_ok hstarted]
  simp only [dite_eq_ite]
  rcases hinvoke : invoke env (s.started env n) with ⟨a, s₁⟩ | ⟨e, s₁⟩
  · rcases hreport : report env .success n none s₁ with ⟨_, s'⟩ | ⟨e, s'⟩
    · rw [tryCatch_of_ok ((bind_of_ok hinvoke).trans (bind_of_ok hreport))]
      exact .returned hinvoke hreport
    · rw [tryCatch_of_error ((bind_of_ok hinvoke).trans (bind_of_error hreport))]
      exact .handled (.sink hinvoke hreport) (handles env n e s')
  · rw [tryCatch_of_error (bind_of_error hinvoke)]
    exact .handled (.operation hinvoke) (handles env n e s₁)

/-! ### What the world decides -/

/-- After a failure, the sink accepts what the handler and the attempts behind it give it. -/
structure HandlerAccepted (env : StepEnv W α) (n : ℕ) (e : Raised) (w : W) : Prop where
  retry : ∀ w₁, announce env .failed n (some (classifyFailure e)) w = .ok ⟨⟩ w₁ →
    env.policy.shouldRetry (classifyFailure e) n = true →
    ∃ w₂, announce env .retry n (some (classifyFailure e)) w₁ = .ok ⟨⟩ w₂
  rest : ∀ w₁ w₂, announce env .failed n (some (classifyFailure e)) w = .ok ⟨⟩ w₁ →
    env.policy.shouldRetry (classifyFailure e) n = true →
    announce env .retry n (some (classifyFailure e)) w₁ = .ok ⟨⟩ w₂ → AllAccepted env (n + 1) w₂

theorem allAccepted_iff_of_ok {a : α} {w w₁ : W} (h : attempted env w = .ok a w₁) :
    AllAccepted env n w ↔ ∃ w₂, announce env .success n none w₁ = .ok ⟨⟩ w₂ := by
  constructor
  · exact fun haccepted => (haccepted n w .refl).success a w₁ h
  · rintro hsuccess m w' hreaches
    cases hreaches with
    | refl =>
        refine ⟨fun _ w₁' h' => ?_, fun _ _ _ h' => nomatch h.symm.trans h'⟩
        cases h.symm.trans h'
        exact hsuccess
    | again hagain => cases hagain with | intro h' => cases h.symm.trans h'

theorem allAccepted_iff_of_error {e : Raised} {w w₁ : W} (h : attempted env w = .error e w₁) :
    AllAccepted env n w ↔ HandlerAccepted env n e w₁ := by
  constructor
  · intro haccepted
    refine ⟨fun w₂ hfailed hretry => (haccepted n w .refl).retry e w₁ w₂ h hfailed hretry, ?_⟩
    intro w₂ w₃ hfailed hretry hannounced m w' hreaches
    exact haccepted m w' (.again ⟨h, hfailed, hretry, hannounced⟩ hreaches)
  · rintro hhandler m w' hreaches
    cases hreaches with
    | refl =>
        refine ⟨fun _ _ h' => (nomatch h.symm.trans h'), fun e' w₁' w₂ h' hfailed hretry => ?_⟩
        cases h.symm.trans h'
        exact hhandler.retry w₂ hfailed hretry
    | again hagain hrest =>
        cases hagain with
        | intro h' hfailed hretry hannounced =>
            cases h.symm.trans h'
            exact hhandler.rest _ _ hfailed hretry hannounced _ _ hrest

/-- Where the sink has accepted a failure and its retry, the attempts behind them decide. -/
theorem handlerAccepted_iff_of_again {e : Raised} {w w₁ w₂ : W}
    (hfailed : announce env .failed n (some (classifyFailure e)) w = .ok ⟨⟩ w₁)
    (hretry : env.policy.shouldRetry (classifyFailure e) n = true)
    (hannounced : announce env .retry n (some (classifyFailure e)) w₁ = .ok ⟨⟩ w₂) :
    HandlerAccepted env n e w ↔ AllAccepted env (n + 1) w₂ := by
  constructor
  · exact fun hhandler => hhandler.rest w₁ w₂ hfailed hretry hannounced
  · refine fun hall => ⟨fun w₁' hfailed' _ => ?_, fun w₁' w₂' hfailed' _ hannounced' => ?_⟩
    · cases hfailed.symm.trans hfailed'
      exact ⟨w₂, hannounced⟩
    · cases hfailed.symm.trans hfailed'
      cases hannounced.symm.trans hannounced'
      exact hall

/-! ### Traces -/

theorem regular_retry_iff {rest : List (LoopStatus × ℕ)} :
    Regular n ((.started, n) :: (.failed, n) :: (.retry, n) :: rest) ↔ Regular (n + 1) rest := by
  constructor
  · intro h
    cases h with
    | retry h => exact h
  · exact .retry

theorem not_regular_nil : ¬ Regular n [] := by
  intro h
  cases h

/-- Nothing follows a success. -/
theorem not_regular_success {mark : LoopStatus × ℕ} {rest : List (LoopStatus × ℕ)} :
    ¬ Regular n ((.started, n) :: (.success, n) :: mark :: rest) := by
  intro h
  cases h

/-- A run from an attempt on, with what it has added. -/
def Traced (env : StepEnv W α) (n : ℕ) (s s' : StepRun W α) : Prop :=
  ∃ invocations recorded, Adds invocations recorded s s'
    ∧ (invocations.length : ℤ) ≤ max 1 (env.policy.maxAttempts + 1 - n)
    ∧ (AllAccepted env n s.world ↔ Regular n (recorded.map LoopState.mark))
    ∧ (AllAccepted env n s.world → ∀ outcome ∈ invocations.dropLast, TransientFailure outcome)

/-- The handling of a failure, with what it has added. -/
def TracedFailure (env : StepEnv W α) (n : ℕ) (e : Raised) (s s' : StepRun W α) : Prop :=
  ∃ invocations recorded, Adds invocations recorded s s' ∧ recorded ≠ []
    ∧ (invocations.length : ℤ) ≤ max 0 (env.policy.maxAttempts - n)
    ∧ (HandlerAccepted env n e s.world
        ↔ Regular n ((.started, n) :: recorded.map LoopState.mark))
    ∧ (HandlerAccepted env n e s.world →
        ∀ outcome ∈ (Except.error e :: invocations).dropLast, TransientFailure outcome)

/-- A handling that invokes nothing. -/
theorem tracedFailure_of_no_invocation {e : Raised} {state : LoopState} {rest : List LoopState}
    (hadds : Adds [] (state :: rest) s s')
    (htrace : HandlerAccepted env n e s.world
      ↔ Regular n ((.started, n) :: (state :: rest).map LoopState.mark)) :
    TracedFailure env n e s s' :=
  ⟨[], state :: rest, hadds, List.cons_ne_nil _ _, le_max_left _ _, htrace,
    fun _ _ hmem => absurd hmem List.not_mem_nil⟩

/-- **What the handler adds**, where the next attempt does what a run should. -/
theorem tracedFailure_of_handles {e : Raised} {r : EStateM.Result Raised (StepRun W α) α}
    (h : Handles env n e s r)
    (ih : env.policy.shouldRetry (classifyFailure e) n = true →
      ∀ s', Traced env (n + 1) s' (finalState (runFrom env (n + 1) s'))) :
    TracedFailure env n e s (finalState r) := by
  cases h with
  | unlogged hfailed =>
      obtain ⟨state, hmark, hadds, hannounce⟩ := (ends_of_error hfailed).1 ends_report
      refine tracedFailure_of_no_invocation hadds (iff_of_true ⟨fun _ h' => ?_, fun _ _ h' => ?_⟩ ?_)
      · cases hannounce.symm.trans h'
      · cases hannounce.symm.trans h'
      · rw [List.map_singleton, hmark]
        exact .failed
  | final hfailed hretry =>
      obtain ⟨state, hmark, hadds, _⟩ := (ends_of_ok hfailed).1 ends_report
      refine tracedFailure_of_no_invocation hadds (iff_of_true
        ⟨fun _ _ h' => absurd h' hretry, fun _ _ _ h' => absurd h' hretry⟩ ?_)
      rw [List.map_singleton, hmark]
      exact .failed
  | cut hfailed hretry hreport =>
      obtain ⟨state, hmark, hadds, hannounce⟩ := (ends_of_ok hfailed).1 ends_report
      obtain ⟨state', hmark', hadds', hannounce'⟩ := (ends_of_error hreport).1 ends_report
      have hboth : Adds [] [state, state'] s _ := hadds.trans hadds'
      refine tracedFailure_of_no_invocation hboth (iff_of_false (fun haccepted => ?_) ?_)
      · obtain ⟨_, hok⟩ := haccepted.retry _ hannounce hretry
        cases hannounce'.symm.trans hok
      · rw [List.map_cons, List.map_singleton, hmark, hmark', regular_retry_iff]
        exact not_regular_nil
  | @again s₁ s₂ hfailed hretry hreport =>
      obtain ⟨state, hmark, hadds, hannounce⟩ := (ends_of_ok hfailed).1 ends_report
      obtain ⟨state', hmark', hadds', hannounce'⟩ := (ends_of_ok hreport).1 ends_report
      obtain ⟨invocations, recorded, hrest, hbound, htrace, htransient⟩ := ih hretry s₂
      obtain ⟨hless, hkind⟩ := RetryPolicy.shouldRetry_iff.1 hretry
      have haccepted := handlerAccepted_iff_of_again hannounce hretry hannounce'
      refine ⟨invocations, state :: state' :: recorded, (hadds.trans hadds').trans hrest,
        List.cons_ne_nil _ _, ?_, ?_, ?_⟩
      · push_cast at hbound
        omega
      · rw [List.map_cons, List.map_cons, hmark, hmark', regular_retry_iff, haccepted, htrace]
      · intro hhandler outcome hmem
        rcases invocations with _ | ⟨first, rest⟩
        · exact absurd hmem List.not_mem_nil
        · rw [List.dropLast_cons_cons] at hmem
          rcases List.mem_cons.1 hmem with rfl | hmem
          · exact ⟨e, rfl, hkind⟩
          · exact htransient (haccepted.1 hhandler) outcome hmem

/-- What an attempt that fails adds, with what its handler adds. -/
theorem traced_of_fails {e : Raised} {s₁ s₂ : StepRun W α} (h : Fails env n s e s₁)
    (hhandler : TracedFailure env n e s₁ s₂) : Traced env n s s₂ := by
  obtain ⟨invocations, recorded, hadds, hne, hbound, htrace, htransient⟩ := hhandler
  cases h with
  | operation hinvoke =>
      obtain ⟨state, hmark, hstart, hattempted⟩ := (ends_of_error hinvoke).1 ends_invoke
      have haccepted := allAccepted_iff_of_error (n := n) hattempted
      refine ⟨_, _, hstart.trans hadds, ?_, ?_, fun hall => htransient (haccepted.1 hall)⟩
      · rw [List.length_append, List.length_singleton]
        push_cast
        omega
      · rw [haccepted, htrace, List.map_append, List.map_singleton, hmark]
        rfl
  | sink hinvoke hreport =>
      obtain ⟨state, hmark, hstart, hattempted⟩ := (ends_of_ok hinvoke).1 ends_invoke
      obtain ⟨state', hmark', hsuccess, hannounce⟩ := (ends_of_error hreport).1 ends_report
      have hnot : ¬ AllAccepted env n s.world := by
        rw [allAccepted_iff_of_ok hattempted]
        rintro ⟨_, hok⟩
        cases hannounce.symm.trans hok
      refine ⟨_, _, (hstart.trans hsuccess).trans hadds, ?_, iff_of_false hnot ?_,
        fun hall => absurd hall hnot⟩
      · rw [List.append_nil, List.length_append, List.length_singleton]
        push_cast
        omega
      · obtain ⟨next, rest, rfl⟩ := List.exists_cons_of_ne_nil hne
        rw [List.map_append, List.map_append, List.map_singleton, List.map_singleton, hmark, hmark']
        exact not_regular_success

/-- **What a run adds**, by induction on the attempts that are left. -/
theorem traced_runFrom (env : StepEnv W α) (n : ℕ) (s : StepRun W α) :
    Traced env n s (finalState (runFrom env n s)) := by
  induction hleft : (env.policy.maxAttempts - n).toNat using Nat.strong_induction_on
    generalizing n s with
  | _ left ih =>
      have hnext : ∀ e, env.policy.shouldRetry (classifyFailure e) n = true →
          ∀ s', Traced env (n + 1) s' (finalState (runFrom env (n + 1) s')) := by
        intro e hretry s'
        have hless := (RetryPolicy.shouldRetry_iff.1 hretry).1
        exact ih _ (by push_cast; omega) (n + 1) s' rfl
      generalize hr : runFrom env n s = r
      have hends := hr ▸ runFrom_cases env n s
      cases hends with
      | returned hinvoke hreport =>
          obtain ⟨state, hmark, hstart, hattempted⟩ := (ends_of_ok hinvoke).1 ends_invoke
          obtain ⟨state', hmark', hsuccess, hannounce⟩ := (ends_of_ok hreport).1 ends_report
          refine ⟨_, _, hstart.trans hsuccess, le_max_left _ _, ?_, fun _ => ?_⟩
          · refine iff_of_true ((allAccepted_iff_of_ok hattempted).2 ⟨_, hannounce⟩) ?_
            rw [List.map_append, List.map_singleton, List.map_singleton, hmark, hmark']
            exact .success
          · exact fun _ hmem => absurd hmem List.not_mem_nil
      | @handled e s₁ _ hfails hhandles =>
          exact traced_of_fails hfails (tracedFailure_of_handles hhandles (hnext e))

/-! ### Runs -/

/-- Whatever the sink does, the operation is invoked at most `max_attempts` times, and once at least is
allowed. -/
theorem length_invocations_le (env : StepEnv W α) (s : StepRun W α) :
    ∃ invocations,
      (finalState (runStepWithRetry env s)).invocations = s.invocations ++ invocations
        ∧ (invocations.length : ℤ) ≤ max 1 env.policy.maxAttempts := by
  obtain ⟨invocations, _, hadds, hbound, _⟩ := traced_runFrom env 1 s
  refine ⟨invocations, hadds.invocations, ?_⟩
  push_cast at hbound
  rwa [add_sub_cancel_right] at hbound

/-- **A step runs as it should exactly if the sink raises neither on the entry of a success nor on the
entry of a retry.** -/
theorem runsRegularly_iff (env : StepEnv W α) (s : StepRun W α) :
    RunsRegularly env s
      ↔ ∀ attempt w, Reaches env 1 s.world attempt w → SinkAccepts env attempt w := by
  obtain ⟨invocations, recorded, hadds, hbound, htrace, htransient⟩ := traced_runFrom env 1 s
  push_cast at hbound
  rw [add_sub_cancel_right] at hbound
  constructor
  · rintro ⟨_, recorded', _, hstates, hregular⟩
    have hrecorded := hadds.states
    rw [← runStepWithRetry, hstates] at hrecorded
    obtain rfl := List.append_cancel_left hrecorded
    exact htrace.2 hregular.trace
  · intro haccepted
    refine ⟨invocations, recorded, hadds.invocations, hadds.states, hbound, htransient haccepted,
      fun a hmem => ?_, htrace.1 haccepted⟩
    obtain ⟨error, herror, _⟩ := htransient haccepted _ hmem
    cases herror

/-! ### A silent sink -/

def worldResult : EStateM.Result Raised (StepRun W α) α → EStateM.Result Raised W α
  | .ok a s => .ok a s.world
  | .error e s => .error e s.world

theorem announce_silent (hsink : env.sink = none) (hclock : ∀ w, (env.now w).2 = w)
    (status : LoopStatus) (n : ℕ) (errorType : Option FailureType) (w : W) :
    announce env status n errorType w = .ok ⟨⟩ w := by
  have hannounce : announce env status n errorType w
      = send env (logEntry env (env.now (env.now w).2).1 status n errorType)
        (env.now (env.now w).2).2 := rfl
  rw [hannounce, hclock, hclock, send, hsink]
  rfl

theorem ends_report_silent (hsink : env.sink = none) (hclock : ∀ w, (env.now w).2 = w)
    {status : LoopStatus} {errorType : Option FailureType} :
    Ends (fun _ s' => s'.world = s.world) (fun _ _ => False) (report env status n errorType) s := by
  have hsilent := announce_silent hsink hclock status n errorType s.world
  refine ends_report.mono (fun _ s' hok => ?_) fun e s' herror => ?_
  · obtain ⟨_, _, _, hannounce⟩ := hok
    exact (EStateM.Result.ok.inj (hannounce.symm.trans hsilent)).2
  · obtain ⟨_, _, _, hannounce⟩ := herror
    cases hannounce.symm.trans hsilent

theorem ends_invoke_silent (hclock : ∀ w, (env.now w).2 = w) :
    Ends (fun a s' => env.operation s.world = .ok a s'.world)
      (fun e s' => env.operation s.world = .error e s'.world) (invoke env) (s.started env n) := by
  have hattempted : attempted env s.world = env.operation s.world := by
    show env.operation (env.now s.world).2 = _
    rw [hclock]
  rw [← hattempted]
  exact ends_invoke.mono (fun _ _ ⟨_, _, _, h⟩ => h) fun _ _ ⟨_, _, _, h⟩ => h

/-- What a handler without a sink comes to, where the next attempt tries the operation again. -/
theorem worldResult_of_handles (hsink : env.sink = none) (hclock : ∀ w, (env.now w).2 = w)
    {e : Raised} {w : W} {r : EStateM.Result Raised (StepRun W α) α} (h : Handles env n e s r)
    (hoperation : env.operation w = .error e s.world)
    (ih : n < env.policy.maxAttempts → ∀ s', worldResult (runFrom env (n + 1) s')
      = retry isTransient env.operation (env.policy.maxAttempts - (n + 1 : ℕ)).toNat s'.world) :
    worldResult r
      = retry isTransient env.operation (env.policy.maxAttempts - n).toNat w := by
  cases h with
  | unlogged hfailed => exact ((ends_of_error hfailed).1 (ends_report_silent hsink hclock)).elim
  | @final s₁ hfailed hretry =>
      have hworld : s₁.world = s.world :=
        (ends_of_ok hfailed).1 (ends_report_silent hsink hclock)
      rw [worldResult, hworld]
      rw [RetryPolicy.shouldRetry_iff] at hretry
      by_cases htransient : classifyFailure e = .transient
      · have hmax : ¬ (n : ℤ) < env.policy.maxAttempts := fun hless => hretry ⟨hless, htransient⟩
        have hlast : (env.policy.maxAttempts - n).toNat = 0 := by omega
        rw [hlast, retry, hoperation]
      · exact (retry_of_final _ hoperation fun h => htransient (of_decide_eq_true h)).symm
  | cut _ _ hreport => exact ((ends_of_error hreport).1 (ends_report_silent hsink hclock)).elim
  | @again s₁ s₂ hfailed hretry hreport =>
      have hfirst : s₁.world = s.world :=
        (ends_of_ok hfailed).1 (ends_report_silent hsink hclock)
      have hsecond : s₂.world = s₁.world :=
        (ends_of_ok hreport).1 (ends_report_silent hsink hclock)
      obtain ⟨hless, hkind⟩ := RetryPolicy.shouldRetry_iff.1 hretry
      have hnext : (env.policy.maxAttempts - n).toNat
          = (env.policy.maxAttempts - (n + 1 : ℕ)).toNat + 1 := by
        push_cast
        omega
      rw [hnext, retry_again _ hoperation (decide_eq_true hkind), ih hless, hsecond, hfirst]

/-- **A step without a sink**, and with a clock that leaves the world as it is, tries the operation
again. -/
theorem worldResult_runFrom (hsink : env.sink = none) (hclock : ∀ w, (env.now w).2 = w) (n : ℕ)
    (s : StepRun W α) :
    worldResult (runFrom env n s)
      = retry isTransient env.operation (env.policy.maxAttempts - n).toNat s.world := by
  induction hleft : (env.policy.maxAttempts - n).toNat using Nat.strong_induction_on
    generalizing n s with
  | _ left ih =>
      generalize hr : runFrom env n s = r
      have hends := hr ▸ runFrom_cases env n s
      cases hends with
      | @returned a s₁ s₂ hinvoke hreport =>
          have hoperation : env.operation s.world = .ok a s₁.world :=
            (ends_of_ok hinvoke).1 (ends_invoke_silent hclock)
          have hworld : s₂.world = s₁.world :=
            (ends_of_ok hreport).1 (ends_report_silent hsink hclock)
          rw [retry_of_ok left hoperation, worldResult, hworld]
      | @handled e s₁ _ hfails hhandles =>
          cases hfails with
          | sink _ hreport =>
              exact ((ends_of_error hreport).1 (ends_report_silent hsink hclock)).elim
          | operation hinvoke =>
              rw [← hleft]
              refine worldResult_of_handles hsink hclock hhandles
                ((ends_of_error hinvoke).1 (ends_invoke_silent hclock)) fun hless s' => ?_
              exact ih _ (by push_cast; omega) (n + 1) s' rfl

/-- The retries that `run` is modelled with are those of a step without a sink. -/
theorem worldResult_runStepWithRetry {T : Type} [Memory.Timestamp T] (loop : AgentLoop T)
    {env : StepEnv World α} (hmax : env.policy.maxAttempts = loop.maxAttempts)
    (hsink : env.sink = none) (hclock : ∀ w, (env.now w).2 = w) (s : StepRun World α) :
    worldResult (runStepWithRetry env s)
      = Loop.runStepWithRetry loop env.operation s.world := by
  have hretries : (env.policy.maxAttempts - (1 : ℕ)).toNat = loop.maxAttempts - 1 := by omega
  rw [runStepWithRetry, worldResult_runFrom hsink hclock, hretries]
  rfl

/-- **A step, and the retry that `run` is modelled with**: whatever its operation, its clock and its sink
do, a step calls the operation at most `max_attempts` times, or once. Without a sink, and with a clock
that only reads, it comes to what the retry comes to. -/
theorem runStepWithRetry_refines {T : Type} [Memory.Timestamp T] (loop : AgentLoop T)
    (env : StepEnv World α) (hmax : env.policy.maxAttempts = loop.maxAttempts) (s : StepRun World α) :
    (∃ invocations,
        (finalState (runStepWithRetry env s)).invocations = s.invocations ++ invocations
          ∧ invocations.length ≤ max 1 loop.maxAttempts)
      ∧ (env.sink = none → (∀ w, (env.now w).2 = w) →
        worldResult (runStepWithRetry env s)
          = Loop.runStepWithRetry loop env.operation s.world) := by
  obtain ⟨invocations, hinvocations, hbound⟩ := length_invocations_le env s
  refine ⟨⟨invocations, hinvocations, ?_⟩,
    fun hsink hclock => worldResult_runStepWithRetry loop hmax hsink hclock s⟩
  rw [hmax] at hbound
  exact_mod_cast hbound

end Step

/-- The first attempt times out, and the second returns. -/
def secondAttempt : StepEnv World Unit where
  iterationId := "iter-1"
  step := .reflect
  policy := ⟨3⟩
  operation s :=
    if s.attempts = 0 then .error .timeoutError { s with attempts := 1 } else .ok () s
  now w := ("2026-01-01T00:00:00Z", w)
  sink := none

theorem secondAttempt_refines :
    (∃ invocations, (finalState (runStepWithRetry secondAttempt
        ⟨⟨fun _ => [], 0⟩, [], [], []⟩)).invocations = [] ++ invocations
        ∧ invocations.length ≤ max 1 sampleLoop.maxAttempts)
      ∧ worldResult (runStepWithRetry secondAttempt ⟨⟨fun _ => [], 0⟩, [], [], []⟩)
        = Loop.runStepWithRetry sampleLoop secondAttempt.operation ⟨fun _ => [], 0⟩ := by
  obtain ⟨hbound, hsilent⟩ := runStepWithRetry_refines sampleLoop secondAttempt rfl
    ⟨⟨fun _ => [], 0⟩, [], [], []⟩
  exact ⟨hbound, hsilent rfl fun _ => rfl⟩

/-! ### A sink that raises -/

/-- The operation returns, and the sink raises on the entry of its success. -/
def failingSink : StepEnv Unit Unit where
  iterationId := "iter-1"
  step := .execute
  policy := ⟨3⟩
  operation := pure ()
  now w := ("2026-01-01T00:00:00Z", w)
  sink := some fun entry =>
    if textField entry "status" "" = "SUCCESS" then throw .osError else pure ⟨⟩

def emptyRun : StepRun Unit Unit := ⟨(), [], [], []⟩

theorem failingSink_states :
    (finalState (runStepWithRetry failingSink emptyRun)).states.map LoopState.mark
      = [(.started, 1), (.success, 1), (.failed, 1), (.retry, 1),
        (.started, 2), (.success, 2), (.failed, 2), (.retry, 2),
        (.started, 3), (.success, 3), (.failed, 3)] := by
  decide +kernel

/-- The operation is invoked again although it has returned. -/
theorem success_entry_reruns :
    (finalState (runStepWithRetry failingSink emptyRun)).invocations.map Except.isOk
        = [true, true, true]
      ∧ ¬ RunsRegularly failingSink emptyRun := by
  refine ⟨by decide +kernel, ?_⟩
  rintro ⟨_, recorded, _, hstates, hregular⟩
  have htrace := hregular.trace
  rw [emptyRun, List.nil_append] at hstates
  rw [← hstates, ← emptyRun, failingSink_states] at htrace
  exact not_regular_success htrace

/-- The operation times out, and the sink raises on the entry of the retry: no attempt follows it. -/
example :
    (finalState (runStepWithRetry { failingSink with
      operation := throw .timeoutError
      sink := some fun entry =>
        if textField entry "status" "" = "RETRY" then throw .osError else pure ⟨⟩ }
      emptyRun)).states.map LoopState.mark = [(.started, 1), (.failed, 1), (.retry, 1)] := by
  decide +kernel

end Retry

end PersonalDevin.Loop
