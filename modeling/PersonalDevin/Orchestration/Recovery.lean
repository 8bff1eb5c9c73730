import PersonalDevin.Lib.Effects
import PersonalDevin.Text

/-!
# Recovery of a phase

`RecoveryManager.execute` and what it makes of an exception. An operation changes the state whether it
returns or raises, and only what `categorize_failure` takes for transient is tried again. The text of an
exception is asked for where the exception is handled: if `str` raises there, `execute` raises. An
exception is taken to have the same text each time.
-/

namespace PersonalDevin.Orchestration

open Lib

inductive FailureCategory where
  | transient
  | deterministic
  | policyViolation
  deriving DecidableEq

def FailureCategory.text : FailureCategory → String
  | transient => "transient"
  | deterministic => "deterministic"
  | policyViolation => "policy_violation"

/-- An exception: which of the classes of the recovery module it is an instance of, and its text. -/
structure Raised where
  isPolicyViolationError : Bool
  isTransientFailureError : Bool
  isDeterministicFailureError : Bool
  text : Printed

def categorizeFailure (error : Raised) : FailureCategory :=
  if error.isPolicyViolationError then .policyViolation
  else if error.isTransientFailureError then .transient
  else if error.isDeterministicFailureError then .deterministic
  else .deterministic

/-- An exception of another class. -/
def Raised.other (text : String) : Raised where
  isPolicyViolationError := false
  isTransientFailureError := false
  isDeterministicFailureError := false
  text := .ok text

def isTransient (error : Raised) : Bool := categorizeFailure error = .transient

/-- `str` of the exception returns. -/
def Raised.HasText (error : Raised) : Prop := ∃ text, error.text = .ok text

/-- The operation is called again after the exception while there are retries: it is transient, and it
has a text to record. -/
def isRetried (error : Raised) : Bool := isTransient error && error.text.toBool

structure RecoveryAttempt where
  phase : String
  attemptNumber : ℕ
  category : FailureCategory
  error : String
  willRetry : Bool

/-- `RecoveryResult`; a value of `None` is `none`. -/
structure RecoveryResult (α : Type) where
  success : Bool
  value : Option α
  attempts : List RecoveryAttempt
  finalError : String
  failureCategory : Option FailureCategory

variable {σ α : Type}

def RecoveryResult.succeeded (value : Option α) (attempts : List RecoveryAttempt) :
    RecoveryResult α where
  success := true
  value := value
  attempts := attempts
  finalError := ""
  failureCategory := none

def RecoveryResult.raised (error : Raised) (text : String) (attempts : List RecoveryAttempt) :
    RecoveryResult α where
  success := false
  value := none
  attempts := attempts
  finalError := text
  failureCategory := some (categorizeFailure error)

def recoveryAttempt (phase : String) (attemptNumber : ℕ) (error : Raised) (text : String)
    (willRetry : Bool) : RecoveryAttempt where
  phase := phase
  attemptNumber := attemptNumber
  category := categorizeFailure error
  error := text
  willRetry := willRetry

namespace RecoveryManager

/-- The loop of `execute`, with the retries that are left and the attempts before this one. -/
def executeFrom (phase : String) (operation : EStateM Raised σ (Option α)) :
    ℕ → List RecoveryAttempt → σ → EStateM.Result Raised σ (RecoveryResult α)
  | 0, attempts, s =>
      match operation s with
      | .ok value s' => .ok (.succeeded value attempts) s'
      | .error error s' =>
          match error.text with
          | .error text => .error (.other text) s'
          | .ok text =>
              .ok (.raised error text
                (attempts ++ [recoveryAttempt phase (attempts.length + 1) error text false])) s'
  | retries + 1, attempts, s =>
      match operation s with
      | .ok value s' => .ok (.succeeded value attempts) s'
      | .error error s' =>
          match error.text with
          | .error text => .error (.other text) s'
          | .ok text =>
              let attempts := attempts ++
                [recoveryAttempt phase (attempts.length + 1) error text (isTransient error)]
              if isTransient error then executeFrom phase operation retries attempts s'
              else .ok (.raised error text attempts) s'

/-- `RecoveryManager.execute`: an attempt is made again while its number is at most `max_retries`. -/
def execute (phase : String) (operation : EStateM Raised σ (Option α)) (maxRetries : ℕ) :
    EStateM Raised σ (RecoveryResult α) :=
  executeFrom phase operation maxRetries []

/-! ### What a recovered operation comes to -/

/-- What is made of the last outcome of the operation. -/
inductive Recovered : EStateM.Result Raised σ (Option α) → EStateM.Result Raised σ (RecoveryResult α) →
    Prop
  | succeeded {value : Option α} {attempts : List RecoveryAttempt} {s : σ} :
      Recovered (.ok value s) (.ok (.succeeded value attempts) s)
  | raised {error : Raised} {text : String} {attempts : List RecoveryAttempt} {s : σ}
      (htext : error.text = .ok text) : Recovered (.error error s) (.ok (.raised error text attempts) s)
  | unprintable {error : Raised} {text : String} {s : σ} (htext : error.text = .error text) :
      Recovered (.error error s) (.error (.other text) s)

theorem executeFrom_recovered (phase : String) (operation : EStateM Raised σ (Option α))
    (retries : ℕ) (attempts : List RecoveryAttempt) (s : σ) :
    Recovered (retry isRetried operation retries s)
      (executeFrom phase operation retries attempts s) := by
  induction retries generalizing attempts s with
  | zero =>
      rcases hx : operation s with ⟨value, s'⟩ | ⟨error, s'⟩
      · rw [executeFrom, hx, retry_of_ok _ hx]
        exact .succeeded
      · rcases htext : error.text with text | text <;>
          simp only [executeFrom, retry, hx, htext]
        · exact .unprintable htext
        · exact .raised htext
  | succ retries ih =>
      rcases hx : operation s with ⟨value, s'⟩ | ⟨error, s'⟩
      · rw [executeFrom, hx, retry_of_ok _ hx]
        exact .succeeded
      · rcases htext : error.text with text | text
        · rw [retry_of_final _ hx (by simp [isRetried, htext, Except.toBool])]
          simp only [executeFrom, hx, htext]
          exact .unprintable htext
        · by_cases htransient : isTransient error = true
          · rw [retry_again _ hx (by simp [isRetried, htext, htransient, Except.toBool])]
            simp only [executeFrom, hx, htext, htransient, if_true]
            exact ih _ s'
          · rw [retry_of_final _ hx (by simp [isRetried, htransient])]
            simp only [executeFrom, hx, htext, htransient, Bool.false_eq_true, if_false]
            exact .raised htext

theorem execute_recovered (phase : String) (operation : EStateM Raised σ (Option α))
    (maxRetries : ℕ) (s : σ) :
    Recovered (retry isRetried operation maxRetries s) (execute phase operation maxRetries s) :=
  executeFrom_recovered phase operation maxRetries [] s

end RecoveryManager

end PersonalDevin.Orchestration
