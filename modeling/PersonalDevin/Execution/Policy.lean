import PersonalDevin.Text

/-!
# The execution policy

`ExecutionPolicy` and `PolicyValidator`. The validator looks at three fields of a request, of which it
only needs the types and the texts.
-/

namespace PersonalDevin.Execution

/-- An entry of a list of names, as `_validate_names` accepts it. -/
abbrev PolicyName := { text : String // strip text ≠ "" }

structure ExecutionPolicy where
  allowedOperations : List PolicyName
  blockedOperations : List PolicyName
  maxRuntimeSeconds : Option ℕ
  allowedEnvironments : List PolicyName

/-- A `PolicyValidationError`. -/
structure PolicyViolation where
  text : String
  code : String

structure PolicyValidationResult where
  operation : String
  environment : Option String
  runtimeSeconds : Option ℤ

namespace PolicyValidator

/-- A text that is not blank, without the white space around it. -/
def nonBlank : Value → Option String
  | .str text => if strip text = "" then none else some (strip text)
  | _ => none

/-- A value of the type `int`; a boolean is one. -/
def intValue : Value → Option ℤ
  | .bool b => some (if b then 1 else 0)
  | .int n => some n
  | _ => none

/-- A field that may be missing or `None`. -/
def provided : Option Value → Option Value
  | some .none => none
  | value => value

def readOperation (value : Option Value) : Except PolicyViolation String :=
  match value.bind nonBlank with
  | some operation => .ok operation
  | none => .error ⟨"request.operation must be a non-empty string", "missing_operation"⟩

def readEnvironment (value : Option Value) : Except PolicyViolation (Option String) :=
  match provided value with
  | none => .ok none
  | some value =>
      match nonBlank value with
      | some environment => .ok (some environment)
      | none =>
          .error ⟨"request.environment must be a non-empty string when provided",
            "invalid_environment"⟩

def readRuntime (value : Option Value) : Except PolicyViolation (Option ℤ) :=
  match provided value with
  | none => .ok none
  | some value =>
      match intValue value with
      | none =>
          .error ⟨"request.runtime_seconds must be an int when provided", "invalid_runtime_type"⟩
      | some seconds =>
          if seconds < 0 then
            .error ⟨"request.runtime_seconds must be >= 0", "invalid_runtime_value"⟩
          else .ok (some seconds)

/-- `operation in names`. -/
def isNamed (names : List PolicyName) (text : String) : Bool := text ∈ names.map Subtype.val

def checkOperation (policy : ExecutionPolicy) (operation : String) : Except PolicyViolation Unit :=
  if policy.allowedOperations ≠ [] ∧ ¬ isNamed policy.allowedOperations operation then
    .error ⟨"Operation '" ++ operation ++ "' is not allowed", "operation_not_allowed"⟩
  else if isNamed policy.blockedOperations operation then
    .error ⟨"Operation '" ++ operation ++ "' is blocked", "operation_blocked"⟩
  else .ok ()

def checkEnvironment (policy : ExecutionPolicy) (environment : Option String) :
    Except PolicyViolation Unit :=
  if policy.allowedEnvironments ≠ []
      ∧ ¬ (environment.map (isNamed policy.allowedEnvironments)).getD false then
    .error ⟨"Environment '" ++ environment.getD "None" ++ "' is not allowed",
      "environment_not_allowed"⟩
  else .ok ()

/-- The text shows the runtime as the request has it. -/
def checkRuntime (policy : ExecutionPolicy) (shown : String) (seconds : Option ℤ) :
    Except PolicyViolation Unit :=
  match policy.maxRuntimeSeconds, seconds with
  | some limit, some seconds =>
      if (limit : ℤ) < seconds then
        .error ⟨"Runtime exceeds policy limit: " ++ shown ++ "s > " ++ toString limit ++ "s",
          "runtime_exceeded"⟩
      else .ok ()
  | _, _ => .ok ()

/-- `validate_or_raise`, of the fields of a request. -/
def validate (field : String → Option Value) (policy : ExecutionPolicy) :
    Except PolicyViolation PolicyValidationResult := do
  let operation ← readOperation (field "operation")
  let environment ← readEnvironment (field "environment")
  let runtimeSeconds ← readRuntime (field "runtime_seconds")
  checkOperation policy operation
  checkEnvironment policy environment
  checkRuntime policy ((field "runtime_seconds").getD .none).pyStr runtimeSeconds
  return { operation, environment, runtimeSeconds }

end PolicyValidator

end PersonalDevin.Execution
