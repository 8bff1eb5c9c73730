import PersonalDevin.Context.Model
import PersonalDevin.Lib.Effects

/-!
# Loading an environment context

`EnvironmentContextValidator` up to the compatibility of plans, and `EnvironmentContextService`. The
cache key is the SHA-256 digest of the JSON text of the payload with sorted keys; the digest is taken as
a function of the data that this text writes down.
-/

namespace PersonalDevin.Context

open Lib

/-- Why a payload is refused. `missing` is `MissingEnvironmentContextError`, `invalid` and `schema` are
`InvalidEnvironmentConfigurationError`, the second with the text of a validation error, and `notJson`
is the `TypeError` of `json.dumps`. -/
inductive EnvironmentError where
  | missing (text : String)
  | invalid (text : String)
  | schema
  | notJson
  deriving DecidableEq

/-- The error is an `InvalidEnvironmentConfigurationError`. -/
def EnvironmentError.isInvalid : EnvironmentError → Bool
  | invalid _ => true
  | schema => true
  | _ => false

/-! ### Required fields -/

/-- `sorted(required - set(fields.keys()))`, for required keys in ascending order. -/
def missingKeys (required : List String) (fields : Fields) : List String :=
  required.filter fun key => (fields.get? key).isNone

def missingFields (names : List String) : EnvironmentError :=
  .missing ("missing environment fields: " ++ ", ".intercalate names)

/-- `_REQUIRED_TOP_LEVEL`, sorted. -/
def requiredTopLevel : List String :=
  ["cloud", "compute", "constraints", "data", "identity", "network"]

/-- `_REQUIRED_NESTED`, each set sorted. -/
def requiredNested : List (String × List String) :=
  [("cloud", ["provider", "region"]), ("compute", ["config", "orchestrator"]),
    ("network", ["ingress", "topology"]), ("identity", ["scim", "type"]),
    ("constraints", ["budget", "compliance"])]

/-- `_REQUIRED_DATA_ITEM`, sorted. -/
def requiredDataItem : List String := ["connection", "engine", "type"]

def checkTopLevel (payload : Fields) : Except EnvironmentError Unit :=
  let missing := missingKeys requiredTopLevel payload
  if missing ≠ [] then .error (missingFields missing) else .ok ()

/-- The keys that a section must have. -/
def checkKeys (name : String) (required : List String) (fields : Fields) :
    Except EnvironmentError Unit :=
  let missing := missingKeys required fields
  if missing ≠ [] then .error (missingFields (missing.map (name ++ "." ++ ·))) else .ok ()

def checkSections (payload : Fields) : List (String × List String) → Except EnvironmentError Unit
  | [] => .ok ()
  | (name, required) :: rest =>
      match payload.get? name with
      | some (.dict fields) => do
          checkKeys name required fields
          checkSections payload rest
      | _ => .error (missingFields [name])

def checkDataItems (index : ℕ) : List Value → Except EnvironmentError Unit
  | [] => .ok ()
  | .dict fields :: rest => do
      checkKeys ("data[" ++ toString index ++ "]") requiredDataItem fields
      checkDataItems (index + 1) rest
  | _ :: _ => .error (.invalid ("data[" ++ toString index ++ "] must be a dictionary"))

def checkData : Option Value → Except EnvironmentError Unit
  | some (.list items) =>
      if items = [] then .error (missingFields ["data"]) else checkDataItems 0 items
  | _ => .error (missingFields ["data"])

/-- `validate_required_fields`, with the dictionary that the payload is. -/
def validateRequiredFields : Value → Except EnvironmentError Fields
  | .none => .error (.missing "environment context is required")
  | .dict payload => do
      checkTopLevel payload
      checkSections payload requiredNested
      checkData (Fields.get? payload "data")
      return payload
  | _ => .error (.invalid "environment context must be a dictionary")

def validateModel (payload : Fields) : Except EnvironmentError EnvironmentContext :=
  match EnvironmentContext.modelValidate payload with
  | some context => .ok context
  | none => .error .schema

theorem validateRequiredFields_eq_ok {payload : Value} {fields : Fields}
    (h : validateRequiredFields payload = .ok fields) : payload = .dict fields := by
  cases payload with
  | dict entries =>
      simp only [validateRequiredFields, except_bind_eq_ok_iff] at h
      obtain ⟨_, _, _, _, _, _, h⟩ := h
      exact congrArg Value.dict (Except.ok.inj h)
  | _ => cases h

theorem validateModel_eq_ok_iff {payload : Fields} {context : EnvironmentContext} :
    validateModel payload = .ok context ↔ EnvironmentContext.modelValidate payload = some context := by
  unfold validateModel
  split
  · rename_i context' heq
    rw [heq, Except.ok.injEq, Option.some.injEq]
  · rename_i heq
    rw [heq]
    exact iff_of_false nofun nofun

theorem checkDataItems_modelDump (sources : List DataSourceContext) (index : ℕ) :
    checkDataItems index (sources.map fun source => .dict source.modelDump) = .ok () := by
  induction sources generalizing index with
  | nil => rfl
  | cons source rest ih =>
      rw [List.map_cons, checkDataItems]
      exact ih (index + 1)

theorem validateRequiredFields_modelDump (context : EnvironmentContext) :
    validateRequiredFields (.dict context.modelDump) = .ok context.modelDump := by
  have hdata : checkData (context.modelDump.get? "data") = .ok () := by
    show (if _ then _ else _) = _
    rw [if_neg fun h => context.nonempty (List.map_eq_nil_iff.1 h)]
    exact checkDataItems_modelDump context.data 0
  have hsections : checkSections context.modelDump requiredNested = .ok () := rfl
  have htop : checkTopLevel context.modelDump = .ok () := rfl
  rw [validateRequiredFields, htop, hsections, hdata]
  rfl

/-! ### The service -/

/-- The projection that planning consumes. -/
structure PlanningContext where
  cloudProvider : String
  cloudRegion : String
  computeOrchestrator : String
  identityType : String
  budget : String
  compliance : List String
  cacheKey : String

def PlanningContext.fields (projection : PlanningContext) : Fields :=
  [("cloud_provider", .str projection.cloudProvider), ("cloud_region", .str projection.cloudRegion),
    ("compute_orchestrator", .str projection.computeOrchestrator),
    ("identity_type", .str projection.identityType), ("budget", .str projection.budget),
    ("compliance", .list (projection.compliance.map .str)), ("cache_key", .str projection.cacheKey)]

structure EnvironmentContextService where
  context : Option EnvironmentContext
  cacheKey : Option String

namespace EnvironmentContextService

def start : EnvironmentContextService := ⟨none, none⟩

def notLoaded : EnvironmentError := .missing "environment context has not been loaded"

def getContext (service : EnvironmentContextService) : Except EnvironmentError EnvironmentContext :=
  match service.context with
  | none => .error notLoaded
  | some context => .ok context

def getCacheKey (service : EnvironmentContextService) : Except EnvironmentError String :=
  match service.cacheKey with
  | none => .error notLoaded
  | some cacheKey => .ok cacheKey

variable (digest : Fields → String)

def buildCacheKey (payload : Fields) : Except EnvironmentError String :=
  match Value.jsonEntries payload with
  | none => .error .notJson
  | some canonical => .ok (digest (Value.sortKeysEntries canonical))

/-- `load_from_payload`, with the service after it. An error leaves the service as it was. -/
def loadFromPayload (service : EnvironmentContextService) (payload : Value) :
    Except EnvironmentError (EnvironmentContext × EnvironmentContextService) := do
  let payload ← validateRequiredFields payload
  let context ← validateModel payload
  let cacheKey ← buildCacheKey digest payload
  let service := if service.cacheKey = some cacheKey then service else ⟨some context, some cacheKey⟩
  let context ← service.getContext
  return (context, service)

def getPlanningContext (service : EnvironmentContextService) :
    Except EnvironmentError PlanningContext := do
  let context ← service.getContext
  let cacheKey ← service.getCacheKey
  return {
    cloudProvider := context.cloud.provider
    cloudRegion := context.cloud.region
    computeOrchestrator := context.getComputeType
    identityType := context.getIdentityType
    budget := context.getBudget
    compliance := context.getComplianceControls
    cacheKey }

/-- **A model that can be written as JSON is loaded from its dictionary.** -/
theorem loadFromPayload_modelDump {context : EnvironmentContext} {canonical : Fields}
    (h : Value.jsonEntries context.modelDump = some canonical) :
    start.loadFromPayload digest (.dict context.modelDump)
      = .ok (context, ⟨some context, some (digest (Value.sortKeysEntries canonical))⟩) := by
  rw [loadFromPayload, validateRequiredFields_modelDump]
  simp only [bind, Except.bind, validateModel_eq_ok_iff.2 context.modelValidate_modelDump,
    buildCacheKey, h]
  rfl

theorem loadFromPayload_of_notJson {context : EnvironmentContext}
    (h : Value.jsonEntries context.modelDump = none) :
    start.loadFromPayload digest (.dict context.modelDump) = .error .notJson := by
  rw [loadFromPayload, validateRequiredFields_modelDump]
  simp only [bind, Except.bind, validateModel_eq_ok_iff.2 context.modelValidate_modelDump,
    buildCacheKey, h]

variable {digest}

theorem loadFromPayload_start {payload : Value} {context : EnvironmentContext}
    {service : EnvironmentContextService}
    (h : start.loadFromPayload digest payload = .ok (context, service)) :
    ∃ fields cacheKey, payload = .dict fields ∧ EnvironmentContext.modelValidate fields = some context
      ∧ service = ⟨some context, some cacheKey⟩ := by
  simp only [loadFromPayload, except_bind_eq_ok_iff] at h
  obtain ⟨fields, hfields, context', hmodel, cacheKey, _, context'', hcontext, h⟩ := h
  obtain ⟨rfl, rfl⟩ := Prod.mk.inj (Except.ok.inj h)
  obtain rfl : context' = context'' := Except.ok.inj hcontext
  exact ⟨fields, cacheKey, validateRequiredFields_eq_ok hfields, validateModel_eq_ok_iff.1 hmodel, rfl⟩

end EnvironmentContextService

end PersonalDevin.Context
