import PersonalDevin.Field
import Mathlib.Data.List.Sort
import Mathlib.Data.String.Basic

/-!
# The environment context

The models of `app/context/models.py`. A model that has been validated carries what its fields declare,
so its dictionary is validated again, and to the same model.
-/

namespace PersonalDevin.Context

/-! ### Declared fields -/

/-- A field declared `str = Field(..., min_length=1)`. -/
abbrev NonEmptyText := { text : String // text ≠ "" }

def nonEmptyText : Option Value → Option NonEmptyText
  | some (.str text) => if h : text ≠ "" then some ⟨text, h⟩ else none
  | _ => none

theorem nonEmptyText_str (text : NonEmptyText) : nonEmptyText (some (.str text.val)) = some text :=
  dif_pos text.2

/-- A field declared `Literal[...]`, with the texts of an enumeration. -/
def literal {α : Type} (all : List α) (text : α → String) : Option Value → Option α
  | some (.str s) => all.find? (text · = s)
  | _ => none

/-- A field declared `dict[str, Any]`. -/
def requiredDict : Option Value → Option Fields
  | some (.dict fields) => some fields
  | _ => none

/-- The dictionary of a model with these fields and `extra="forbid"`. -/
def modelFields (declared : List String) : Option Value → Option Fields
  | some (.dict fields) => if fields.all fun entry => entry.1 ∈ declared then some fields else none
  | _ => none

/-! ### Enumerations -/

inductive Orchestrator where
  | kubernetes
  | vm
  | serverless
  deriving DecidableEq

namespace Orchestrator

def text : Orchestrator → String
  | kubernetes => "kubernetes"
  | vm => "vm"
  | serverless => "serverless"

def field : Option Value → Option Orchestrator := literal [kubernetes, vm, serverless] text

theorem field_text (orchestrator : Orchestrator) :
    field (some (.str orchestrator.text)) = some orchestrator := by
  cases orchestrator <;> decide

end Orchestrator

inductive Topology where
  | privateOnly
  | publicOnly
  | hybrid
  deriving DecidableEq

namespace Topology

def text : Topology → String
  | privateOnly => "private"
  | publicOnly => "public"
  | hybrid => "hybrid"

def field : Option Value → Option Topology := literal [privateOnly, publicOnly, hybrid] text

theorem field_text (topology : Topology) : field (some (.str topology.text)) = some topology := by
  cases topology <;> decide

end Topology

inductive IdentityType where
  | oidc
  | saml
  | custom
  deriving DecidableEq

namespace IdentityType

def text : IdentityType → String
  | oidc => "oidc"
  | saml => "saml"
  | custom => "custom"

def field : Option Value → Option IdentityType := literal [oidc, saml, custom] text

theorem field_text (type : IdentityType) : field (some (.str type.text)) = some type := by
  cases type <;> decide

end IdentityType

inductive DataSourceType where
  | warehouse
  | relational
  | lake
  | api
  deriving DecidableEq

namespace DataSourceType

def text : DataSourceType → String
  | warehouse => "warehouse"
  | relational => "relational"
  | lake => "lake"
  | api => "api"

def field : Option Value → Option DataSourceType :=
  literal [warehouse, relational, lake, api] text

theorem field_text (type : DataSourceType) : field (some (.str type.text)) = some type := by
  cases type <;> decide

end DataSourceType

inductive Budget where
  | low
  | medium
  | high
  deriving DecidableEq

namespace Budget

def text : Budget → String
  | low => "low"
  | medium => "medium"
  | high => "high"

def field : Option Value → Option Budget := literal [low, medium, high] text

theorem field_text (budget : Budget) : field (some (.str budget.text)) = some budget := by
  cases budget <;> decide

end Budget

/-! ### Models -/

structure CloudContext where
  provider : NonEmptyText
  region : NonEmptyText

structure ComputeContext where
  orchestrator : Orchestrator
  config : Fields

structure NetworkContext where
  ingress : NonEmptyText
  topology : Topology

structure IdentityContext where
  type : IdentityType
  scim : Bool

structure DataSourceContext where
  type : DataSourceType
  engine : NonEmptyText
  connection : Fields

/-- An entry of `compliance`, as `_validate_compliance` leaves it. -/
abbrev ComplianceControl := { text : String // text ≠ "" ∧ strip text = text }

structure ConstraintContext where
  budget : Budget
  compliance : List ComplianceControl
  nonempty : compliance ≠ []

structure EnvironmentContext where
  cloud : CloudContext
  compute : ComputeContext
  network : NetworkContext
  identity : IdentityContext
  data : List DataSourceContext
  constraints : ConstraintContext
  nonempty : data ≠ []

/-! ### Dictionaries of the models

`model_dump` gives the dictionary of a model, and `model_validate` the model of a dictionary, or nothing
where it raises. -/

namespace CloudContext

def modelDump (cloud : CloudContext) : Fields :=
  [("provider", .str cloud.provider), ("region", .str cloud.region)]

def modelValidate (payload : Option Value) : Option CloudContext := do
  let fields ← modelFields ["provider", "region"] payload
  let provider ← nonEmptyText (fields.get? "provider")
  let region ← nonEmptyText (fields.get? "region")
  return { provider, region }

theorem modelValidate_modelDump (cloud : CloudContext) :
    modelValidate (some (.dict cloud.modelDump)) = some cloud := by
  simp [modelValidate, modelDump, modelFields, Fields.get?, List.lookup_cons, nonEmptyText_str]

end CloudContext

namespace ComputeContext

def modelDump (compute : ComputeContext) : Fields :=
  [("orchestrator", .str compute.orchestrator.text), ("config", .dict compute.config)]

def modelValidate (payload : Option Value) : Option ComputeContext := do
  let fields ← modelFields ["orchestrator", "config"] payload
  let orchestrator ← Orchestrator.field (fields.get? "orchestrator")
  let config ← requiredDict (fields.get? "config")
  return { orchestrator, config }

theorem modelValidate_modelDump (compute : ComputeContext) :
    modelValidate (some (.dict compute.modelDump)) = some compute := by
  simp [modelValidate, modelDump, modelFields, Fields.get?, List.lookup_cons, requiredDict,
    Orchestrator.field_text]

end ComputeContext

namespace NetworkContext

def modelDump (network : NetworkContext) : Fields :=
  [("ingress", .str network.ingress), ("topology", .str network.topology.text)]

def modelValidate (payload : Option Value) : Option NetworkContext := do
  let fields ← modelFields ["ingress", "topology"] payload
  let ingress ← nonEmptyText (fields.get? "ingress")
  let topology ← Topology.field (fields.get? "topology")
  return { ingress, topology }

theorem modelValidate_modelDump (network : NetworkContext) :
    modelValidate (some (.dict network.modelDump)) = some network := by
  simp [modelValidate, modelDump, modelFields, Fields.get?, List.lookup_cons, nonEmptyText_str,
    Topology.field_text]

end NetworkContext

namespace IdentityContext

def modelDump (identity : IdentityContext) : Fields :=
  [("type", .str identity.type.text), ("scim", .bool identity.scim)]

def modelValidate (payload : Option Value) : Option IdentityContext := do
  let fields ← modelFields ["type", "scim"] payload
  let type ← IdentityType.field (fields.get? "type")
  let scim ← (fields.get? "scim").bind boolItem
  return { type, scim }

theorem modelValidate_modelDump (identity : IdentityContext) :
    modelValidate (some (.dict identity.modelDump)) = some identity := by
  simp [modelValidate, modelDump, modelFields, Fields.get?, List.lookup_cons, boolItem,
    IdentityType.field_text]

end IdentityContext

namespace DataSourceContext

def modelDump (source : DataSourceContext) : Fields :=
  [("type", .str source.type.text), ("engine", .str source.engine),
    ("connection", .dict source.connection)]

def modelValidate (payload : Option Value) : Option DataSourceContext := do
  let fields ← modelFields ["type", "engine", "connection"] payload
  let type ← DataSourceType.field (fields.get? "type")
  let engine ← nonEmptyText (fields.get? "engine")
  let connection ← requiredDict (fields.get? "connection")
  return { type, engine, connection }

theorem modelValidate_modelDump (source : DataSourceContext) :
    modelValidate (some (.dict source.modelDump)) = some source := by
  simp [modelValidate, modelDump, modelFields, Fields.get?, List.lookup_cons, nonEmptyText_str,
    requiredDict, DataSourceType.field_text]

end DataSourceContext

/-- `_validate_compliance` on one entry. -/
def complianceControl (entry : String) : Option ComplianceControl :=
  if h : strip entry ≠ "" then some ⟨strip entry, h, strip_strip entry⟩ else none

theorem complianceControl_val (control : ComplianceControl) :
    complianceControl control.val = some control := by
  have hne : strip control.val ≠ "" := by
    rw [control.2.2]
    exact control.2.1
  rw [complianceControl, dif_pos hne]
  exact congrArg some (Subtype.ext control.2.2)

namespace ConstraintContext

def modelDump (constraints : ConstraintContext) : Fields :=
  [("budget", .str constraints.budget.text),
    ("compliance", .list (constraints.compliance.map fun control => .str control.val))]

def modelValidate (payload : Option Value) : Option ConstraintContext := do
  let fields ← modelFields ["budget", "compliance"] payload
  let budget ← Budget.field (fields.get? "budget")
  let entries ← strList (fields.get? "compliance")
  let compliance ← entries.mapM complianceControl
  if nonempty : compliance ≠ [] then some { budget, compliance, nonempty } else none

theorem modelValidate_modelDump (constraints : ConstraintContext) :
    modelValidate (some (.dict constraints.modelDump)) = some constraints := by
  have hentries : (constraints.compliance.map fun control => Value.str control.val).mapM strItem
      = some (constraints.compliance.map Subtype.val) := by
    rw [mapM_strItem_eq_some_iff, List.forall₂_map_left_iff, List.forall₂_map_right_iff,
      List.forall₂_same]
    exact fun _ _ => rfl
  have hcontrols : (constraints.compliance.map Subtype.val).mapM complianceControl
      = some constraints.compliance := by
    rw [Lib.mapM_eq_some_iff, List.forall₂_map_left_iff, List.forall₂_same]
    exact fun control _ => complianceControl_val control
  rw [modelDump]
  generalize (constraints.compliance.map fun control => Value.str control.val) = items at hentries ⊢
  simp [modelValidate, modelFields, Fields.get?, List.lookup_cons, Budget.field_text, strList,
    hentries, hcontrols, constraints.nonempty, -List.mapM_map, -List.map_subtype]

end ConstraintContext

/-- The field `data`. -/
def dataSources : Option Value → Option (List DataSourceContext)
  | some (.list items) => items.mapM fun item => DataSourceContext.modelValidate (some item)
  | some (.tuple items) => items.mapM fun item => DataSourceContext.modelValidate (some item)
  | _ => none

namespace EnvironmentContext

def modelDump (context : EnvironmentContext) : Fields :=
  [("cloud", .dict context.cloud.modelDump), ("compute", .dict context.compute.modelDump),
    ("network", .dict context.network.modelDump), ("identity", .dict context.identity.modelDump),
    ("data", .list (context.data.map fun source => .dict source.modelDump)),
    ("constraints", .dict context.constraints.modelDump)]

def modelValidate (payload : Fields) : Option EnvironmentContext := do
  let fields ← modelFields ["cloud", "compute", "network", "identity", "data", "constraints"]
    (some (.dict payload))
  let cloud ← CloudContext.modelValidate (fields.get? "cloud")
  let compute ← ComputeContext.modelValidate (fields.get? "compute")
  let network ← NetworkContext.modelValidate (fields.get? "network")
  let identity ← IdentityContext.modelValidate (fields.get? "identity")
  let data ← dataSources (fields.get? "data")
  let constraints ← ConstraintContext.modelValidate (fields.get? "constraints")
  if nonempty : data ≠ [] then
    some { cloud, compute, network, identity, data, constraints, nonempty }
  else none

/-- **A model is validated again from its dictionary.** -/
theorem modelValidate_modelDump (context : EnvironmentContext) :
    modelValidate context.modelDump = some context := by
  have hdata : (context.data.map fun source => Value.dict source.modelDump).mapM
      (fun item => DataSourceContext.modelValidate (some item)) = some context.data := by
    rw [Lib.mapM_eq_some_iff, List.forall₂_map_left_iff, List.forall₂_same]
    exact fun source _ => source.modelValidate_modelDump
  rw [modelDump]
  generalize (context.data.map fun source => Value.dict source.modelDump) = items at hdata ⊢
  simp [modelValidate, modelFields, Fields.get?, List.lookup_cons,
    CloudContext.modelValidate_modelDump, ComputeContext.modelValidate_modelDump,
    NetworkContext.modelValidate_modelDump, IdentityContext.modelValidate_modelDump, dataSources,
    hdata, ConstraintContext.modelValidate_modelDump, context.nonempty]

/-! ### Capabilities -/

def getComputeType (context : EnvironmentContext) : String := context.compute.orchestrator.text

def getIdentityType (context : EnvironmentContext) : String := context.identity.type.text

def getBudget (context : EnvironmentContext) : String := context.constraints.budget.text

/-- `get_compliance_controls`, in the order of `sorted`. -/
def getComplianceControls (context : EnvironmentContext) : List String :=
  (context.constraints.compliance.map Subtype.val).insertionSort (· ≤ ·)

/-- `get_data_types`, in the order of `sorted`. -/
def getDataTypes (context : EnvironmentContext) : List String :=
  (context.data.map fun source => source.type.text).insertionSort (· ≤ ·)

def supports (context : EnvironmentContext) (capability : String) (value : Value) : Bool :=
  match capability, value with
  | "compute", .str text => text = context.getComputeType
  | "identity", .str text => text = context.getIdentityType
  | "network_topology", .str text => text = context.network.topology.text
  | "data_type", .str text => text ∈ context.getDataTypes
  | "compliance", .str text => text ∈ context.getComplianceControls
  | _, _ => false

theorem supports_compute (context : EnvironmentContext) :
    context.supports "compute" (.str context.getComputeType) := decide_eq_true rfl

theorem supports_identity (context : EnvironmentContext) :
    context.supports "identity" (.str context.getIdentityType) := decide_eq_true rfl

theorem supports_compliance {context : EnvironmentContext} {control : String}
    (h : control ∈ context.getComplianceControls) : context.supports "compliance" (.str control) :=
  decide_eq_true h

theorem ne_empty_of_mem_complianceControls {context : EnvironmentContext} {control : String}
    (h : control ∈ context.getComplianceControls) : control ≠ "" := by
  obtain ⟨entry, _, rfl⟩ := List.mem_map.1 ((List.perm_insertionSort _ _).mem_iff.1 h)
  exact entry.2.1

end EnvironmentContext

end PersonalDevin.Context
