import PersonalDevin.Context.Compatibility

/-!
# Planning with an environment

`build_execution_plan` with an environment context, and `Runner._validate_environment_context`. The
planner writes what the environment offers into the metadata of every task, over the orchestrator, the
identity type and the compliance controls that the task declares. The check of the runner then sees the
environment's own offers there, and only the topology and the data types that the task requires.
-/

namespace PersonalDevin.Context

open Lib
open Planning (Describes ExecutionPlan PlanError Planned TaskNode buildExecutionPlan buildPlan)

/-- `dict[str, Any] | EnvironmentContext`. -/
inductive EnvironmentInput where
  | model (context : EnvironmentContext)
  | payload (fields : Fields)

/-- Why `build_execution_plan` raises; `noDictionary` is the `AttributeError` of a task without `get`. -/
inductive PlanningError where
  | environment (error : EnvironmentError)
  | noDictionary
  | plan (error : PlanError)

/-- `copied.get("metadata")`, or an empty dictionary where that is none. -/
def declaredMetadata : Value → Fields
  | .dict task =>
      match Fields.get? task "metadata" with
      | some (.dict metadata) => metadata
      | _ => []
  | _ => []

/-- The metadata of a task, with what the environment offers written into it. -/
def injectMetadata (projection : PlanningContext) (metadata : Fields) : Fields :=
  upsert "required_compliance" (.list (projection.compliance.map .str))
    (upsert "required_identity_type" (.str projection.identityType)
      (upsert "required_compute_orchestrator" (.str projection.computeOrchestrator)
        (upsert "environment" (.dict projection.fields) metadata)))

def injectTask (projection : PlanningContext) : Value → Option Value
  | .dict task => some (.dict (upsert "metadata"
      (.dict (injectMetadata projection (declaredMetadata (.dict task)))) task))
  | _ => none

section

variable (digest : Fields → String)

open EnvironmentContextService (start)

def resolveEnvironmentContext :
    EnvironmentInput → Except EnvironmentError (EnvironmentContext × PlanningContext)
  | .model context => do
      let loaded ← start.loadFromPayload digest (.dict context.modelDump)
      let projection ← loaded.2.getPlanningContext
      return (context, projection)
  | .payload fields => do
      let loaded ← start.loadFromPayload digest (.dict fields)
      let projection ← loaded.2.getPlanningContext
      return (loaded.1, projection)

def applyEnvironmentContextToTasks (rawTasks : List Value) (input : EnvironmentInput) :
    Except PlanningError (List Value) :=
  match resolveEnvironmentContext digest input with
  | .error error => .error (.environment error)
  | .ok (_, projection) =>
      match rawTasks.mapM (injectTask projection) with
      | none => .error .noDictionary
      | some tasks => .ok tasks

/-- `build_execution_plan` with an environment context. -/
def buildExecutionPlanWith (rawTasks : List Value) (input : EnvironmentInput) :
    Except PlanningError ExecutionPlan := do
  let tasks ← applyEnvironmentContextToTasks digest rawTasks input
  match buildExecutionPlan tasks with
  | .error error => .error (.plan error)
  | .ok plan => .ok plan

/-- `Runner._validate_environment_context`, with an environment context. -/
def validateEnvironmentContext (plan : ExecutionPlan) :
    EnvironmentInput → Except EnvironmentError Unit
  | .model context => validatePlanCompatibility plan context
  | .payload fields => do
      let loaded ← start.loadFromPayload digest (.dict fields)
      validatePlanCompatibility plan loaded.1

/-- The validation raises `InvalidEnvironmentConfigurationError`. -/
def rejects (plan : ExecutionPlan) (input : EnvironmentInput) : Bool :=
  raisesInvalid (validateEnvironmentContext digest plan input)

end

/-! ### The metadata that planning writes -/

theorem get?_upsert (key : String) (value : Value) (fields : Fields) (key' : String) :
    Fields.get? (upsert key value fields) key'
      = if key' = key then some value else fields.get? key' :=
  lookup_upsert key value key' fields

structure Projects (projection : PlanningContext) (context : EnvironmentContext) : Prop where
  computeOrchestrator : projection.computeOrchestrator = context.getComputeType
  identityType : projection.identityType = context.getIdentityType
  compliance : projection.compliance = context.getComplianceControls

theorem declaredMet_injectMetadata {projection : PlanningContext} {context : EnvironmentContext}
    (h : Projects projection context) (metadata : Fields) :
    declaredMet context (injectMetadata projection metadata) = true := by
  have hcontrols : (context.getComplianceControls.map Value.str).mapM requiredItem
      = some context.getComplianceControls := by
    rw [mapM_eq_some_iff, List.forall₂_map_left_iff, List.forall₂_same]
    exact fun control hmem => if_neg (EnvironmentContext.ne_empty_of_mem_complianceControls hmem)
  have hcompute : valueMet context "compute" "required_compute_orchestrator"
      (injectMetadata projection metadata) = true := by
    simp [valueMet, injectMetadata, get?_upsert, h.computeOrchestrator,
      EnvironmentContext.supports_compute]
  have hidentity : valueMet context "identity" "required_identity_type"
      (injectMetadata projection metadata) = true := by
    simp [valueMet, injectMetadata, get?_upsert, h.identityType, EnvironmentContext.supports_identity]
  have hcompliance : listMet context "compliance" "required_compliance"
      (injectMetadata projection metadata) = true := by
    simp only [listMet, injectMetadata, get?_upsert, if_true, h.compliance, hcontrols,
      List.all_eq_true]
    exact fun control hmem => EnvironmentContext.supports_compliance hmem
  rw [declaredMet, hcompute, hidentity, hcompliance]
  rfl

theorem keptMet_injectMetadata (projection : PlanningContext) (context : EnvironmentContext)
    (metadata : Fields) : keptMet context (injectMetadata projection metadata)
      = keptMet context metadata := by
  simp [keptMet, valueMet, listMet, injectMetadata, get?_upsert]

/-! ### The plan with the metadata -/

/-- A check that leaves out a requirement comes to the same as the whole check if and only if one of the
others fails, or the requirement that is left out is met throughout. -/
theorem all_eq_all_and_iff {α : Type} (l : List α) (p q : α → Bool) :
    l.all q = (l.all fun a => p a && q a) ↔ (∃ a ∈ l, q a = false) ∨ ∀ a ∈ l, p a = true := by
  have hall : (l.all fun a => p a && q a) = (l.all p && l.all q) := by
    rw [Bool.eq_iff_iff]
    simp only [List.all_eq_true, Bool.and_eq_true]
    exact forall₂_and
  have hq : l.all q = false ↔ ∃ a ∈ l, q a = false := by
    simp only [List.all_eq_false, Bool.not_eq_true]
  rw [hall, ← hq, ← List.all_eq_true]
  cases l.all p <;> cases l.all q <;> simp

/-- The node with what the environment offers in its metadata. -/
def injectNode (projection : PlanningContext) (node : TaskNode) : TaskNode :=
  { node with metadata := injectMetadata projection node.metadata }

theorem metadata_of_describes {raw : Value} {node : TaskNode} (h : Describes raw node) :
    node.metadata = declaredMetadata raw := by
  obtain ⟨task, rfl, hnode⟩ := h
  simp only [TaskNode.fromDict, Option.bind_eq_bind, Option.bind_eq_some_iff, Option.pure_def,
    Option.some.injEq] at hnode
  obtain ⟨_, _, _, _, _, _, metadata, hmetadata, rfl⟩ := hnode
  unfold dictOrEmpty at hmetadata
  split at hmetadata
  · rename_i hget
    rw [declaredMetadata, hget, ← Option.some.inj hmetadata]
  · rename_i entries hget
    rw [declaredMetadata, hget, ← Option.some.inj hmetadata]
  · cases hmetadata

theorem describes_injectTask (projection : PlanningContext) {raw : Value} {node : TaskNode}
    (h : Describes raw node) : ∃ raw', injectTask projection raw = some raw'
      ∧ Describes raw' (injectNode projection node) := by
  have hmetadata := metadata_of_describes h
  obtain ⟨task, rfl, hnode⟩ := h
  refine ⟨_, rfl, _, rfl, ?_⟩
  rw [injectNode, hmetadata]
  simp only [TaskNode.fromDict, Option.bind_eq_bind, Option.bind_eq_some_iff, Option.pure_def,
    Option.some.injEq] at hnode ⊢
  obtain ⟨id, hid, description, hdescription, dependencies, hdependencies, _, _, rfl⟩ := hnode
  simp [get?_upsert, hid, hdescription, hdependencies, dictOrEmpty]

theorem planned_injectNode (projection : PlanningContext) {nodes : List TaskNode}
    {plan : ExecutionPlan} (h : Planned nodes plan) :
    ∃ plan', buildPlan (nodes.map (injectNode projection)) = .ok plan'
      ∧ Planned (nodes.map (injectNode projection)) plan' := by
  have hids : (nodes.map (injectNode projection)).map TaskNode.id = nodes.map TaskNode.id := by
    rw [List.map_map]
    rfl
  have hvalid : Planning.ValidTasks (nodes.map (injectNode projection)) := by
    refine ⟨hids ▸ h.valid.nodup, fun task hmem dep hdep => ?_⟩
    obtain ⟨node, hnode, rfl⟩ := List.mem_map.1 hmem
    exact hids ▸ h.valid.known node hnode dep hdep
  have hdepends : Planning.DependsOn (nodes.map (injectNode projection)) = Planning.DependsOn nodes := by
    funext a b
    simp [Planning.DependsOn, injectNode]
  have hfree : Planning.DuplicateFree (nodes.map (injectNode projection)) := by
    intro task hmem
    obtain ⟨node, hnode, rfl⟩ := List.mem_map.1 hmem
    exact h.duplicateFree node hnode
  rcases Planning.buildPlan_spec hvalid with hplan | ⟨hnot, _⟩
  · exact hplan
  · exact absurd ⟨hdepends ▸ h.acyclic, hfree⟩ hnot

section

variable {digest : Fields → String} {rawTasks : List Value} {plan : ExecutionPlan}
  {input : EnvironmentInput} {context : EnvironmentContext} {projection : PlanningContext}

open EnvironmentContextService (loadFromPayload_start)

theorem projects_of_resolve
    (h : resolveEnvironmentContext digest input = .ok (context, projection)) :
    Projects projection context := by
  have hload : ∀ loaded : EnvironmentContext × EnvironmentContextService, ∀ key,
      loaded = (context, ⟨some context, some key⟩) → loaded.2.getPlanningContext = .ok projection →
      Projects projection context := by
    rintro _ key rfl hprojection
    obtain rfl := Except.ok.inj hprojection
    exact ⟨rfl, rfl, rfl⟩
  cases input with
  | model model =>
      simp only [resolveEnvironmentContext, except_bind_eq_ok_iff] at h
      obtain ⟨⟨context', service⟩, hloaded, projection', hprojection, h⟩ := h
      obtain ⟨rfl, rfl⟩ := Prod.mk.inj (Except.ok.inj h)
      obtain ⟨fields, key, hfields, hmodel, rfl⟩ := loadFromPayload_start hloaded
      obtain rfl := Value.dict.inj hfields
      obtain rfl := Option.some.inj ((EnvironmentContext.modelValidate_modelDump model).symm.trans hmodel)
      exact hload _ key rfl hprojection
  | payload fields =>
      simp only [resolveEnvironmentContext, except_bind_eq_ok_iff] at h
      obtain ⟨⟨context', service⟩, hloaded, projection', hprojection, h⟩ := h
      obtain ⟨rfl, rfl⟩ := Prod.mk.inj (Except.ok.inj h)
      obtain ⟨_, key, _, _, rfl⟩ := loadFromPayload_start hloaded
      exact hload _ key rfl hprojection

/-- **When the planner resolves a model**: exactly if it can be written as JSON. It then goes on with this
model and with what the model offers. -/
theorem exists_resolve_model_iff (digest : Fields → String) (context : EnvironmentContext) :
    (∃ projection, resolveEnvironmentContext digest (.model context) = .ok (context, projection)
        ∧ Projects projection context)
      ↔ (Value.jsonEntries context.modelDump).isSome = true := by
  rcases hcanonical : Value.jsonEntries context.modelDump with _ | canonical
  · refine iff_of_false ?_ Bool.false_ne_true
    rintro ⟨projection, hresolve, -⟩
    simp only [resolveEnvironmentContext, except_bind_eq_ok_iff] at hresolve
    obtain ⟨_, hloaded, -⟩ := hresolve
    rw [EnvironmentContextService.loadFromPayload_of_notJson digest hcanonical] at hloaded
    cases hloaded
  · refine iff_of_true ?_ rfl
    have hresolve : ∃ projection,
        resolveEnvironmentContext digest (.model context) = .ok (context, projection) := by
      rw [resolveEnvironmentContext,
        EnvironmentContextService.loadFromPayload_modelDump digest hcanonical]
      exact ⟨_, rfl⟩
    exact hresolve.imp fun _ h => ⟨h, projects_of_resolve h⟩

/-- The runner checks against the environment that the planner has resolved. -/
theorem validateEnvironmentContext_eq
    (h : resolveEnvironmentContext digest input = .ok (context, projection)) (plan : ExecutionPlan) :
    validateEnvironmentContext digest plan input = validatePlanCompatibility plan context := by
  cases input with
  | model model =>
      simp only [resolveEnvironmentContext, except_bind_eq_ok_iff] at h
      obtain ⟨_, _, _, _, h⟩ := h
      obtain ⟨rfl, _⟩ := Prod.mk.inj (Except.ok.inj h)
      rfl
  | payload fields =>
      simp only [resolveEnvironmentContext, except_bind_eq_ok_iff] at h
      obtain ⟨loaded, hloaded, _, _, h⟩ := h
      obtain ⟨rfl, _⟩ := Prod.mk.inj (Except.ok.inj h)
      rw [validateEnvironmentContext, hloaded]
      rfl

theorem rejects_eq (h : resolveEnvironmentContext digest input = .ok (context, projection))
    (plan : ExecutionPlan) :
    rejects digest plan input = !plan.orderedTasks.all (taskMet context) := by
  rw [rejects, validateEnvironmentContext_eq h]
  exact (decides_validatePlanCompatibility plan context).raisesInvalid_eq

/-- **With the environment, the planner makes a plan of every list of which it makes one without.** -/
theorem buildExecutionPlanWith_spec (hplan : buildExecutionPlan rawTasks = .ok plan)
    (henv : resolveEnvironmentContext digest input = .ok (context, projection)) :
    ∃ nodes planWith, List.Forall₂ Describes rawTasks nodes ∧ plan.orderedTasks.Perm nodes
      ∧ buildExecutionPlanWith digest rawTasks input = .ok planWith
      ∧ planWith.orderedTasks.Perm (nodes.map (injectNode projection)) := by
  obtain ⟨nodes, hnodes, hplanned⟩ := Planning.planned_of_buildExecutionPlan hplan
  obtain ⟨planWith, hwith, hplannedWith⟩ := planned_injectNode projection hplanned
  obtain ⟨injected, hinjected, hdescribes⟩ :
      ∃ injected, rawTasks.mapM (injectTask projection) = some injected
        ∧ List.Forall₂ Describes injected (nodes.map (injectNode projection)) := by
    obtain ⟨injected, hinjected, hdescribes⟩ := exists_mapM_of_paired hnodes.flip
      fun node raw h => describes_injectTask projection h
    exact ⟨injected, hinjected, List.forall₂_map_right_iff.2 hdescribes.flip⟩
  refine ⟨nodes, planWith, hnodes, hplanned.perm, ?_, hplannedWith.perm⟩
  rw [buildExecutionPlanWith, applyEnvironmentContextToTasks, henv]
  simp only [hinjected, bind, Except.bind, Planning.buildExecutionPlan_of_describes hdescribes, hwith]

/-- **Planning with an environment weakens the check of the runner unless a task requires a topology or
data types that the environment does not have, or every task declares only an orchestrator, an identity
type and compliance controls that it has.** -/
theorem rejects_with_environment_iff (hplan : buildExecutionPlan rawTasks = .ok plan)
    (henv : resolveEnvironmentContext digest input = .ok (context, projection)) :
    ∃ planWith, buildExecutionPlanWith digest rawTasks input = .ok planWith
      ∧ (rejects digest planWith input = rejects digest plan input
        ↔ (∃ task ∈ rawTasks, keptMet context (declaredMetadata task) = false)
          ∨ ∀ task ∈ rawTasks, declaredMet context (declaredMetadata task) = true) := by
  obtain ⟨nodes, planWith, hnodes, hperm, hwith, hpermWith⟩ := buildExecutionPlanWith_spec hplan henv
  refine ⟨planWith, hwith, ?_⟩
  have hall : ∀ met : Fields → Bool, (nodes.all fun node => met node.metadata)
      = rawTasks.all fun task => met (declaredMetadata task) := by
    intro met
    have hmetadata := map_eq_of_paired hnodes fun _ _ h => (metadata_of_describes h).symm
    have hmet := congrArg (List.all · met) hmetadata
    rw [List.all_map, List.all_map] at hmet
    exact hmet.symm
  have hplain : plan.orderedTasks.all (taskMet context) = rawTasks.all fun task =>
      declaredMet context (declaredMetadata task) && keptMet context (declaredMetadata task) := by
    rw [hperm.all_eq]
    exact hall fun metadata => declaredMet context metadata && keptMet context metadata
  have hinjected : planWith.orderedTasks.all (taskMet context)
      = rawTasks.all fun task => keptMet context (declaredMetadata task) := by
    have hnode : taskMet context ∘ injectNode projection
        = fun node => keptMet context node.metadata := by
      funext node
      rw [Function.comp_apply, taskMet, injectNode, declaredMet_injectMetadata
        (projects_of_resolve henv), keptMet_injectMetadata, Bool.true_and]
    rw [hpermWith.all_eq, List.all_map, hnode]
    exact hall (keptMet context)
  rw [rejects_eq henv, rejects_eq henv, hplain, hinjected, Bool.not_inj_iff]
  exact all_eq_all_and_iff rawTasks _ _

end

/-! ### A task that the environment cannot serve -/

/-- The environment of the tests, but for the names. -/
def sampleEnvironment : Fields :=
  [("cloud", .dict [("provider", .str "provider-x"), ("region", .str "region-1")]),
    ("compute", .dict [("orchestrator", .str "kubernetes"),
      ("config", .dict [("cluster", .str "core")])]),
    ("network", .dict [("ingress", .str "ingress-x"), ("topology", .str "private")]),
    ("identity", .dict [("type", .str "oidc"), ("scim", .bool true)]),
    ("data", .list [.dict [("type", .str "warehouse"), ("engine", .str "engine-x"),
      ("connection", .dict [("dsn", .str "deterministic")])]]),
    ("constraints", .dict [("budget", .str "medium"), ("compliance", .list [.str "soc2"])])]

def deployTask (orchestrator : String) : Value :=
  .dict [("id", .str "deploy"), ("description", .str "Deploy workload"), ("dependencies", .list []),
    ("metadata", .dict [("required_compute_orchestrator", .str orchestrator)])]

/-- The digest of the environment above. -/
def sampleDigest (_ : Fields) : String :=
  "65ed6d4666874f2df5e6a56e75a23795991370f6ab86adbfdbf30cd51ba6f8ba"

/-- What the runner says of the plan without and of the plan with the environment. -/
def sampleOutcome (orchestrator : String) : Option (Bool × Bool) := do
  let plan ← (buildExecutionPlan [deployTask orchestrator]).toOption
  let planWith ← (buildExecutionPlanWith sampleDigest [deployTask orchestrator]
    (.payload sampleEnvironment)).toOption
  return (rejects sampleDigest plan (.payload sampleEnvironment),
    rejects sampleDigest planWith (.payload sampleEnvironment))

example : sampleOutcome "kubernetes" = some (false, false) := by decide +kernel

theorem sampleOutcome_serverless : sampleOutcome "serverless" = some (true, false) := by
  decide +kernel

theorem eq_ok_of_toOption {ε α : Type} {x : Except ε α} {a : α} (h : x.toOption = some a) :
    x = .ok a := by
  cases x with
  | error e => cases h
  | ok b => exact congrArg Except.ok (Option.some.inj h)

theorem isSome_sampleEnvironment :
    (resolveEnvironmentContext sampleDigest (.payload sampleEnvironment)).toOption.isSome = true := by
  decide +kernel

theorem isSome_deployTask :
    (buildExecutionPlan [deployTask "kubernetes"]).toOption.isSome = true := by
  decide +kernel

theorem rejects_with_environment_kubernetes : ∃ plan resolved planWith,
    buildExecutionPlan [deployTask "kubernetes"] = .ok plan
      ∧ resolveEnvironmentContext sampleDigest (.payload sampleEnvironment) = .ok resolved
      ∧ buildExecutionPlanWith sampleDigest [deployTask "kubernetes"] (.payload sampleEnvironment)
        = .ok planWith
      ∧ (rejects sampleDigest planWith (.payload sampleEnvironment)
          = rejects sampleDigest plan (.payload sampleEnvironment)
        ↔ (∃ task ∈ [deployTask "kubernetes"],
            keptMet resolved.1 (declaredMetadata task) = false)
          ∨ ∀ task ∈ [deployTask "kubernetes"],
            declaredMet resolved.1 (declaredMetadata task) = true) := by
  obtain ⟨plan, hplan⟩ := Option.isSome_iff_exists.1 isSome_deployTask
  obtain ⟨resolved, hresolved⟩ := Option.isSome_iff_exists.1 isSome_sampleEnvironment
  obtain ⟨planWith, hwith, hiff⟩ := rejects_with_environment_iff (eq_ok_of_toOption hplan)
    (eq_ok_of_toOption hresolved)
  exact ⟨plan, resolved, planWith, eq_ok_of_toOption hplan, eq_ok_of_toOption hresolved, hwith, hiff⟩

/-- A task that requires `serverless` is rejected only if the plan was made without the environment. -/
theorem environment_hides_orchestrator : ∃ plan planWith,
    buildExecutionPlan [deployTask "serverless"] = .ok plan
      ∧ buildExecutionPlanWith sampleDigest [deployTask "serverless"] (.payload sampleEnvironment)
        = .ok planWith
      ∧ rejects sampleDigest plan (.payload sampleEnvironment) = true
      ∧ rejects sampleDigest planWith (.payload sampleEnvironment) = false := by
  have houtcome := sampleOutcome_serverless
  simp only [sampleOutcome, Option.bind_eq_bind, Option.bind_eq_some_iff, Option.pure_def,
    Option.some.injEq, Prod.mk.injEq] at houtcome
  obtain ⟨plan, hplan, planWith, hwith, hrejects, haccepts⟩ := houtcome
  exact ⟨plan, planWith, eq_ok_of_toOption hplan, eq_ok_of_toOption hwith, hrejects, haccepts⟩

end PersonalDevin.Context
