import PersonalDevin.Deployment.Orchestrator

/-!
# What a plan says

For a context with `n` services the plan has `n + 2` steps, numbered from 1, whose ids differ because each
begins with its number. Everything in the plan comes from the context, so the plan can be written if the
arguments of the context can, and its text is that of every other order of the arguments.
-/

namespace PersonalDevin.Deployment.Core

open Lib

/-! ### Step ids -/

/-- The id of the step begins with its number. -/
def DeploymentStep.Numbered (step : DeploymentStep) : Prop :=
  ∃ suffix, step.stepId = "step-" ++ zeroPad 3 step.index ++ "-" ++ suffix

def numberOf (stepId : String) : List Char := (stepId.toList.drop 5).takeWhile Char.isDigit

theorem isDigit_of_mem_zeroPad {width n : ℕ} {c : Char} (h : c ∈ (zeroPad width n).toList) :
    c.isDigit = true := by
  rw [zeroPad, String.toList_ofList] at h
  rcases List.mem_append.1 h with hpad | hdigit
  · rw [List.eq_of_mem_replicate hpad]
    rfl
  · exact Nat.isDigit_of_mem_toDigits (by decide) (by decide) hdigit

theorem DeploymentStep.Numbered.numberOf_eq {step : DeploymentStep} (h : step.Numbered) :
    numberOf step.stepId = (zeroPad 3 step.index).toList := by
  obtain ⟨suffix, hstepId⟩ := h
  have htext : step.stepId.toList
      = "step-".toList ++ ((zeroPad 3 step.index).toList ++ '-' :: suffix.toList) := by
    rw [hstepId]
    simp only [String.toList_append, List.append_assoc]
    rfl
  rw [numberOf, htext]
  show List.takeWhile Char.isDigit ((zeroPad 3 step.index).toList ++ '-' :: suffix.toList) = _
  rw [List.takeWhile_append_of_pos fun c hc => isDigit_of_mem_zeroPad hc,
    List.takeWhile_cons_of_neg (by decide), List.append_nil]

/-- **Steps with different numbers have different ids.** -/
theorem nodup_stepId {steps : List DeploymentStep} (hnumbered : ∀ step ∈ steps, step.Numbered)
    (hindex : (steps.map DeploymentStep.index).Nodup) : (steps.map DeploymentStep.stepId).Nodup := by
  have hinj : Function.Injective fun n => (zeroPad 3 n).toList := fun _ _ h =>
    zeroPad_injective 3 (String.toList_inj.1 h)
  have hnumbers : (steps.map DeploymentStep.stepId).map numberOf
      = (steps.map DeploymentStep.index).map fun n => (zeroPad 3 n).toList := by
    rw [List.map_map, List.map_map]
    exact List.map_congr_left fun step hstep => (hnumbered step hstep).numberOf_eq
  exact List.Nodup.of_map numberOf (hnumbers ▸ hindex.map hinj)

/-! ### Artifacts -/

def Missing (artifacts : Fields) (key : String) : Prop :=
  artifacts.get? key = none ∨ artifacts.get? key = some .none

/-- The artifact of a service: its own, else the default one, else the placeholder. -/
inductive Resolved (artifacts : Fields) (service : String) : Value → Prop
  | own {value : Value} (h : artifacts.get? service = some value) (hvalue : value ≠ .none) :
      Resolved artifacts service value
  | default {value : Value} (hown : Missing artifacts service)
      (h : artifacts.get? "default" = some value) (hvalue : value ≠ .none) :
      Resolved artifacts service value
  | unmapped (hown : Missing artifacts service) (hdefault : Missing artifacts "default") :
      Resolved artifacts service (DeploymentOrchestrator.unmappedArtifact service)

namespace DeploymentOrchestrator

theorem canonicalize_eq_none_iff {value : Value} : canonicalize value = .none ↔ value = .none := by
  cases value <;> simp [canonicalize]

theorem artifactPayload_cases (artifacts : Fields) (key : String) :
    (∃ value, artifacts.get? key = some value ∧ value ≠ .none
        ∧ artifactPayload (canonicalizeEntries artifacts) key = some (canonicalize value))
      ∨ (Missing artifacts key ∧ artifactPayload (canonicalizeEntries artifacts) key = none) := by
  rw [artifactPayload, get?_canonicalizeEntries]
  cases hget : artifacts.get? key with
  | none => exact .inr ⟨.inl hget, rfl⟩
  | some value =>
      by_cases hvalue : value = .none
      · subst hvalue
        exact .inr ⟨.inr hget, rfl⟩
      · refine .inl ⟨value, rfl, hvalue, ?_⟩
        have hne : canonicalize value ≠ .none := fun h => hvalue (canonicalize_eq_none_iff.1 h)
        rw [Option.map_some]
        split
        · rename_i heq
          exact absurd (Option.some.inj heq) hne
        · rfl

/-- The artifact of a step, in canonical form, is the resolved one. -/
theorem exists_resolved {context : DeploymentContext} {artifacts : Fields}
    (h : context.artifacts = canonicalizeEntries artifacts) (service : String) :
    ∃ value, Resolved artifacts service value
      ∧ canonicalizeEntries (resolveArtifactForService context service)
        = describeArtifact (canonicalize value) := by
  have hdescribe : ∀ value, canonicalizeEntries (describeArtifact (canonicalize value))
      = describeArtifact (canonicalize value) := by
    intro value
    cases value with
    | dict entries => exact Value.dict.inj (canonicalize_canonicalize (.dict entries))
    | _ => rfl
  rw [resolveArtifactForService, h]
  rcases artifactPayload_cases artifacts service with ⟨value, hget, hvalue, hown⟩ | ⟨hmissing, hown⟩
  · refine ⟨value, .own hget hvalue, ?_⟩
    rw [hown, Option.getD_some, hdescribe]
  · rw [hown, Option.getD_none]
    rcases artifactPayload_cases artifacts "default" with
      ⟨value, hget, hvalue, hdefault⟩ | ⟨hnone, hdefault⟩
    · refine ⟨value, .default hmissing hget hvalue, ?_⟩
      rw [hdefault, Option.getD_some, hdescribe]
    · exact ⟨unmappedArtifact service, .unmapped hmissing hnone, by rw [hdefault]; rfl⟩

end DeploymentOrchestrator

/-! ### Values that can be written -/

/-- The dictionary can be written as JSON. -/
def Writable (fields : Fields) : Prop := (Value.jsonEntries fields).isSome = true

theorem writable_nil : Writable [] := rfl

theorem writable_cons {key : String} {value : Value} {fields : Fields} :
    Writable ((key, value) :: fields) ↔ value.jsonRoundTrip.isSome = true ∧ Writable fields := by
  rw [Writable, Writable, Value.isSome_jsonEntries, Value.isSome_jsonEntries, List.forall_mem_cons]

theorem isSome_dict {fields : Fields} :
    (Value.dict fields).jsonRoundTrip.isSome = true ↔ Writable fields := by
  rw [Value.jsonRoundTrip, Option.isSome_map, Writable]

theorem isSome_list {items : List Value} :
    (Value.list items).jsonRoundTrip.isSome = true ↔ ∀ item ∈ items, item.jsonRoundTrip.isSome = true := by
  rw [Value.jsonRoundTrip, Option.isSome_map, Value.isSome_jsonItems]

theorem Writable.canonicalizeEntries {fields : Fields} (h : Writable fields) :
    Writable (canonicalizeEntries fields) := isSome_canonicalizeEntries h

theorem Writable.get? {fields : Fields} (h : Writable fields) {key : String} {value : Value}
    (hget : fields.get? key = some value) : value.jsonRoundTrip.isSome = true := by
  obtain ⟨before, after, rfl, _⟩ := List.lookup_eq_some_iff.1 hget
  exact Value.isSome_jsonEntries.1 h (key, value) (List.mem_append_right _ List.mem_cons_self)

/-- The parameters and the metadata of the step can be written. -/
def DeploymentStep.Writable (step : DeploymentStep) : Prop :=
  Core.Writable step.parameters ∧ Core.Writable step.metadata

theorem DeploymentStep.Writable.toDict {step : DeploymentStep} (h : step.Writable) :
    Core.Writable step.toDict := by
  simp only [DeploymentStep.toDict, writable_cons, isSome_dict]
  exact ⟨rfl, rfl, rfl, rfl, h.1.canonicalizeEntries, h.2.canonicalizeEntries, writable_nil⟩

/-- What the context holds can be written. -/
structure DeploymentContext.Writable (context : DeploymentContext) : Prop where
  artifacts : Core.Writable context.artifacts
  config : Core.Writable context.config
  metadata : Core.Writable context.metadata

namespace DeploymentOrchestrator

variable {context : DeploymentContext}

theorem isSome_serviceValues : (serviceValues context).jsonRoundTrip.isSome = true := by
  rw [serviceValues, isSome_list]
  intro item hitem
  obtain ⟨service, _, rfl⟩ := List.mem_map.1 hitem
  rfl

theorem writable_resolveArtifact (h : context.Writable) (service : String) :
    Writable (resolveArtifactForService context service) := by
  have hdescribe : ∀ value : Value, value.jsonRoundTrip.isSome = true →
      Writable (describeArtifact value) := by
    intro value hvalue
    cases value with
    | dict entries => exact isSome_dict.1 hvalue
    | _ => exact rfl
  have hpayload : ∀ key value, artifactPayload context.artifacts key = some value →
      value.jsonRoundTrip.isSome = true := by
    intro key value hvalue
    unfold artifactPayload at hvalue
    split at hvalue
    · cases hvalue
    · exact h.artifacts.get? hvalue
  rw [resolveArtifactForService]
  apply hdescribe
  rcases hown : artifactPayload context.artifacts service with _ | value
  · rcases hdefault : artifactPayload context.artifacts "default" with _ | value
    · rfl
    · exact hpayload "default" value hdefault
  · exact hpayload service value hown

theorem writable_prepareParameters (h : context.Writable) : Writable (prepareParameters context) := by
  simp only [prepareParameters, writable_cons, isSome_dict]
  exact ⟨rfl, isSome_serviceValues, h.config, writable_nil⟩

theorem writable_deployParameters (h : context.Writable) (service : String) :
    Writable (deployParameters context service) := by
  have hconfig : ((context.config.get? service).getD (.dict [])).jsonRoundTrip.isSome = true := by
    cases hget : context.config.get? service with
    | none => rfl
    | some value => exact h.config.get? hget
  simp only [deployParameters, writable_cons, isSome_dict]
  exact ⟨rfl, writable_resolveArtifact h service, hconfig, writable_nil⟩

theorem writable_verifyParameters : Writable (verifyParameters context) := by
  simp only [verifyParameters, writable_cons]
  exact ⟨isSome_serviceValues, rfl, writable_nil⟩

theorem writable_planMetadata (h : context.Writable) : Writable (planMetadata context) := by
  simp only [planMetadata, writable_cons, isSome_dict]
  exact ⟨rfl, rfl, rfl, rfl, h.metadata, writable_nil⟩

end DeploymentOrchestrator

/-! ### The steps of a plan -/

structure Deploys (artifacts : Fields) (service : String) (step : DeploymentStep) : Prop where
  action : step.action = "deploy_service"
  target : step.target = service
  artifact : ∃ value, Resolved artifacts service value ∧ step.parameters.get? "artifact"
    = some (.dict (DeploymentOrchestrator.describeArtifact (canonicalize value)))

/-- The steps are numbered from here, their ids begin with the numbers, and they can be written. -/
structure WellNumbered (offset : ℕ) (steps : List DeploymentStep) : Prop where
  indexes : steps.map DeploymentStep.index = List.range' offset steps.length
  numbered : ∀ step ∈ steps, step.Numbered
  writable : ∀ step ∈ steps, step.Writable

theorem wellNumbered_nil (offset : ℕ) : WellNumbered offset [] :=
  ⟨rfl, fun _ h => absurd h List.not_mem_nil, fun _ h => absurd h List.not_mem_nil⟩

theorem WellNumbered.cons {offset : ℕ} {step : DeploymentStep} {steps : List DeploymentStep}
    (h : WellNumbered (offset + 1) steps) (hindex : step.index = offset) (hnumbered : step.Numbered)
    (hwritable : step.Writable) : WellNumbered offset (step :: steps) where
  indexes := by rw [List.map_cons, hindex, h.indexes, List.length_cons, List.range'_succ]
  numbered := List.forall_mem_cons.2 ⟨hnumbered, h.numbered⟩
  writable := List.forall_mem_cons.2 ⟨hwritable, h.writable⟩

theorem WellNumbered.append {offset : ℕ} {steps others : List DeploymentStep}
    (h : WellNumbered offset steps) (h' : WellNumbered (offset + steps.length) others) :
    WellNumbered offset (steps ++ others) where
  indexes := by
    rw [List.map_append, h.indexes, h'.indexes, List.length_append, List.range'_append_1]
  numbered := List.forall_mem_append.2 ⟨h.numbered, h'.numbered⟩
  writable := List.forall_mem_append.2 ⟨h.writable, h'.writable⟩

namespace DeploymentOrchestrator

variable {context : DeploymentContext} {artifacts : Fields}

theorem deploySteps_spec (h : context.Writable)
    (hartifacts : context.artifacts = canonicalizeEntries artifacts) {offset : ℕ} (hoffset : 0 < offset)
    (services : List ServiceName) :
    ∃ steps, deploySteps context offset services = .ok steps ∧ WellNumbered offset steps
      ∧ List.Forall₂ (Deploys artifacts) (services.map Subtype.val) steps := by
  induction services generalizing offset with
  | nil => exact ⟨[], rfl, wellNumbered_nil offset, .nil⟩
  | cons service rest ih =>
      obtain ⟨steps, hsteps, hnumbered, hdeploys⟩ := ih (Nat.succ_pos offset)
      obtain ⟨value, hresolved, hvalue⟩ := exists_resolved hartifacts service.val
      have hid : "step-" ++ zeroPad 3 offset ++ "-deploy-" ++ service.val ≠ "" :=
        Value.append_ne_empty_of_left (Value.append_ne_empty_of_right (by decide) _) _
      obtain ⟨step, hstep, hindex, hstepId, haction, htarget, hparameters, hmetadata⟩ :=
        DeploymentStep.exists_make (deployParameters context service.val)
          [("simulation", .bool true), ("deployment_type", .str "rolling")] hoffset hid
          (show "deploy_service" ≠ "" by decide) service.2.1
      have hnumber : step.Numbered := by
        refine ⟨"deploy-" ++ service.val, ?_⟩
        rw [hstepId, hindex, ← String.append_assoc]
        simp only [String.append_assoc]
        rfl
      have hwritable : step.Writable :=
        ⟨hparameters ▸ (writable_deployParameters h service.val).canonicalizeEntries, hmetadata ▸ rfl⟩
      refine ⟨step :: steps, ?_, hnumbered.cons hindex hnumber hwritable,
        .cons ⟨haction, htarget, value, hresolved, ?_⟩ hdeploys⟩
      · rw [deploySteps, hstep, hsteps]
        rfl
      · rw [hparameters, get?_canonicalizeEntries, ← hvalue]
        rfl

/-- **The steps of a context**: one that prepares, one for each service and one that verifies. -/
theorem buildSteps_spec (h : context.Writable)
    (hartifacts : context.artifacts = canonicalizeEntries artifacts) :
    ∃ prepare deploys verify, buildSteps context = .ok (prepare :: deploys ++ [verify])
      ∧ WellNumbered 1 (prepare :: deploys ++ [verify])
      ∧ prepare.action = "prepare_environment" ∧ verify.action = "verify_deployment"
      ∧ List.Forall₂ (Deploys artifacts) (context.services.map Subtype.val) deploys := by
  have henvironment : context.environment.val ≠ "" := fun heq =>
    context.environment.2 (by rw [heq]; decide)
  obtain ⟨deploys, hdeploys, hnumbered, hpaired⟩ :=
    deploySteps_spec h hartifacts (show 0 < 2 by decide) context.services
  obtain ⟨prepare, hprepare, hindex, hstepId, haction, _, hparameters, hmetadata⟩ :=
    DeploymentStep.exists_make (prepareParameters context) [("simulation", .bool true)]
      (show 0 < 1 by decide) (show "step-001-prepare-environment" ≠ "" by decide)
      (show "prepare_environment" ≠ "" by decide) henvironment
  have hid : "step-" ++ zeroPad 3 ((prepare :: deploys).length + 1) ++ "-verify-deployment" ≠ "" :=
    Value.append_ne_empty_of_left (Value.append_ne_empty_of_left (by decide) _) _
  obtain ⟨verify, hverify, hindex', hstepId', haction', _, hparameters', hmetadata'⟩ :=
    DeploymentStep.exists_make (verifyParameters context) [("simulation", .bool true)]
      (Nat.succ_pos (prepare :: deploys).length) hid (show "verify_deployment" ≠ "" by decide)
      henvironment
  have hfirst : prepare.Numbered := ⟨"prepare-environment", by rw [hstepId, hindex]; decide⟩
  have hlast : verify.Numbered := by
    refine ⟨"verify-deployment", ?_⟩
    rw [hstepId', hindex']
    simp only [String.append_assoc]
    rfl
  have hsteps : WellNumbered 1 (prepare :: deploys) := hnumbered.cons hindex hfirst
    ⟨hparameters ▸ (writable_prepareParameters h).canonicalizeEntries, hmetadata ▸ rfl⟩
  have hfinal : WellNumbered (1 + (prepare :: deploys).length) [verify] :=
    (wellNumbered_nil _).cons (hindex'.trans (Nat.add_comm _ 1)) hlast
      ⟨hparameters' ▸ writable_verifyParameters.canonicalizeEntries, hmetadata' ▸ rfl⟩
  refine ⟨prepare, deploys, verify, ?_, hsteps.append hfinal, haction, haction', hpaired⟩
  rw [buildSteps, hprepare, hdeploys]
  simp only [bind, Except.bind, hverify]
  rfl

end DeploymentOrchestrator

/-! ### The plan of a context -/

/-- What the plan says of services with these names, as they were given, and of their artifacts. -/
structure Planned (artifacts : Fields) (names : List String) (plan : DeploymentPlan) : Prop where
  length : plan.steps.length = names.length + 2
  indexes : plan.steps.map DeploymentStep.index = List.range' 1 (names.length + 2)
  stepIds : (plan.steps.map DeploymentStep.stepId).Nodup
  steps : ∃ prepare deploys verify, plan.steps = prepare :: deploys ++ [verify]
    ∧ prepare.action = "prepare_environment" ∧ verify.action = "verify_deployment"
    ∧ List.Forall₂ (Deploys artifacts) ((names.map strip).insertionSort (· ≤ ·)) deploys

theorem DeploymentPlan.isSome_toJson {plan : DeploymentPlan}
    (hsteps : ∀ step ∈ plan.steps, step.Writable) (hmetadata : Writable plan.metadata) :
    plan.toJson.isSome = true := by
  have hlist : (Value.list (plan.steps.map fun step => .dict step.toDict)).jsonRoundTrip.isSome
      = true := by
    rw [isSome_list]
    intro item hitem
    obtain ⟨step, hstep, rfl⟩ := List.mem_map.1 hitem
    exact isSome_dict.2 (hsteps step hstep).toDict
  rw [toJson, Option.isSome_map, Value.written, Option.isSome_map, isSome_dict]
  simp only [toDict, writable_cons, isSome_dict]
  exact ⟨rfl, rfl, hlist, hmetadata.canonicalizeEntries, writable_nil⟩

theorem WellNumbered.insertionSort_eq {offset : ℕ} {steps : List DeploymentStep}
    (h : WellNumbered offset steps) : steps.insertionSort (·.index ≤ ·.index) = steps := by
  apply List.Pairwise.insertionSort_eq
  have hpairwise : (steps.map DeploymentStep.index).Pairwise (· ≤ ·) :=
    h.indexes ▸ List.pairwise_le_range'
  exact List.pairwise_map.1 hpairwise

namespace DeploymentOrchestrator

theorem generatePlan_spec {context : DeploymentContext} {artifacts : Fields} {names : List String}
    (h : context.Writable) (hartifacts : context.artifacts = canonicalizeEntries artifacts)
    (hservices : context.services.map Subtype.val = (names.map strip).insertionSort (· ≤ ·)) :
    ∃ plan text, generatePlan context = .ok plan ∧ plan.toJson = some text
      ∧ Planned artifacts names plan := by
  obtain ⟨prepare, deploys, verify, hbuild, hnumbered, hprepare, hverify, hpaired⟩ :=
    buildSteps_spec h hartifacts
  have hne : ∀ text : Text, text.val ≠ "" := fun text heq => text.2 (by rw [heq]; decide)
  have hlength : (prepare :: deploys ++ [verify]).length = names.length + 2 := by
    have hdeploys := hpaired.length_eq
    rw [hservices, List.length_insertionSort, List.length_map] at hdeploys
    rw [List.length_append, List.length_cons, List.length_singleton, ← hdeploys]
  let plan : DeploymentPlan :=
    { executionId := context.executionId
      environment := context.environment
      steps := prepare :: deploys ++ [verify]
      metadata := canonicalizeEntries (planMetadata context)
      steps_ne := List.cons_ne_nil _ _ }
  have hplan : generatePlan context = .ok plan := by
    rw [generatePlan, hbuild]
    simp only [bind, Except.bind, DeploymentPlan.make, if_neg (hne context.executionId),
      if_neg (hne context.environment), hnumbered.insertionSort_eq]
    rfl
  have hjson : plan.toJson.isSome = true :=
    plan.isSome_toJson hnumbered.writable (writable_planMetadata h).canonicalizeEntries
  obtain ⟨text, htext⟩ := Option.isSome_iff_exists.1 hjson
  have hindexes : plan.steps.map DeploymentStep.index = List.range' 1 (names.length + 2) :=
    hlength ▸ hnumbered.indexes
  exact ⟨plan, text, hplan, htext, hlength, hindexes,
    nodup_stepId hnumbered.numbered (hindexes ▸ List.nodup_range'), prepare, deploys, verify, rfl,
    hprepare, hverify, hservices ▸ hpaired⟩

end DeploymentOrchestrator

/-! ### From the arguments to the text -/

/-- The arguments are JSON values. -/
structure Arguments.Native (arguments : Arguments) : Prop where
  artifacts : arguments.artifacts.jsonRoundTrip = some arguments.artifacts
  services : arguments.services.jsonRoundTrip = some arguments.services
  config : arguments.config.jsonRoundTrip = some arguments.config
  metadata : arguments.metadata.jsonRoundTrip = some arguments.metadata

theorem exists_texts {items : List Value} {names : List ServiceName}
    (h : normalizeServices items = .ok names) :
    ∃ texts : List String, items = texts.map .str ∧ names.map Subtype.val = texts.map strip := by
  have hpaired := normalizeAll_eq_ok_iff.1 (normalizeServices_eq_ok_iff.1 h).1
  clear h
  induction hpaired with
  | nil => exact ⟨[], rfl, rfl⟩
  | cons hname _ ih =>
      obtain ⟨text, rfl, hstrip⟩ := normalizeService_eq_ok_iff.1 hname
      obtain ⟨texts, rfl, hnames⟩ := ih
      exact ⟨text :: texts, rfl, by rw [List.map_cons, List.map_cons, hstrip, hnames]⟩

theorem writable_of_native {fields canonical : Fields} {value : Value}
    (hnative : value.jsonRoundTrip = some value) (hvalue : value = .dict fields)
    (h : canonical = canonicalizeEntries fields) : Writable canonical := by
  subst hvalue
  rw [h]
  exact (isSome_dict.1 (Option.isSome_iff_exists.2 ⟨_, hnative⟩)).canonicalizeEntries

open DeploymentOrchestrator (generatePlan)

/-- **The plan of a context that was made from JSON values**: its steps are those of the sorted services,
and its text is the same for every order of the services and of the entries of dictionaries. -/
theorem generatePlan_of_make {arguments : Arguments} {context : DeploymentContext}
    (hnative : arguments.Native) (hmake : DeploymentContext.make arguments = .ok context) :
    ∃ names artifacts plan text, arguments.services = .list (names.map .str)
      ∧ arguments.artifacts = .dict artifacts ∧ generatePlan context = .ok plan
      ∧ plan.toJson = some text ∧ Planned artifacts names plan
      ∧ ∀ other, arguments.Reordered other → ∃ context' plan',
        DeploymentContext.make other = .ok context' ∧ generatePlan context' = .ok plan'
          ∧ plan'.toJson = some text := by
  obtain ⟨artifacts, config, metadata, items, names, hmade⟩ := DeploymentContext.madeOf_of_make hmake
  obtain ⟨texts, rfl, hnames⟩ := exists_texts hmade.names_ok
  have hwritable : context.Writable :=
    ⟨writable_of_native hnative.artifacts hmade.artifacts_dict hmade.artifacts_eq,
      writable_of_native hnative.config hmade.config_dict hmade.config_eq,
      writable_of_native hnative.metadata hmade.metadata_dict hmade.metadata_eq⟩
  have hservices : context.services.map Subtype.val = (texts.map strip).insertionSort (· ≤ ·) := by
    rw [hmade.services_eq, ← hnames]
    exact List.map_insertionSort (· ≤ ·) (· ≤ ·) Subtype.val names fun _ _ _ _ => Iff.rfl
  obtain ⟨plan, text, hplan, htext, hplanned⟩ :=
    DeploymentOrchestrator.generatePlan_spec hwritable hmade.artifacts_eq hservices
  refine ⟨texts, artifacts, plan, text, hmade.services_list, hmade.artifacts_dict, hplan, htext,
    hplanned, fun other hother => ?_⟩
  exact ⟨context, plan, DeploymentContext.make_of_reordered hother hmake, hplan, htext⟩

/-- Two services, of which the second falls back on the default artifact. -/
def stagingArguments : Arguments where
  executionId := .str "exec-001"
  environment := .str "staging"
  artifacts := .dict [("default", .str "build-004.tar.gz"), ("api", .dict [("tag", .str "1.0.0"),
    ("image", .str "api")])]
  services := .list [.str " worker", .str "api"]
  config := .dict [("worker", .dict [("replicas", .int 1)])]
  metadata := .dict [("trigger", .str "manual")]

theorem strip_local : strip "local" ≠ "" := by decide

def stagingContext : DeploymentContext where
  executionId := ⟨"exec-001", by decide⟩
  environment := ⟨"staging", by decide⟩
  artifacts := [("api", .dict [("image", .str "api"), ("tag", .str "1.0.0")]),
    ("default", .str "build-004.tar.gz")]
  services := [⟨"api", by decide⟩, ⟨"worker", by decide⟩]
  config := [("worker", .dict [("replicas", .int 1)])]
  metadata := [("trigger", .str "manual")]
  region := ⟨"local", strip_local⟩
  providerType := ⟨"local", strip_local⟩
  credentialsRef := ""

theorem make_stagingArguments : DeploymentContext.make stagingArguments = .ok stagingContext := rfl

theorem generatePlan_of_make_staging : ∃ names artifacts plan text,
    stagingArguments.services = .list (names.map .str) ∧ stagingArguments.artifacts = .dict artifacts
      ∧ generatePlan stagingContext = .ok plan ∧ plan.toJson = some text
      ∧ Planned artifacts names plan
      ∧ ∀ other, stagingArguments.Reordered other → ∃ context' plan',
        DeploymentContext.make other = .ok context' ∧ generatePlan context' = .ok plan'
          ∧ plan'.toJson = some text :=
  generatePlan_of_make ⟨rfl, rfl, rfl, rfl⟩ make_stagingArguments

end PersonalDevin.Deployment.Core
