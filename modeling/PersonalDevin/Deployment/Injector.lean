import PersonalDevin.Deployment.Context
import PersonalDevin.Lib.Dict

/-!
# The context injector

`build_deployment_context`. It makes a provisional context, takes the fingerprint of it, and stores the
fingerprint in the metadata of the context that it returns. The environment and the configuration are
values; a dataclass instance is the dictionary of its fields.
-/

namespace PersonalDevin.Deployment

open Lib

def normalizeMapping (name : String) : Value → Except ContextError Fields
  | .dict entries => .ok entries
  | _ => .error (.typeError (name ++ " must be a dict or dataclass instance"))

/-- `d[key] = value`. -/
def setEntry (key : String) (value : Value) (entries : Fields) : Fields := upsert key value entries

/-- `a or b` of two values, where a missing entry is `None`. -/
def orElse (first second : Option Value) : Value :=
  if (first.getD .none).truthy then first.getD .none else second.getD .none

def requireResolved (name : String) (value : Value) : Except ContextError Unit :=
  if isText (some value) then .ok ()
  else .error (.valueError ("resolved_env must include a non-empty " ++ name))

def normalizeEnvironment (resolvedEnv : Fields) : Except ContextError Fields := do
  let name := orElse (resolvedEnv.get? "name") (resolvedEnv.get? "environment")
  let region := (resolvedEnv.get? "region").getD .none
  let providerType := (resolvedEnv.get? "provider_type").getD .none
  let credentialsRef := (resolvedEnv.get? "credentials_ref").getD (.str "")
  requireResolved "name" name
  requireResolved "region" region
  requireResolved "provider_type" providerType
  match credentialsRef with
  | .str _ =>
      return [("name", name), ("region", region), ("provider_type", providerType),
        ("credentials_ref", credentialsRef)]
  | _ => throw (.typeError "resolved_env credentials_ref must be a string")

/-- `value or {}`, which has to be a dictionary. -/
def configSection (name : String) (value : Option Value) : Except ContextError Fields :=
  match orElse value (some (.dict [])) with
  | .dict entries => .ok entries
  | _ => .error (.typeError ("config " ++ name ++ " must be a dictionary"))

/-- The variables and the metadata of a configuration. One without either is all variables. -/
def normalizeConfig (config : Fields) : Except ContextError (Fields × Fields) := do
  match (config.get? "variables").getD .none, (config.get? "metadata").getD .none with
  | .none, .none => return (config, [])
  | vars, metadata =>
      let vars ← configSection "variables" (some vars)
      let metadata ← configSection "metadata" (some metadata)
      return (vars, metadata)

/-- `str(metadata.get("execution_id") or default)`. -/
def executionId (metadata : Fields) (default : String) : Value :=
  .str (orElse (metadata.get? "execution_id") (some (.str default))).pyStr

def provisionalMetadata (metadata : Fields) : Fields :=
  setEntry "execution_id" (executionId metadata "provisional") metadata

def finalMetadata (metadata : Fields) (fingerprint : String) : Fields :=
  let stored := setEntry "context_fingerprint" (.str fingerprint) metadata
  setEntry "execution_id" (executionId stored fingerprint) stored

def buildDeploymentContext (digest : Value → String) (resolvedEnv config : Value) :
    Except ContextError DeploymentContext := do
  let environment ← normalizeMapping "resolved_env" resolvedEnv
  let environment ← normalizeEnvironment environment
  let config ← normalizeMapping "config" config
  let (vars, metadata) ← normalizeConfig config
  let provisional ← DeploymentContext.make (.dict environment) (.dict vars)
    (.dict (provisionalMetadata metadata))
  match provisional.contextFingerprint digest with
  | none => throw (.typeError "Object is not JSON serializable")
  | some fingerprint =>
      DeploymentContext.make (.dict environment) (.dict vars)
        (.dict (finalMetadata metadata fingerprint))

/-! ### Entries that are set -/

theorem get?_setEntry (key key' : String) (value : Value) (entries : Fields) :
    Fields.get? (setEntry key value entries) key'
      = if key' = key then some value else Fields.get? entries key' :=
  lookup_upsert key value key' entries

/-- Setting a key that a test stops does not show behind the test. -/
theorem filter_setEntry {p : String → Bool} {key : String} (hkey : p key = false) (value : Value)
    (entries : Fields) : (setEntry key value entries).filter (p ·.1) = entries.filter (p ·.1) := by
  unfold setEntry
  induction entries with
  | nil => simp [upsert, hkey]
  | cons entry rest ih =>
      obtain ⟨first, old⟩ := entry
      rw [upsert]
      split
      · rename_i hfirst
        simp [hkey, hfirst]
      · rw [List.filter_cons, List.filter_cons, ih]

theorem mem_setEntry {key : String} {value : Value} {entries : Fields} {entry : String × Value}
    (h : entry ∈ setEntry key value entries) : entry = (key, value) ∨ entry ∈ entries := by
  unfold setEntry at h
  induction entries with
  | nil => exact .inl (List.mem_singleton.1 h)
  | cons first rest ih =>
      rw [upsert] at h
      split at h
      · rcases List.mem_cons.1 h with h | h
        · exact .inl h
        · exact .inr (List.mem_cons_of_mem _ h)
      · rcases List.mem_cons.1 h with h | h
        · exact .inr (h ▸ List.mem_cons_self)
        · exact (ih h).imp_right (List.mem_cons_of_mem _)

/-! ### What is built -/

/-- The sections that a fingerprint is made from, of entries that are not frozen yet. -/
def canonicalSections (environment vars metadata : Fields) : Value :=
  .dict
    [("environment", thaw (.dict (freezeEntries environment))),
     ("variables", thaw (.dict (freezeEntries vars))),
     ("metadata", .dict (thawEntries (freezeEntries (metadata.filter (isFingerprinted ·.1)))))]

theorem fingerprintPayload_eq {context : DeploymentContext} {environment vars metadata : Fields}
    (henvironment : context.environment = .ofEntries environment)
    (hvars : context.vars = .ofEntries vars) (hmetadata : context.metadata = .ofEntries metadata) :
    context.fingerprintPayload = canonicalSections environment vars metadata := by
  rw [DeploymentContext.fingerprintPayload, FrozenDict.ofEntries_data, FrozenDict.ofEntries_data,
    henvironment, hvars, hmetadata, canonicalSections, ← filter_freezeEntries]
  rfl

/-- The two keys that the injector sets do not show in the sections. -/
theorem canonicalSections_finalMetadata (environment vars metadata : Fields) (fingerprint : String) :
    canonicalSections environment vars (finalMetadata metadata fingerprint)
      = canonicalSections environment vars metadata := by
  rw [canonicalSections, finalMetadata, filter_setEntry (by decide), filter_setEntry (by decide)]
  rfl

theorem canonicalSections_provisionalMetadata (environment vars metadata : Fields) :
    canonicalSections environment vars (provisionalMetadata metadata)
      = canonicalSections environment vars metadata := by
  rw [canonicalSections, provisionalMetadata, filter_setEntry (by decide)]
  rfl

/-- The context is made of the sections, with their fingerprint stored. -/
structure Built (digest : Value → String) (environment vars metadata : Fields)
    (context : DeploymentContext) (fingerprint : String) : Prop where
  provisional_text : isText (some (executionId metadata "provisional")) = true
  final_text : isText (some (executionId metadata fingerprint)) = true
  fingerprint_eq : (fingerprintPayloadToJson (canonicalSections environment vars metadata)).map digest
    = some fingerprint
  environment_eq : context.environment = .ofEntries environment
  vars_eq : context.vars = .ofEntries vars
  metadata_eq : context.metadata = .ofEntries (finalMetadata metadata fingerprint)

theorem get?_provisionalMetadata (metadata : Fields) :
    (provisionalMetadata metadata).get? "execution_id"
      = some (executionId metadata "provisional") := by
  rw [provisionalMetadata, get?_setEntry, if_pos rfl]

theorem get?_finalMetadata (metadata : Fields) (fingerprint : String) :
    (finalMetadata metadata fingerprint).get? "execution_id"
      = some (executionId metadata fingerprint) := by
  rw [finalMetadata, get?_setEntry, if_pos rfl, executionId, get?_setEntry, if_neg (by decide)]
  rfl

theorem build_eq_ok {digest : Value → String} {resolvedEnv config : Value}
    {context : DeploymentContext}
    (h : buildDeploymentContext digest resolvedEnv config = .ok context) :
    ∃ resolved entries environment vars metadata fingerprint, resolvedEnv = .dict resolved
      ∧ config = .dict entries ∧ normalizeEnvironment resolved = .ok environment
      ∧ normalizeConfig entries = .ok (vars, metadata)
      ∧ Built digest environment vars metadata context fingerprint := by
  have hdict : ∀ {name value fields}, normalizeMapping name value = .ok fields →
      value = .dict fields := by
    intro name value fields hfields
    cases value with
    | dict entries => rw [Except.ok.inj hfields]
    | _ => cases hfields
  obtain ⟨resolved, hresolved, h⟩ := except_bind_eq_ok_iff.1 h
  obtain ⟨environment, henvironment, h⟩ := except_bind_eq_ok_iff.1 h
  obtain ⟨entries, hentries, h⟩ := except_bind_eq_ok_iff.1 h
  obtain ⟨⟨vars, metadata⟩, hconfig, h⟩ := except_bind_eq_ok_iff.1 h
  obtain ⟨provisional, hprovisional, h⟩ := except_bind_eq_ok_iff.1 h
  split at h
  · cases h
  · rename_i fingerprint hfingerprint
    have hprovisionalText := ((DeploymentContext.exists_make_iff _).1 ⟨_, hprovisional⟩).2.2.2
    have hfinalText := ((DeploymentContext.exists_make_iff _).1 ⟨_, h⟩).2.2.2
    rw [get?_provisionalMetadata] at hprovisionalText
    rw [get?_finalMetadata] at hfinalText
    obtain ⟨_, _, _, henv, hvar, hmd, henv', hvar', hmd'⟩ := DeploymentContext.make_eq_ok hprovisional
    obtain rfl := Value.dict.inj henv
    obtain rfl := Value.dict.inj hvar
    obtain rfl := Value.dict.inj hmd
    rw [DeploymentContext.contextFingerprint, fingerprintPayload_eq henv' hvar' hmd',
      canonicalSections_provisionalMetadata] at hfingerprint
    obtain ⟨_, _, _, henv, hvar, hmd, henv', hvar', hmd'⟩ := DeploymentContext.make_eq_ok h
    obtain rfl := Value.dict.inj henv
    obtain rfl := Value.dict.inj hvar
    obtain rfl := Value.dict.inj hmd
    exact ⟨resolved, entries, environment, vars, metadata, fingerprint, hdict hresolved,
      hdict hentries, henvironment, hconfig, hprovisionalText, hfinalText, hfingerprint, henv', hvar',
      hmd'⟩

theorem requireResolved_eq_ok_iff {name : String} {value : Value} {done : Unit} :
    requireResolved name value = .ok done ↔ isText (some value) = true := by
  rw [requireResolved]
  split
  · exact iff_of_true rfl ‹_›
  · exact iff_of_false (fun heq => nomatch heq) ‹_›

/-- What the injector takes from an environment. -/
def environmentEntries (resolved : Fields) : Fields :=
  [("name", orElse (resolved.get? "name") (resolved.get? "environment")),
    ("region", (resolved.get? "region").getD .none),
    ("provider_type", (resolved.get? "provider_type").getD .none),
    ("credentials_ref", (resolved.get? "credentials_ref").getD (.str ""))]

theorem normalizeEnvironment_eq_ok_iff {resolved environment : Fields} :
    normalizeEnvironment resolved = .ok environment
      ↔ (isText ((environmentEntries resolved).get? "name") = true
          ∧ isText ((environmentEntries resolved).get? "region") = true
          ∧ isText ((environmentEntries resolved).get? "provider_type") = true
          ∧ ∃ text, (environmentEntries resolved).get? "credentials_ref" = some (.str text))
        ∧ environment = environmentEntries resolved := by
  simp only [normalizeEnvironment, except_bind_eq_ok_iff, requireResolved_eq_ok_iff, exists_const,
    and_assoc]
  refine and_congr_right fun _ => and_congr_right fun _ => and_congr_right fun _ => ?_
  show _ ↔ (∃ text, some ((resolved.get? "credentials_ref").getD (.str "")) = some (.str text)) ∧ _
  rw [environmentEntries]
  rcases hcredentials : (resolved.get? "credentials_ref").getD (.str "") with _ | _ | _ | _ | text
  case str => simp [pure, Except.pure, eq_comm]
  all_goals simp [throw, throwThe, MonadExceptOf.throw]

/-- The injector succeeds on a readable environment and configuration with an execution id. -/
theorem exists_build {digest : Value → String}
    {resolved entries environment vars metadata : Fields} {fingerprint : String}
    (henvironment : normalizeEnvironment resolved = .ok environment)
    (hconfig : normalizeConfig entries = .ok (vars, metadata))
    (hfingerprint : (fingerprintPayloadToJson (canonicalSections environment vars metadata)).map digest
      = some fingerprint)
    (hprovisional : isText (some (executionId metadata "provisional")) = true)
    (hfinal : isText (some (executionId metadata fingerprint)) = true) :
    ∃ context, buildDeploymentContext digest (.dict resolved) (.dict entries) = .ok context := by
  obtain ⟨⟨hname, hregion, hprovider, _⟩, rfl⟩ := normalizeEnvironment_eq_ok_iff.1 henvironment
  obtain ⟨provisional, hmade⟩ := (DeploymentContext.exists_make_iff vars).2
    ⟨hname, hregion, hprovider, (get?_provisionalMetadata metadata).symm ▸ hprovisional⟩
  obtain ⟨context, hcontext⟩ := (DeploymentContext.exists_make_iff vars).2
    ⟨hname, hregion, hprovider, (get?_finalMetadata metadata fingerprint).symm ▸ hfinal⟩
  obtain ⟨_, _, _, henv, hvar, hmd, henv', hvar', hmd'⟩ := DeploymentContext.make_eq_ok hmade
  obtain rfl := Value.dict.inj henv
  obtain rfl := Value.dict.inj hvar
  obtain rfl := Value.dict.inj hmd
  have hstored : provisional.contextFingerprint digest = some fingerprint := by
    rw [DeploymentContext.contextFingerprint, fingerprintPayload_eq henv' hvar' hmd',
      canonicalSections_provisionalMetadata]
    exact hfingerprint
  refine ⟨context, ?_⟩
  simp only [buildDeploymentContext, normalizeMapping, henvironment, hconfig, hmade, hstored, hcontext,
    bind, Except.bind]

namespace Built

variable {digest : Value → String} {environment vars metadata : Fields}
  {context : DeploymentContext} {fingerprint : String}

theorem contextFingerprint (h : Built digest environment vars metadata context fingerprint) :
    context.contextFingerprint digest = some fingerprint := by
  rw [DeploymentContext.contextFingerprint,
    fingerprintPayload_eq h.environment_eq h.vars_eq h.metadata_eq, canonicalSections_finalMetadata]
  exact h.fingerprint_eq

theorem stored (h : Built digest environment vars metadata context fingerprint) :
    context.metadata.get? "context_fingerprint" = some (.str fingerprint) := by
  rw [h.metadata_eq, FrozenDict.get?, FrozenDict.ofEntries, get?_freezeEntries, finalMetadata,
    get?_setEntry, get?_setEntry]
  rfl

theorem fingerprint_eq_some (h : Built digest environment vars metadata context fingerprint) :
    context.fingerprint digest = some fingerprint := by
  have hhonest : context.HonestlyStored digest := by
    intro stored hstored _
    rw [h.stored, Option.some.injEq, Value.str.injEq] at hstored
    exact hstored ▸ h.contextFingerprint
  rw [DeploymentContext.fingerprint_eq_iff_honestlyStored.2 hhonest, h.contextFingerprint]

end Built

/-! ### What the sections depend on

Two dictionaries with one frozen form differ in the order of entries and in lists that are tuples, at
any depth. What the injector reads of the one it reads of the other. -/

theorem truthy_freeze (value : Value) : (freeze value).truthy = value.truthy := by
  cases value with
  | list items =>
      rw [freeze, freezeItems_eq_map]
      cases items <;> rfl
  | tuple items =>
      rw [freeze, freezeItems_eq_map]
      cases items <;> rfl
  | dict entries =>
      have hlength := (freezeEntries_perm entries).length_eq
      rw [List.length_map] at hlength
      have hempty : (freezeEntries entries).isEmpty = entries.isEmpty := by
        rw [Bool.eq_iff_iff, List.isEmpty_iff_length_eq_zero, List.isEmpty_iff_length_eq_zero, hlength]
      rw [freeze, Value.truthy, hempty, Value.truthy]
  | _ => rfl

theorem getD_map_freeze (value : Option Value) (default : Value) :
    (value.map freeze).getD (freeze default) = freeze (value.getD default) := by
  cases value <;> rfl

theorem freeze_orElse (first second : Option Value) :
    freeze (orElse first second) = orElse (first.map freeze) (second.map freeze) := by
  have hgetD : ∀ value : Option Value, (value.map freeze).getD .none = freeze (value.getD .none) :=
    fun value => getD_map_freeze value .none
  rw [orElse, orElse, hgetD, hgetD, truthy_freeze]
  split
  · rfl
  · rfl

theorem dict_of_freeze {value : Value} {entries : Fields}
    (h : freeze (.dict entries) = freeze value) :
    ∃ entries', value = .dict entries' ∧ freezeEntries entries = freezeEntries entries' := by
  cases value with
  | dict entries' => exact ⟨entries', rfl, Value.dict.inj h⟩
  | _ => cases h

theorem str_of_freeze {value : Value} {text : String} (h : freeze (.str text) = freeze value) :
    value = .str text := by
  cases value <;> first | exact h.symm | cases h

theorem configSection_eq_ok_iff {name : String} {value : Option Value} {entries : Fields} :
    configSection name value = .ok entries ↔ orElse value (some (.dict [])) = .dict entries := by
  rw [configSection]
  split
  · rename_i fields hfields
    rw [hfields, Except.ok.injEq, Value.dict.injEq]
  · rename_i hnot
    exact iff_of_false (fun heq => nomatch heq) (hnot entries)

/-- A section of a configuration is frozen with the configuration. -/
theorem configSection_of_freeze {name : String} {value value' : Option Value} {entries : Fields}
    (hsame : value.map freeze = value'.map freeze) (h : configSection name value = .ok entries) :
    ∃ entries', configSection name value' = .ok entries'
      ∧ freezeEntries entries = freezeEntries entries' := by
  have hfrozen := freeze_orElse value (some (.dict []))
  rw [hsame, ← freeze_orElse, configSection_eq_ok_iff.1 h] at hfrozen
  obtain ⟨entries', hentries', heq⟩ := dict_of_freeze hfrozen
  exact ⟨entries', configSection_eq_ok_iff.2 hentries', heq⟩

theorem normalizeConfig_eq_ok_iff {config vars metadata : Fields} :
    normalizeConfig config = .ok (vars, metadata)
      ↔ ((config.get? "variables").getD .none = .none ∧ (config.get? "metadata").getD .none = .none
          ∧ vars = config ∧ metadata = [])
        ∨ (¬ ((config.get? "variables").getD .none = .none
              ∧ (config.get? "metadata").getD .none = .none)
          ∧ configSection "variables" (some ((config.get? "variables").getD .none)) = .ok vars
          ∧ configSection "metadata" (some ((config.get? "metadata").getD .none))
            = .ok metadata) := by
  unfold normalizeConfig
  split
  · rename_i hvars hmetadata
    simp [hvars, hmetadata, pure, Except.pure, eq_comm]
  · rename_i hnot
    have hexplicit : ¬ ((config.get? "variables").getD .none = .none
        ∧ (config.get? "metadata").getD .none = .none) := fun hnone => hnot hnone.1 hnone.2
    simp only [except_bind_eq_ok_iff, pure, Except.pure, Except.ok.injEq, Prod.mk.injEq]
    constructor
    · rintro ⟨_, hvars, _, hmetadata, rfl, rfl⟩
      exact .inr ⟨hexplicit, hvars, hmetadata⟩
    · rintro (⟨hvars, hmetadata, _⟩ | ⟨_, hvars, hmetadata⟩)
      · exact absurd ⟨hvars, hmetadata⟩ hexplicit
      · exact ⟨vars, hvars, metadata, hmetadata, rfl, rfl⟩

theorem freeze_eq_none_iff {value : Value} : freeze value = .none ↔ value = .none := by
  cases value <;> simp [freeze]

/-- What is read of a configuration is read of every one with its frozen form. -/
theorem normalizeConfig_of_freeze {config config' vars metadata : Fields}
    (hsame : freezeEntries config = freezeEntries config')
    (h : normalizeConfig config = .ok (vars, metadata)) :
    ∃ vars' metadata', normalizeConfig config' = .ok (vars', metadata')
      ∧ freezeEntries vars = freezeEntries vars'
      ∧ freezeEntries metadata = freezeEntries metadata' := by
  have hexplicit : ∀ key, freeze ((config.get? key).getD .none)
      = freeze ((config'.get? key).getD .none) := by
    intro key
    rw [← getD_map_freeze, ← getD_map_freeze, ← get?_freezeEntries, ← get?_freezeEntries, hsame]
  have hnone : ∀ key, (config.get? key).getD .none = .none ↔ (config'.get? key).getD .none = .none := by
    intro key
    rw [← freeze_eq_none_iff, hexplicit key, freeze_eq_none_iff]
  have hsection : ∀ key, (some ((config.get? key).getD .none)).map freeze
      = (some ((config'.get? key).getD .none)).map freeze := fun key => congrArg some (hexplicit key)
  rcases normalizeConfig_eq_ok_iff.1 h with ⟨hvars, hmetadata, rfl, rfl⟩ | ⟨hnot, hvars, hmetadata⟩
  · exact ⟨config', [], normalizeConfig_eq_ok_iff.2
      (.inl ⟨(hnone _).1 hvars, (hnone _).1 hmetadata, rfl, rfl⟩), hsame, rfl⟩
  · obtain ⟨vars', hvars', hsameVars⟩ := configSection_of_freeze (hsection _) hvars
    obtain ⟨metadata', hmetadata', hsameMetadata⟩ := configSection_of_freeze (hsection _) hmetadata
    refine ⟨vars', metadata', normalizeConfig_eq_ok_iff.2 (.inr ⟨?_, hvars', hmetadata'⟩),
      hsameVars, hsameMetadata⟩
    exact fun hnone' => hnot ⟨(hnone _).2 hnone'.1, (hnone _).2 hnone'.2⟩

theorem freezeEntries_environmentEntries {resolved resolved' : Fields}
    (hsame : freezeEntries resolved = freezeEntries resolved') :
    freezeEntries (environmentEntries resolved) = freezeEntries (environmentEntries resolved') := by
  have hget : ∀ key, (resolved.get? key).map freeze = (resolved'.get? key).map freeze := by
    intro key
    rw [← get?_freezeEntries, ← get?_freezeEntries, hsame]
  have hgetD : ∀ key default, freeze ((resolved.get? key).getD default)
      = freeze ((resolved'.get? key).getD default) := by
    intro key default
    rw [← getD_map_freeze, hget, getD_map_freeze]
  have hname : freeze (orElse (resolved.get? "name") (resolved.get? "environment"))
      = freeze (orElse (resolved'.get? "name") (resolved'.get? "environment")) := by
    rw [freeze_orElse, hget, hget, freeze_orElse]
  simp only [environmentEntries, freezeEntries, hname, hgetD]

/-- An environment is accepted with every one that has its frozen form. -/
theorem normalizeEnvironment_of_freeze {resolved resolved' environment : Fields}
    (hsame : freezeEntries resolved = freezeEntries resolved')
    (h : normalizeEnvironment resolved = .ok environment) :
    ∃ environment', normalizeEnvironment resolved' = .ok environment'
      ∧ freezeEntries environment = freezeEntries environment' := by
  obtain ⟨⟨hname, hregion, hprovider, text, hcredentials⟩, rfl⟩ := normalizeEnvironment_eq_ok_iff.1 h
  have hfrozen := freezeEntries_environmentEntries hsame
  have hget : ∀ key, ((environmentEntries resolved).get? key).map freeze
      = ((environmentEntries resolved').get? key).map freeze := by
    intro key
    rw [← get?_freezeEntries, ← get?_freezeEntries, hfrozen]
  have htext : ∀ key, isText ((environmentEntries resolved').get? key)
      = isText ((environmentEntries resolved).get? key) := by
    intro key
    rw [← isText_map_freeze, ← hget, isText_map_freeze]
  refine ⟨_, normalizeEnvironment_eq_ok_iff.2 ⟨⟨(htext _).trans hname, (htext _).trans hregion,
    (htext _).trans hprovider, text, ?_⟩, rfl⟩, hfrozen⟩
  have hsame := hget "credentials_ref"
  rw [hcredentials] at hsame
  obtain ⟨value, hvalue, hfreeze⟩ := Option.map_eq_some_iff.1 hsame.symm
  rw [hvalue, str_of_freeze hfreeze.symm]

theorem isScalar_freeze (value : Value) : isScalar (freeze value) = isScalar value := by
  cases value <;> rfl

/-- A container is never printed as a blank text. -/
theorem isText_pyStr_of_container {value : Value} (h : isScalar value = false) :
    isText (some (.str value.pyStr)) = true := by
  have hblank : ∀ (c : Char) (text : String), isSpace c = false → text.toList.head? = some c →
      isText (some (.str text)) = true := fun c text hc hhead =>
    decide_eq_true (strip_ne_empty (List.mem_of_head? hhead) hc)
  cases value with
  | list items => exact hblank '[' _ rfl (by simp [Value.pyStr, Value.pyRepr])
  | tuple items =>
      rcases items with _ | ⟨first, _ | ⟨second, rest⟩⟩ <;>
        exact hblank '(' _ rfl (by simp [Value.pyStr, Value.pyRepr])
  | dict entries => exact hblank (Char.ofNat 123) _ rfl (by simp [Value.pyStr, Value.pyRepr])
  | _ => cases h

/-- A value is printed as a blank text with every value that has its frozen form. -/
theorem isText_pyStr_of_freeze {value value' : Value} (hsame : freeze value = freeze value') :
    isText (some (.str value'.pyStr)) = isText (some (.str value.pyStr)) := by
  have hscalar : isScalar value = isScalar value' := by
    rw [← isScalar_freeze, hsame, isScalar_freeze]
  rcases h : isScalar value with _ | _
  · rw [isText_pyStr_of_container h, isText_pyStr_of_container (hscalar.symm.trans h)]
  · rw [freeze_of_scalar h, freeze_of_scalar (hscalar.symm.trans h)] at hsame
    rw [hsame]

theorem isText_executionId_of_freeze {metadata metadata' : Fields}
    (hsame : freezeEntries metadata = freezeEntries metadata') (default : String) :
    isText (some (executionId metadata' default)) = isText (some (executionId metadata default)) := by
  refine isText_pyStr_of_freeze ?_
  rw [freeze_orElse, freeze_orElse, ← get?_freezeEntries, ← get?_freezeEntries, hsame]

theorem canonicalSections_congr {environment environment' vars vars' metadata metadata' : Fields}
    (henvironment : freezeEntries environment = freezeEntries environment')
    (hvars : freezeEntries vars = freezeEntries vars')
    (hmetadata : freezeEntries (metadata.filter (isFingerprinted ·.1))
      = freezeEntries (metadata'.filter (isFingerprinted ·.1))) :
    canonicalSections environment vars metadata = canonicalSections environment' vars' metadata' := by
  rw [canonicalSections, canonicalSections, henvironment, hvars, hmetadata]

/-! ### Writing the context -/

theorem json_of_get? {fields : Fields} (hjson : (Value.dict fields).jsonRoundTrip.isSome) {key : String}
    {value : Value} (hvalue : fields.get? key = some value) : value.jsonRoundTrip.isSome := by
  rw [Value.jsonRoundTrip, Option.isSome_map, Value.isSome_jsonEntries] at hjson
  obtain ⟨before, after, rfl, _⟩ := List.lookup_eq_some_iff.1 hvalue
  exact hjson (key, value) (by simp)

theorem json_setEntry {key : String} {value : Value} {entries : Fields}
    (hvalue : value.jsonRoundTrip.isSome) (h : (Value.dict entries).jsonRoundTrip.isSome) :
    (Value.dict (setEntry key value entries)).jsonRoundTrip.isSome := by
  rw [Value.jsonRoundTrip, Option.isSome_map, Value.isSome_jsonEntries] at h ⊢
  intro entry hentry
  rcases mem_setEntry hentry with rfl | hentry
  · exact hvalue
  · exact h entry hentry

theorem json_configSection {name : String} {value : Value} {entries : Fields}
    (hjson : value.jsonRoundTrip.isSome) (h : configSection name (some value) = .ok entries) :
    (Value.dict entries).jsonRoundTrip.isSome := by
  rw [configSection] at h
  split at h
  · rename_i fields hfields
    obtain rfl := Except.ok.inj h
    rw [orElse] at hfields
    split at hfields
    · rw [← hfields]
      exact hjson
    · rw [← hfields]
      rfl
  · cases h

/-- The sections of a configuration of JSON values. -/
theorem json_normalizeConfig {config vars metadata : Fields}
    (hjson : (Value.dict config).jsonRoundTrip.isSome)
    (h : normalizeConfig config = .ok (vars, metadata)) :
    (Value.dict vars).jsonRoundTrip.isSome ∧ (Value.dict metadata).jsonRoundTrip.isSome := by
  have hexplicit : ∀ key, ((config.get? key).getD .none).jsonRoundTrip.isSome := by
    intro key
    rcases hvalue : config.get? key with _ | value
    · rfl
    · exact json_of_get? hjson hvalue
  rcases normalizeConfig_eq_ok_iff.1 h with ⟨_, _, rfl, rfl⟩ | ⟨_, hvars, hmetadata⟩
  · exact ⟨hjson, rfl⟩
  · exact ⟨json_configSection (hexplicit _) hvars, json_configSection (hexplicit _) hmetadata⟩

theorem json_normalizeEnvironment {resolved environment : Fields}
    (hjson : (Value.dict resolved).jsonRoundTrip.isSome)
    (h : normalizeEnvironment resolved = .ok environment) :
    (Value.dict environment).jsonRoundTrip.isSome := by
  have hgetD : ∀ key default, Value.jsonRoundTrip default |>.isSome →
      ((resolved.get? key).getD default).jsonRoundTrip.isSome := by
    intro key default hdefault
    rcases hvalue : resolved.get? key with _ | value
    · exact hdefault
    · exact json_of_get? hjson hvalue
  have hname : (orElse (resolved.get? "name") (resolved.get? "environment")).jsonRoundTrip.isSome := by
    rw [orElse]
    split
    · exact hgetD _ _ rfl
    · exact hgetD _ _ rfl
  rw [(normalizeEnvironment_eq_ok_iff.1 h).2, environmentEntries, Value.jsonRoundTrip,
    Option.isSome_map, Value.isSome_jsonEntries]
  simp only [List.forall_mem_cons]
  exact ⟨hname, hgetD _ _ rfl, hgetD _ _ rfl, hgetD _ _ rfl, fun _ h => absurd h List.not_mem_nil⟩

theorem json_finalMetadata {metadata : Fields} (h : (Value.dict metadata).jsonRoundTrip.isSome)
    (fingerprint : String) :
    (Value.dict (finalMetadata metadata fingerprint)).jsonRoundTrip.isSome :=
  json_setEntry rfl (json_setEntry rfl h)

/-- A context of JSON values can be written. -/
theorem Built.toJson {digest : Value → String} {environment vars metadata : Fields}
    {context : DeploymentContext} {fingerprint : String}
    (h : Built digest environment vars metadata context fingerprint)
    (henvironment : (Value.dict environment).jsonRoundTrip.isSome)
    (hvars : (Value.dict vars).jsonRoundTrip.isSome)
    (hmetadata : (Value.dict metadata).jsonRoundTrip.isSome) :
    ∃ text, context.toJson = some text := by
  apply Option.isSome_iff_exists.1
  rw [DeploymentContext.toJson, fingerprintPayloadToJson, Option.isSome_map, DeploymentContext.toDict,
    h.environment_eq, h.vars_eq, h.metadata_eq, Value.jsonRoundTrip, Option.isSome_map,
    Value.isSome_jsonEntries]
  simp only [List.forall_mem_cons]
  exact ⟨json_thaw_freeze henvironment, json_thaw_freeze hvars,
    json_thaw_freeze (json_finalMetadata hmetadata fingerprint), fun _ h => absurd h List.not_mem_nil⟩

theorem configSection_dict (name : String) (entries : Fields) :
    configSection name (some (.dict entries)) = .ok entries := by
  cases entries <;> rfl

/-- A configuration whose metadata is a dictionary has that dictionary for its metadata. -/
theorem normalizeConfig_of_metadata {config vars metadata explicit : Fields}
    (hexplicit : config.get? "metadata" = some (.dict explicit))
    (h : normalizeConfig config = .ok (vars, metadata)) :
    metadata = explicit ∧ configSection "variables" (some ((config.get? "variables").getD .none))
      = .ok vars := by
  rcases normalizeConfig_eq_ok_iff.1 h with ⟨_, hnone, _⟩ | ⟨_, hvars, hmetadata⟩
  · rw [hexplicit] at hnone
    cases hnone
  · rw [hexplicit] at hmetadata
    exact ⟨Except.ok.inj (hmetadata.symm.trans (configSection_dict _ _)), hvars⟩

/-- Contexts with one canonical form of their sections have one fingerprint. -/
theorem Built.fingerprint_congr {digest : Value → String}
    {environment environment' vars vars' metadata metadata' : Fields}
    {context context' : DeploymentContext} {fingerprint fingerprint' : String}
    (h : Built digest environment vars metadata context fingerprint)
    (h' : Built digest environment' vars' metadata' context' fingerprint')
    (hsame : canonicalSections environment' vars' metadata'
      = canonicalSections environment vars metadata) :
    context'.fingerprint digest = context.fingerprint digest := by
  have heq := h'.fingerprint_eq
  rw [hsame, h.fingerprint_eq] at heq
  rw [h.fingerprint_eq_some, h'.fingerprint_eq_some, heq]

section Variations

variable {digest : Value → String} {resolved entries environment vars metadata : Fields}
  {context : DeploymentContext} {fingerprint : String}

/-- The injector succeeds on a rearranged environment and configuration, with the same fingerprint. -/
theorem Built.rearranged (h : Built digest environment vars metadata context fingerprint)
    (henvironment : normalizeEnvironment resolved = .ok environment)
    (hsections : normalizeConfig entries = .ok (vars, metadata)) {resolvedEnv' config' : Value}
    (hresolved : Rearranged (.dict resolved) resolvedEnv')
    (hconfig : Rearranged (.dict entries) config') :
    ∃ context', buildDeploymentContext digest resolvedEnv' config' = .ok context'
      ∧ context'.fingerprint digest = context.fingerprint digest := by
  obtain ⟨resolved', rfl, hresolved'⟩ := dict_of_freeze hresolved.freeze_eq
  obtain ⟨entries', rfl, hentries'⟩ := dict_of_freeze hconfig.freeze_eq
  obtain ⟨environment', henvironment', hsameEnvironment⟩ :=
    normalizeEnvironment_of_freeze hresolved' henvironment
  obtain ⟨vars', metadata', hsections', hvars, hmetadata⟩ :=
    normalizeConfig_of_freeze hentries' hsections
  have hfiltered : freezeEntries (metadata.filter (isFingerprinted ·.1))
      = freezeEntries (metadata'.filter (isFingerprinted ·.1)) := by
    rw [← filter_freezeEntries, ← filter_freezeEntries, hmetadata]
  have hcanonical := canonicalSections_congr hsameEnvironment hvars hfiltered
  obtain ⟨context', hcontext'⟩ := exists_build henvironment' hsections'
    (hcanonical ▸ h.fingerprint_eq)
    ((isText_executionId_of_freeze hmetadata _).trans h.provisional_text)
    ((isText_executionId_of_freeze hmetadata _).trans h.final_text)
  obtain ⟨_, _, _, _, _, _, hdict, hdict', henv, hsec, hbuilt⟩ := build_eq_ok hcontext'
  obtain rfl := Value.dict.inj hdict
  obtain rfl := Value.dict.inj hdict'
  obtain rfl := Except.ok.inj (henvironment'.symm.trans henv)
  obtain ⟨rfl, rfl⟩ := Prod.mk.inj (Except.ok.inj (hsections'.symm.trans hsec))
  exact ⟨context', hcontext', h.fingerprint_congr hbuilt hcanonical.symm⟩

/-- An execution id that is given is printed as a text that is not blank. -/
def PrintsId (metadata : Fields) : Prop :=
  ∀ value, metadata.get? "execution_id" = some value → value.truthy = true →
    isText (some (.str value.pyStr)) = true

theorem PrintsId.isText_executionId (h : PrintsId metadata) {default : String}
    (hdefault : isText (some (.str default)) = true) :
    isText (some (executionId metadata default)) = true := by
  rw [executionId, orElse]
  split
  · rename_i htruthy
    rcases hvalue : metadata.get? "execution_id" with _ | value
    · rw [hvalue] at htruthy
      cases htruthy
    · rw [hvalue] at htruthy
      exact h value hvalue htruthy
  · exact hdefault

/-- The injector succeeds with another execution id, and with a fingerprint that a caller supplies. -/
theorem Built.with_metadata (h : Built digest environment vars metadata context fingerprint)
    (hdigest : ∀ payload, isText (some (.str (digest payload))) = true)
    (henvironment : normalizeEnvironment resolved = .ok environment)
    (hsections : normalizeConfig entries = .ok (vars, metadata)) {explicit metadata' : Fields}
    (hexplicit : entries.get? "metadata" = some (.dict explicit))
    (hfiltered : metadata'.filter (isFingerprinted ·.1) = explicit.filter (isFingerprinted ·.1))
    (hprints : PrintsId metadata') :
    ∃ context', buildDeploymentContext digest (.dict resolved)
        (.dict (setEntry "metadata" (.dict metadata') entries)) = .ok context'
      ∧ context'.fingerprint digest = context.fingerprint digest := by
  obtain ⟨rfl, hvars⟩ := normalizeConfig_of_metadata hexplicit hsections
  have hsections' : normalizeConfig (setEntry "metadata" (.dict metadata') entries)
      = .ok (vars, metadata') := by
    rw [normalizeConfig_eq_ok_iff, get?_setEntry, get?_setEntry, if_neg (by decide), if_pos rfl]
    exact .inr ⟨fun hnone => (nomatch hnone.2), hvars, configSection_dict _ _⟩
  have hcanonical : canonicalSections environment vars metadata'
      = canonicalSections environment vars metadata :=
    canonicalSections_congr rfl rfl (by rw [hfiltered])
  obtain ⟨payload, hpayload, hfingerprint⟩ := Option.map_eq_some_iff.1 h.fingerprint_eq
  obtain ⟨context', hcontext'⟩ := exists_build henvironment hsections'
    (hcanonical.symm ▸ h.fingerprint_eq) (hprints.isText_executionId rfl)
    (hprints.isText_executionId (hfingerprint ▸ hdigest payload))
  obtain ⟨_, _, _, _, _, _, hdict, hdict', henv, hsec, hbuilt⟩ := build_eq_ok hcontext'
  obtain rfl := Value.dict.inj hdict
  obtain rfl := Value.dict.inj hdict'
  obtain rfl := Except.ok.inj (henvironment.symm.trans henv)
  obtain ⟨rfl, rfl⟩ := Prod.mk.inj (Except.ok.inj (hsections'.symm.trans hsec))
  exact ⟨context', hcontext', h.fingerprint_congr hbuilt hcanonical⟩

end Variations

/-- **What the injector guarantees.** For another execution id the digest has to be no blank text, as a
hexadecimal one is none. -/
theorem buildDeploymentContext_stable {digest : Value → String} {resolvedEnv config : Value}
    (henv : resolvedEnv.jsonRoundTrip.isSome) (hconfig : config.jsonRoundTrip.isSome)
    {context : DeploymentContext}
    (h : buildDeploymentContext digest resolvedEnv config = .ok context) :
    (∃ text read, context.toJson = some text ∧ DeploymentContext.fromJson text = .ok read
      ∧ read = context ∧ read.toJson = some text
      ∧ read.fingerprint digest = context.fingerprint digest)
    ∧ (∃ fingerprint, context.metadata.get? "context_fingerprint" = some (.str fingerprint)
      ∧ context.contextFingerprint digest = some fingerprint
      ∧ context.fingerprint digest = some fingerprint)
    ∧ (∀ resolvedEnv' config', Rearranged resolvedEnv resolvedEnv' → Rearranged config config' →
      ∃ context', buildDeploymentContext digest resolvedEnv' config' = .ok context'
        ∧ context'.fingerprint digest = context.fingerprint digest)
    ∧ ((∀ payload, isText (some (.str (digest payload))) = true) →
      ∀ entries metadata metadata', config = .dict entries →
        Fields.get? entries "metadata" = some (.dict metadata) →
        metadata'.filter (isFingerprinted ·.1) = metadata.filter (isFingerprinted ·.1) →
        PrintsId metadata' →
        ∃ context', buildDeploymentContext digest resolvedEnv
            (.dict (setEntry "metadata" (.dict metadata') entries)) = .ok context'
          ∧ context'.fingerprint digest = context.fingerprint digest) := by
  obtain ⟨resolved, entries, environment, vars, metadata, fingerprint, rfl, rfl, henvironment,
    hsections, hbuilt⟩ := build_eq_ok h
  refine ⟨?_, ⟨fingerprint, hbuilt.stored, hbuilt.contextFingerprint, hbuilt.fingerprint_eq_some⟩,
    ?_, ?_⟩
  · obtain ⟨hjsonVars, hjsonMetadata⟩ := json_normalizeConfig hconfig hsections
    obtain ⟨text, htext⟩ := hbuilt.toJson (json_normalizeEnvironment henv henvironment) hjsonVars
      hjsonMetadata
    exact ⟨text, context, htext, DeploymentContext.fromJson_toJson htext, rfl, htext, rfl⟩
  · intro resolvedEnv' config' hresolved hconfig'
    exact hbuilt.rearranged henvironment hsections hresolved hconfig'
  · intro hdigest entries' explicit metadata' hentries hexplicit hfiltered hprints
    obtain rfl := Value.dict.inj hentries
    exact hbuilt.with_metadata hdigest henvironment hsections hexplicit hfiltered hprints

def localEnvironment : Value :=
  .dict [("name", .str "local"), ("region", .str "local"), ("provider_type", .str "local")]

def localEntries : Fields :=
  [("variables", .dict [("services", .list [.str "api", .str "db"])]), ("metadata", .dict [])]

def markedDigest (payload : Value) : String := "#" ++ payload.pyStr

theorem isText_markedDigest (payload : Value) :
    isText (some (.str (markedDigest payload))) = true :=
  decide_eq_true (strip_ne_empty (c := '#') (by simp [markedDigest]) rfl)

/-- The same context for the entries in another order with a tuple of services, and with an execution
id. -/
theorem buildDeploymentContext_stable_local :
    ∃ context text, buildDeploymentContext markedDigest localEnvironment (.dict localEntries)
        = .ok context
      ∧ context.toJson = some text ∧ DeploymentContext.fromJson text = .ok context
      ∧ (∃ context', buildDeploymentContext markedDigest localEnvironment
          (.dict [("metadata", .dict []),
            ("variables", .dict [("services", .tuple [.str "api", .str "db"])])]) = .ok context'
        ∧ context'.fingerprint markedDigest = context.fingerprint markedDigest)
      ∧ ∃ context', buildDeploymentContext markedDigest localEnvironment
          (.dict (setEntry "metadata" (.dict [("execution_id", .str "run-2")]) localEntries))
            = .ok context'
        ∧ context'.fingerprint markedDigest = context.fingerprint markedDigest := by
  have hbuild : ∃ context,
      buildDeploymentContext markedDigest localEnvironment (.dict localEntries) = .ok context :=
    exists_build rfl rfl rfl rfl (isText_markedDigest _)
  obtain ⟨context, hcontext⟩ := hbuild
  obtain ⟨⟨text, read, htext, hread, hsame, _⟩, _, hrearranged, hmetadata⟩ :=
    buildDeploymentContext_stable rfl rfl hcontext
  have htuple : Rearranged (.dict localEntries)
      (.dict [("metadata", .dict []),
        ("variables", .dict [("services", .tuple [.str "api", .str "db"])])]) :=
    .trans (.permute (by decide) (.swap _ _ _))
      (@Rearranged.inDict [("metadata", .dict [])] [] "variables" _ _
        (@Rearranged.inDict [] [] "services" _ _ (.toTuple _)))
  refine ⟨context, text, hcontext, htext, hsame ▸ hread, hrearranged _ _ (.refl _) htuple,
    hmetadata isText_markedDigest localEntries [] _ rfl rfl rfl ?_⟩
  intro value hvalue _
  obtain rfl := Option.some.inj hvalue
  rfl

end PersonalDevin.Deployment
