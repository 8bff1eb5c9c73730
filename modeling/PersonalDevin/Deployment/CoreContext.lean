import PersonalDevin.Deployment.Context
import Mathlib.Data.List.Perm.Basic

/-!
# The core deployment context

`DeploymentContext` of `app/core/deployment_context.py`, the input of the planner: checked when it is made,
with its services stripped and sorted and its dictionaries in canonical order. Arguments that differ only
in the order of the services and of the entries of dictionaries make the same context.
-/

namespace PersonalDevin.Deployment.Core

open Lib

/-! ### Canonical values -/

mutual

def canonicalize : Value → Value
  | .list items => .list (canonicalizeItems items)
  | .dict entries => .dict (canonicalizeEntries entries)
  | value => value

def canonicalizeItems : List Value → List Value
  | [] => []
  | item :: rest => canonicalize item :: canonicalizeItems rest

def canonicalizeEntries : List (String × Value) → List (String × Value)
  | [] => []
  | (key, value) :: rest => Value.insertEntry key (canonicalize value) (canonicalizeEntries rest)

end

theorem canonicalizeItems_eq (items : List Value) :
    canonicalizeItems items = items.map canonicalize := by
  induction items with
  | nil => rfl
  | cons item rest ih => rw [canonicalizeItems, ih, List.map_cons]

theorem canonicalizeEntries_eq (entries : Fields) :
    canonicalizeEntries entries = sortEntries canonicalize entries := by
  induction entries with
  | nil => rfl
  | cons entry rest ih => rw [canonicalizeEntries, ih, sortEntries]

theorem get?_canonicalizeEntries (entries : Fields) (key : String) :
    Fields.get? (canonicalizeEntries entries) key = (Fields.get? entries key).map canonicalize := by
  rw [canonicalizeEntries_eq, get?_sortEntries]

mutual

/-- A canonical value is its own canonical form. -/
theorem canonicalize_canonicalize : ∀ value, canonicalize (canonicalize value) = canonicalize value
  | .none => rfl
  | .bool _ => rfl
  | .int _ => rfl
  | .float _ _ => rfl
  | .str _ => rfl
  | .tuple _ => rfl
  | .object _ _ => rfl
  | .list items => congrArg Value.list (canonicalizeItems_canonicalizeItems items)
  | .dict entries => by
      have hvalues : ∀ entry ∈ canonicalizeEntries entries, canonicalize entry.2 = entry.2 := by
        intro entry hentry
        rw [canonicalizeEntries_eq] at hentry
        obtain ⟨value, hvalue, heq⟩ := exists_of_mem_sortEntries hentry
        rw [← heq]
        exact canonicalize_of_mem entries (entry.1, value) hvalue
      rw [canonicalize, canonicalize, canonicalizeEntries_eq (canonicalizeEntries entries),
        sortEntries_eq_self (canonicalizeEntries_eq entries ▸ ascending_sortEntries _ _) hvalues]

theorem canonicalizeItems_canonicalizeItems :
    ∀ items, canonicalizeItems (canonicalizeItems items) = canonicalizeItems items
  | [] => rfl
  | item :: rest => by
      rw [canonicalizeItems, canonicalizeItems, canonicalize_canonicalize item,
        canonicalizeItems_canonicalizeItems rest]

theorem canonicalize_of_mem : ∀ entries : Fields, ∀ entry ∈ entries,
    canonicalize (canonicalize entry.2) = canonicalize entry.2
  | [], _, h => absurd h List.not_mem_nil
  | (key, value) :: rest, entry, h => by
      rcases List.mem_cons.1 h with rfl | h
      · exact canonicalize_canonicalize value
      · exact canonicalize_of_mem rest entry h

end

mutual

/-- The canonical form of a value that can be written can be written. -/
theorem isSome_canonicalize : ∀ {value : Value}, value.jsonRoundTrip.isSome →
    (canonicalize value).jsonRoundTrip.isSome
  | .none, _ => rfl
  | .bool _, _ => rfl
  | .int _, _ => rfl
  | .float _ _, _ => rfl
  | .str _, _ => rfl
  | .tuple _, h => h
  | .list items, h => by
      rw [Value.jsonRoundTrip, Option.isSome_map] at h
      rw [canonicalize, Value.jsonRoundTrip, Option.isSome_map]
      exact isSome_canonicalizeItems h
  | .dict entries, h => by
      rw [Value.jsonRoundTrip, Option.isSome_map] at h
      rw [canonicalize, Value.jsonRoundTrip, Option.isSome_map]
      exact isSome_canonicalizeEntries h

theorem isSome_canonicalizeItems : ∀ {items : List Value}, (Value.jsonItems items).isSome →
    (Value.jsonItems (canonicalizeItems items)).isSome
  | [], _ => rfl
  | item :: rest, h => by
      obtain ⟨hitem, hrest⟩ := List.forall_mem_cons.1 (Value.isSome_jsonItems.1 h)
      have hothers := isSome_canonicalizeItems (Value.isSome_jsonItems.2 hrest)
      rw [canonicalizeItems, Value.isSome_jsonItems]
      exact List.forall_mem_cons.2 ⟨isSome_canonicalize hitem, Value.isSome_jsonItems.1 hothers⟩

theorem isSome_canonicalizeEntries : ∀ {entries : Fields}, (Value.jsonEntries entries).isSome →
    (Value.jsonEntries (canonicalizeEntries entries)).isSome
  | [], _ => rfl
  | (key, value) :: rest, h => by
      obtain ⟨hvalue, hrest⟩ := List.forall_mem_cons.1 (Value.isSome_jsonEntries.1 h)
      have hothers := isSome_canonicalizeEntries (Value.isSome_jsonEntries.2 hrest)
      rw [canonicalizeEntries, Value.isSome_jsonEntries]
      intro entry hentry
      rcases List.mem_cons.1 ((insertEntry_perm _ _ _).mem_iff.1 hentry) with rfl | hmem
      · exact isSome_canonicalize hvalue
      · exact Value.isSome_jsonEntries.1 hothers entry hmem

end

/-- A JSON value with the entries of its dictionaries in another order. -/
inductive Reordered : Value → Value → Prop
  | refl (value : Value) : Reordered value value
  | trans {value middle other : Value} (h : Reordered value middle) (h' : Reordered middle other) :
      Reordered value other
  | permute {entries others : Fields} (hnodup : (entries.map Prod.fst).Nodup)
      (hperm : entries.Perm others) : Reordered (.dict entries) (.dict others)
  | inList {before after : List Value} {value other : Value} (h : Reordered value other) :
      Reordered (.list (before ++ value :: after)) (.list (before ++ other :: after))
  | inDict {before after : Fields} {key : String} {value other : Value} (h : Reordered value other) :
      Reordered (.dict (before ++ (key, value) :: after)) (.dict (before ++ (key, other) :: after))

/-- **The canonical form does not depend on the order of entries.** -/
theorem Reordered.canonicalize_eq {value other : Value} (h : Reordered value other) :
    canonicalize value = canonicalize other := by
  induction h with
  | refl value => rfl
  | trans _ _ ih ih' => exact ih.trans ih'
  | permute hnodup hperm =>
      rw [canonicalize, canonicalize, canonicalizeEntries_eq, canonicalizeEntries_eq,
        sortEntries_of_perm hnodup hperm]
  | inList _ ih =>
      simp only [canonicalize, canonicalizeItems_eq, List.map_append, List.map_cons, ih]
  | inDict _ ih =>
      rw [canonicalize, canonicalize, canonicalizeEntries_eq, canonicalizeEntries_eq,
        sortEntries_append_cons ih]

/-- A dictionary is only reordered into a dictionary. -/
theorem Reordered.dict {entries : Fields} {other : Value} (h : Reordered (.dict entries) other) :
    ∃ others, other = .dict others ∧ canonicalizeEntries entries = canonicalizeEntries others := by
  have heq := h.canonicalize_eq
  cases other with
  | dict others => exact ⟨others, rfl, Value.dict.inj heq⟩
  | _ => cases heq

/-! ### Arguments -/

/-- The arguments of the constructor, with its defaults. -/
structure Arguments where
  executionId : Value
  environment : Value
  artifacts : Value
  services : Value
  config : Value
  metadata : Value
  region : Value := .str "local"
  providerType : Value := .str "local"
  credentialsRef : Value := .str ""

abbrev Text := { text : String // strip text ≠ "" }

/-- The name of a service, as `_normalize_services` leaves it. -/
abbrev ServiceName := { name : String // name ≠ "" ∧ strip name = name }

structure DeploymentContext where
  executionId : Text
  environment : Text
  artifacts : Fields
  services : List ServiceName
  config : Fields
  metadata : Fields
  region : Text
  providerType : Text
  credentialsRef : String

def checkText (name : String) : Value → Except ContextError Text
  | .str text =>
      if h : strip text ≠ "" then .ok ⟨text, h⟩
      else .error (.valueError (name ++ " must be a non-empty string"))
  | _ => .error (.valueError (name ++ " must be a non-empty string"))

def checkDict (name : String) : Value → Except ContextError Fields
  | .dict entries => .ok entries
  | _ => .error (.typeError (name ++ " must be a dictionary"))

def checkList (name : String) : Value → Except ContextError (List Value)
  | .list items => .ok items
  | _ => .error (.typeError (name ++ " must be a list"))

/-- `_KNOWN_PROVIDER_TYPES`, sorted. -/
def knownProviderTypes : List String := ["aks", "aws", "azure", "local", "mock"]

def checkProviderType (providerType : String) : Except ContextError Unit :=
  if providerType ∈ knownProviderTypes then .ok ()
  else .error (.valueError ("provider_type must be one of "
    ++ (Value.list (knownProviderTypes.map .str)).pyRepr ++ ", got: " ++ Value.strRepr providerType))

def maxCredentialsRefLen : ℕ := 500

def validateCredentialsRef : Value → Except ContextError String
  | .str ref =>
      if maxCredentialsRefLen < ref.length then
        .error (.valueError ("credentials_ref exceeds maximum reference length ("
          ++ toString maxCredentialsRefLen
          ++ " chars); store a reference key/path, not the secret value itself"))
      else if Char.ofNat 10 ∈ ref.toList ∨ Char.ofNat 13 ∈ ref.toList then
        .error (.valueError ("credentials_ref must not contain newline characters; "
          ++ "it must be an opaque reference, not a raw secret (e.g. PEM key)"))
      else if Char.ofNat 0 ∈ ref.toList then
        .error (.valueError "credentials_ref must not contain null bytes")
      else .ok ref
  | _ => .error (.typeError "credentials_ref must be a string")

theorem stripped {service : String} (h : strip service ≠ "") :
    strip service ≠ "" ∧ strip (strip service) = strip service :=
  ⟨h, strip_strip service⟩

def normalizeService : Value → Except ContextError ServiceName
  | .str service =>
      if h : strip service ≠ "" then .ok ⟨strip service, stripped h⟩
      else .error (.valueError "services must contain non-empty strings")
  | _ => .error (.valueError "services must contain non-empty strings")

def normalizeAll : List Value → Except ContextError (List ServiceName)
  | [] => .ok []
  | service :: rest => do
      let name ← normalizeService service
      let names ← normalizeAll rest
      return name :: names

def normalizeServices (services : List Value) : Except ContextError (List ServiceName) := do
  let normalized ← normalizeAll services
  if normalized.Nodup then return normalized
  else throw (.valueError "services must not contain duplicates")

/-- `DeploymentContext(...)`, with the checks of `__post_init__`. -/
def DeploymentContext.make (arguments : Arguments) : Except ContextError DeploymentContext := do
  let executionId ← checkText "execution_id" arguments.executionId
  let environment ← checkText "environment" arguments.environment
  let artifacts ← checkDict "artifacts" arguments.artifacts
  let services ← checkList "services" arguments.services
  let config ← checkDict "config" arguments.config
  let metadata ← checkDict "metadata" arguments.metadata
  let region ← checkText "region" arguments.region
  let providerType ← checkText "provider_type" arguments.providerType
  checkProviderType providerType
  let credentialsRef ← validateCredentialsRef arguments.credentialsRef
  let normalizedServices ← normalizeServices services
  return { executionId, environment, region, providerType, credentialsRef
           artifacts := canonicalizeEntries artifacts
           services := normalizedServices.insertionSort (· ≤ ·)
           config := canonicalizeEntries config
           metadata := canonicalizeEntries metadata }

/-! ### What a context is made of -/

theorem normalizeService_eq_ok_iff {item : Value} {name : ServiceName} :
    normalizeService item = .ok name ↔ ∃ text, item = .str text ∧ strip text = name.val := by
  constructor
  · intro h
    unfold normalizeService at h
    split at h
    · split at h
      · exact ⟨_, rfl, congrArg Subtype.val (Except.ok.inj h)⟩
      · cases h
    · cases h
  · rintro ⟨text, rfl, hname⟩
    have hne : strip text ≠ "" := hname ▸ name.2.1
    exact (dif_pos hne).trans (congrArg Except.ok (Subtype.ext hname))

theorem normalizeAll_eq_ok_iff {items : List Value} {names : List ServiceName} :
    normalizeAll items = .ok names
      ↔ List.Forall₂ (fun item name => normalizeService item = .ok name) items names := by
  induction items generalizing names with
  | nil => simp [normalizeAll, eq_comm]
  | cons item rest ih =>
      rw [normalizeAll, List.forall₂_cons_left_iff]
      simp only [except_bind_eq_ok_iff, ih]
      constructor
      · rintro ⟨name, hname, tail, htail, h⟩
        obtain rfl := Except.ok.inj h
        exact ⟨name, tail, hname, htail, rfl⟩
      · rintro ⟨name, tail, hname, htail, rfl⟩
        exact ⟨name, hname, tail, htail, rfl⟩

theorem normalizeServices_eq_ok_iff {items : List Value} {names : List ServiceName} :
    normalizeServices items = .ok names ↔ normalizeAll items = .ok names ∧ names.Nodup := by
  rw [normalizeServices, except_bind_eq_ok_iff]
  constructor
  · rintro ⟨normalized, hall, h⟩
    split at h
    · rename_i hnodup
      obtain rfl := Except.ok.inj h
      exact ⟨hall, hnodup⟩
    · cases h
  · rintro ⟨hall, hnodup⟩
    exact ⟨names, hall, if_pos hnodup⟩

/-- Services in another order are accepted as well. -/
theorem normalizeServices_of_perm {items others : List Value} {names : List ServiceName}
    (h : normalizeServices items = .ok names) (hperm : items.Perm others) :
    ∃ names', normalizeServices others = .ok names' ∧ names'.Perm names := by
  obtain ⟨hall, hnodup⟩ := normalizeServices_eq_ok_iff.1 h
  obtain ⟨names', hnames', hperm'⟩ :=
    List.perm_comp_forall₂ hperm.symm (normalizeAll_eq_ok_iff.1 hall)
  exact ⟨names', normalizeServices_eq_ok_iff.2
    ⟨normalizeAll_eq_ok_iff.2 hnames', hperm'.nodup_iff.2 hnodup⟩, hperm'⟩

theorem insertionSort_eq_of_perm {names names' : List ServiceName} (h : names.Perm names') :
    names.insertionSort (· ≤ ·) = names'.insertionSort (· ≤ ·) :=
  ((List.perm_insertionSort _ _).trans (h.trans (List.perm_insertionSort _ _).symm)).eq_of_pairwise
    (fun _ _ _ _ => le_antisymm) (List.pairwise_insertionSort _ _) (List.pairwise_insertionSort _ _)

structure MadeOf (arguments : Arguments) (context : DeploymentContext) (artifacts config metadata : Fields)
    (items : List Value) (names : List ServiceName) : Prop where
  executionId : checkText "execution_id" arguments.executionId = .ok context.executionId
  environment : checkText "environment" arguments.environment = .ok context.environment
  region : checkText "region" arguments.region = .ok context.region
  providerType : checkText "provider_type" arguments.providerType = .ok context.providerType
  knownProvider : checkProviderType context.providerType = .ok ()
  credentialsRef : validateCredentialsRef arguments.credentialsRef = .ok context.credentialsRef
  artifacts_dict : arguments.artifacts = .dict artifacts
  config_dict : arguments.config = .dict config
  metadata_dict : arguments.metadata = .dict metadata
  services_list : arguments.services = .list items
  names_ok : normalizeServices items = .ok names
  artifacts_eq : context.artifacts = canonicalizeEntries artifacts
  config_eq : context.config = canonicalizeEntries config
  metadata_eq : context.metadata = canonicalizeEntries metadata
  services_eq : context.services = names.insertionSort (· ≤ ·)

theorem checkDict_eq_ok {name : String} {value : Value} {entries : Fields}
    (h : checkDict name value = .ok entries) : value = .dict entries := by
  cases value with
  | dict entries' => exact congrArg Value.dict (Except.ok.inj h)
  | _ => cases h

theorem checkList_eq_ok {name : String} {value : Value} {items : List Value}
    (h : checkList name value = .ok items) : value = .list items := by
  cases value with
  | list items' => exact congrArg Value.list (Except.ok.inj h)
  | _ => cases h

/-- The other arguments have the services and the entries of dictionaries in another order. -/
structure Arguments.Reordered (arguments other : Arguments) : Prop where
  executionId : other.executionId = arguments.executionId
  environment : other.environment = arguments.environment
  region : other.region = arguments.region
  providerType : other.providerType = arguments.providerType
  credentialsRef : other.credentialsRef = arguments.credentialsRef
  services : ∃ items others, arguments.services = .list items ∧ other.services = .list others
    ∧ items.Perm others
  artifacts : Core.Reordered arguments.artifacts other.artifacts
  config : Core.Reordered arguments.config other.config
  metadata : Core.Reordered arguments.metadata other.metadata

namespace DeploymentContext

variable {arguments other : Arguments} {context : DeploymentContext}

theorem madeOf_of_make (h : make arguments = .ok context) :
    ∃ artifacts config metadata items names,
      MadeOf arguments context artifacts config metadata items names := by
  simp only [make, except_bind_eq_ok_iff] at h
  obtain ⟨executionId, hexecution, environment, henvironment, artifacts, hartifacts, items, hitems,
    config, hconfig, metadata, hmetadata, region, hregion, providerType, hprovider, _, hknown,
    credentialsRef, hcredentials, names, hnames, h⟩ := h
  obtain rfl := Except.ok.inj h
  exact ⟨artifacts, config, metadata, items, names, hexecution, henvironment, hregion, hprovider, hknown,
    hcredentials, checkDict_eq_ok hartifacts, checkDict_eq_ok hconfig, checkDict_eq_ok hmetadata,
    checkList_eq_ok hitems, hnames, rfl, rfl, rfl, rfl⟩

theorem make_of_madeOf {artifacts config metadata : Fields} {items : List Value}
    {names : List ServiceName} (h : MadeOf arguments context artifacts config metadata items names) :
    make arguments = .ok context := by
  rw [make, h.executionId, h.environment, h.artifacts_dict, h.config_dict, h.metadata_dict,
    h.services_list, h.region, h.providerType, h.credentialsRef]
  simp only [bind, Except.bind, checkDict, checkList, h.knownProvider, h.names_ok, pure, Except.pure]
  rw [← h.artifacts_eq, ← h.config_eq, ← h.metadata_eq, ← h.services_eq]

/-- **Arguments in another order make the same context.** -/
theorem make_of_reordered (hreordered : arguments.Reordered other)
    (h : make arguments = .ok context) : make other = .ok context := by
  obtain ⟨artifacts, config, metadata, items, names, hmade⟩ := madeOf_of_make h
  obtain ⟨artifacts', hartifacts, hartifacts'⟩ := (hmade.artifacts_dict ▸ hreordered.artifacts).dict
  obtain ⟨config', hconfig, hconfig'⟩ := (hmade.config_dict ▸ hreordered.config).dict
  obtain ⟨metadata', hmetadata, hmetadata'⟩ := (hmade.metadata_dict ▸ hreordered.metadata).dict
  obtain ⟨items', others, hitems, hothers, hperm⟩ := hreordered.services
  obtain rfl := Value.list.inj (hmade.services_list.symm.trans hitems)
  obtain ⟨names', hnames', hperm'⟩ := normalizeServices_of_perm hmade.names_ok hperm
  exact make_of_madeOf
    { executionId := hreordered.executionId ▸ hmade.executionId
      environment := hreordered.environment ▸ hmade.environment
      region := hreordered.region ▸ hmade.region
      providerType := hreordered.providerType ▸ hmade.providerType
      knownProvider := hmade.knownProvider
      credentialsRef := hreordered.credentialsRef ▸ hmade.credentialsRef
      artifacts_dict := hartifacts
      config_dict := hconfig
      metadata_dict := hmetadata
      services_list := hothers
      names_ok := hnames'
      artifacts_eq := hmade.artifacts_eq.trans hartifacts'
      config_eq := hmade.config_eq.trans hconfig'
      metadata_eq := hmade.metadata_eq.trans hmetadata'
      services_eq := hmade.services_eq.trans (insertionSort_eq_of_perm hperm').symm }

end DeploymentContext

end PersonalDevin.Deployment.Core
