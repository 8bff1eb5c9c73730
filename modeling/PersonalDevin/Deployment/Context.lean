import PersonalDevin.Deployment.Frozen
import PersonalDevin.Text
import PersonalDevin.Lib.Effects

/-!
# The deployment context

`DeploymentContext`, its JSON form and its fingerprint. A JSON text stands for the value it denotes,
with the keys as `sort_keys=True` writes them, and `digest` is the SHA-256 of the text of a value.
-/

namespace PersonalDevin.Deployment

open Lib

inductive ContextError where
  | typeError (text : String)
  | valueError (text : String)

/-- `isinstance(value, str) and value.strip()`. -/
def isText : Option Value → Bool
  | some (.str s) => strip s ≠ ""
  | _ => false

def requireText (path : String) (value : Option Value) : Except ContextError Unit :=
  if isText value then .ok () else .error (.valueError (path ++ " must be a non-empty string"))

theorem requireText_eq_ok_iff {path : String} {value : Option Value} {done : Unit} :
    requireText path value = .ok done ↔ isText value = true := by
  rw [requireText]
  split
  · exact iff_of_true rfl ‹_›
  · exact iff_of_false (fun heq => nomatch heq) ‹_›

theorem isText_map_freeze (value : Option Value) : isText (value.map freeze) = isText value := by
  cases value with
  | none => rfl
  | some value => cases value <;> rfl

def validateRequiredFields (environment metadata : FrozenDict) : Except ContextError Unit := do
  requireText "environment.name" (environment.get? "name")
  requireText "environment.region" (environment.get? "region")
  requireText "environment.provider_type" (environment.get? "provider_type")
  requireText "metadata.execution_id" (metadata.get? "execution_id")

/-- `vars` is the field `variables`. -/
structure DeploymentContext where
  environment : FrozenDict
  vars : FrozenDict
  metadata : FrozenDict
  valid : validateRequiredFields environment metadata = .ok ()

def coerceMapping (name : String) : Value → Except ContextError FrozenDict
  | .dict entries => .ok (.ofEntries entries)
  | _ => .error (.typeError (name ++ " must be a mapping"))

def isFingerprinted (key : String) : Bool := key ≠ "execution_id" && key ≠ "context_fingerprint"

/-- The value that `json.dumps(payload, sort_keys=True)` denotes. -/
def fingerprintPayloadToJson (payload : Value) : Option Value :=
  payload.jsonRoundTrip.map Value.sortKeys

namespace DeploymentContext

/-- `DeploymentContext(...)`, with the checks of `__post_init__`. -/
def make (environment vars metadata : Value) : Except ContextError DeploymentContext := do
  let environment ← coerceMapping "environment" environment
  let vars ← coerceMapping "variables" vars
  let metadata ← coerceMapping "metadata" metadata
  match hvalid : validateRequiredFields environment metadata with
  | .ok () => return ⟨environment, vars, metadata, hvalid⟩
  | .error error => throw error

def toDict (context : DeploymentContext) : Value :=
  .dict
    [("environment", context.environment.toDict),
     ("variables", context.vars.toDict),
     ("metadata", context.metadata.toDict)]

def toJson (context : DeploymentContext) : Option Value := fingerprintPayloadToJson context.toDict

def fromDict : Value → Except ContextError DeploymentContext
  | .dict payload =>
      make ((Fields.get? payload "environment").getD (.dict []))
        ((Fields.get? payload "variables").getD (.dict []))
        ((Fields.get? payload "metadata").getD (.dict []))
  | _ => .error (.typeError "payload must be a mapping")

/-- `from_json` of the text that denotes the value. -/
def fromJson (text : Value) : Except ContextError DeploymentContext := fromDict text

/-- `_fingerprint_payload_from_sections`. -/
def fingerprintPayload (context : DeploymentContext) : Value :=
  .dict
    [("environment", (FrozenDict.ofEntries context.environment.data).toDict),
     ("variables", (FrozenDict.ofEntries context.vars.data).toDict),
     ("metadata", .dict (thawEntries (context.metadata.data.filter (isFingerprinted ·.1))))]

section
variable (digest : Value → String)

/-- `context_fingerprint`. Nothing comes of sections that cannot be written as JSON. -/
def contextFingerprint (context : DeploymentContext) : Option String :=
  (fingerprintPayloadToJson context.fingerprintPayload).map digest

def fingerprint (context : DeploymentContext) : Option String :=
  match context.metadata.get? "context_fingerprint" with
  | some (.str stored) => if stored = "" then context.contextFingerprint digest else some stored
  | _ => context.contextFingerprint digest

end

theorem make_eq_ok {environment vars metadata : Value} {context : DeploymentContext}
    (h : make environment vars metadata = .ok context) :
    ∃ entries entries' entries'', environment = .dict entries ∧ vars = .dict entries'
      ∧ metadata = .dict entries'' ∧ context.environment = .ofEntries entries
      ∧ context.vars = .ofEntries entries' ∧ context.metadata = .ofEntries entries'' := by
  obtain ⟨env, henv, h⟩ := except_bind_eq_ok_iff.1 h
  obtain ⟨varDict, hvars, h⟩ := except_bind_eq_ok_iff.1 h
  obtain ⟨md, hmeta, h⟩ := except_bind_eq_ok_iff.1 h
  have hcoerce : ∀ {name value dict}, coerceMapping name value = .ok dict →
      ∃ entries, value = .dict entries ∧ dict = .ofEntries entries := by
    intro name value dict hdict
    cases value with
    | dict entries => exact ⟨entries, rfl, (Except.ok.inj hdict).symm⟩
    | _ => cases hdict
  obtain ⟨entries, rfl, rfl⟩ := hcoerce henv
  obtain ⟨entries', rfl, rfl⟩ := hcoerce hvars
  obtain ⟨entries'', rfl, rfl⟩ := hcoerce hmeta
  split at h
  · obtain rfl := Except.ok.inj h
    exact ⟨entries, entries', entries'', rfl, rfl, rfl, rfl, rfl, rfl⟩
  · cases h

/-- Sections with the required texts make a context, and no others do. -/
theorem exists_make_iff {environment metadata : Fields} (vars : Fields) :
    (∃ context, make (.dict environment) (.dict vars) (.dict metadata) = .ok context)
      ↔ isText (environment.get? "name") = true ∧ isText (environment.get? "region") = true
        ∧ isText (environment.get? "provider_type") = true
        ∧ isText (metadata.get? "execution_id") = true := by
  have hvalid : validateRequiredFields (.ofEntries environment) (.ofEntries metadata) = .ok ()
      ↔ isText (environment.get? "name") = true ∧ isText (environment.get? "region") = true
        ∧ isText (environment.get? "provider_type") = true
        ∧ isText (metadata.get? "execution_id") = true := by
    have hget : ∀ (entries : Fields) key, isText ((FrozenDict.ofEntries entries).get? key)
        = isText (entries.get? key) := fun entries key => by
      rw [FrozenDict.get?, FrozenDict.ofEntries, get?_freezeEntries, isText_map_freeze]
    simp only [validateRequiredFields, except_bind_eq_ok_iff, requireText_eq_ok_iff, hget,
      exists_const]
  rw [← hvalid]
  simp only [make, coerceMapping, bind, Except.bind]
  split
  · rename_i hok
    exact iff_of_true ⟨_, rfl⟩ hok
  · rename_i error herror
    refine iff_of_false (fun ⟨_, hmade⟩ => by cases hmade) fun hok => ?_
    cases hok.symm.trans herror

theorem make_sections (context : DeploymentContext) :
    make context.environment.toDict context.vars.toDict context.metadata.toDict
      = .ok context := by
  have hcoerce : ∀ name (dict : FrozenDict), coerceMapping name dict.toDict = .ok dict := by
    intro name dict
    show Except.ok (FrozenDict.ofEntries (thawEntries dict.data)) = _
    rw [dict.ofEntries_thawEntries]
  rw [make, hcoerce, hcoerce, hcoerce]
  simp only [bind, Except.bind]
  split
  · rfl
  · rename_i error herror
    rw [context.valid] at herror
    cases herror

theorem json_toDict {context : DeploymentContext} {text : Value} (h : context.toJson = some text) :
    text = .dict
      [("environment", context.environment.toDict),
       ("metadata", context.metadata.toDict),
       ("variables", context.vars.toDict)] := by
  obtain ⟨written, hwritten, rfl⟩ := Option.map_eq_some_iff.1 h
  obtain ⟨stored, hstored, rfl⟩ := Option.map_eq_some_iff.1 hwritten
  have hself := jsonEntries_eq_self ?_ hstored
  · rw [hself, Value.sortKeys]
    have hvariables : ¬ "variables" ≤ "metadata" := by decide
    have henvironment : "environment" ≤ "metadata" := by decide
    simp only [Value.sortKeysEntries, Value.insertEntry, FrozenDict.toDict, Frozen.sortKeys_thaw,
      FrozenDict.frozen, hvariables, henvironment, if_true, if_false]
  · simp only [List.forall_mem_cons]
    exact ⟨context.environment.frozen.json_thaw, context.vars.frozen.json_thaw,
      context.metadata.frozen.json_thaw, fun _ h => absurd h List.not_mem_nil⟩

/-- **A context that can be written is read back as it was.** -/
theorem fromJson_toJson {context : DeploymentContext} {text : Value}
    (h : context.toJson = some text) : fromJson text = .ok context := by
  rw [json_toDict h]
  exact make_sections context

/-! ### The fingerprint that a context carries -/

variable {digest : Value → String} {context : DeploymentContext}

/-- No fingerprint is stored, or the one of the context is. -/
def HonestlyStored (digest : Value → String) (context : DeploymentContext) : Prop :=
  ∀ stored, context.metadata.get? "context_fingerprint" = some (.str stored) → stored ≠ "" →
    context.contextFingerprint digest = some stored

theorem fingerprint_eq_iff_honestlyStored :
    context.fingerprint digest = context.contextFingerprint digest
      ↔ HonestlyStored digest context := by
  rw [fingerprint]
  constructor
  · intro h stored hstored hne
    rw [hstored] at h
    simp only [if_neg hne] at h
    exact h.symm
  · intro h
    split
    · rename_i stored hstored
      split
      · rfl
      · rename_i hne
        exact (h stored hstored hne).symm
    · rfl

/-- The sections that the fingerprint is made from, as they are written. -/
def CanonicalSections (context : DeploymentContext) : Option Value :=
  fingerprintPayloadToJson context.fingerprintPayload

/-- The hash tells the sections of the two contexts apart. -/
def NoCollision (digest : Value → String) (context other : DeploymentContext) : Prop :=
  ∀ text ∈ context.CanonicalSections, ∀ text' ∈ other.CanonicalSections,
    digest text = digest text' → text = text'

theorem sections_eq_of_contextFingerprint_eq {other : DeploymentContext} {shown : String}
    (h : context.contextFingerprint digest = some shown)
    (hother : other.contextFingerprint digest = some shown)
    (hcollision : NoCollision digest context other) :
    context.CanonicalSections = other.CanonicalSections := by
  obtain ⟨text, htext, rfl⟩ := Option.map_eq_some_iff.1 h
  obtain ⟨text', htext', hsame⟩ := Option.map_eq_some_iff.1 hother
  have heq : text = text' := hcollision text htext text' htext' hsame.symm
  rw [CanonicalSections, CanonicalSections, htext, htext', heq]

/-- **The fingerprint of an accepted context** is that of its sections exactly if the stored one was,
and then it tells contexts with other sections apart. -/
theorem fingerprint_identifies_iff (digest : Value → String) :
    (∀ payload context, fromDict payload = .ok context ∨ fromJson payload = .ok context →
      (context.fingerprint digest = context.contextFingerprint digest
        ↔ HonestlyStored digest context))
    ∧ ∀ context other, HonestlyStored digest context → HonestlyStored digest other →
      NoCollision digest context other → ∀ shown, context.fingerprint digest = some shown →
      other.fingerprint digest = some shown →
      context.CanonicalSections = other.CanonicalSections := by
  constructor
  · exact fun _ _ _ => fingerprint_eq_iff_honestlyStored
  · intro context other hcontext hother hcollision shown hshown hshown'
    rw [fingerprint_eq_iff_honestlyStored.2 hcontext] at hshown
    rw [fingerprint_eq_iff_honestlyStored.2 hother] at hshown'
    exact sections_eq_of_contextFingerprint_eq hshown hshown' hcollision

def replayEnvironment : Fields :=
  [("name", .str "prod"), ("region", .str "eu-west"), ("provider_type", .str "local")]

def replayVariables (service : String) : Fields := [("services", .list [.str service])]

/-- The metadata of a payload whose fingerprint is stored. -/
def replayMetadata : Fields :=
  [("execution_id", .str "exec-1"), ("context_fingerprint", .str "f0")]

def replayPayload (service : String) : Value :=
  .dict
    [("environment", .dict replayEnvironment),
     ("variables", .dict (replayVariables service)),
     ("metadata", .dict replayMetadata)]

def replayContext (service : String) : DeploymentContext where
  environment := .ofEntries replayEnvironment
  vars := .ofEntries (replayVariables service)
  metadata := .ofEntries replayMetadata
  valid := rfl

/-- The same context before a fingerprint was stored. -/
def freshContext : DeploymentContext where
  environment := .ofEntries replayEnvironment
  vars := .ofEntries (replayVariables "api")
  metadata := .ofEntries [("execution_id", .str "exec-1")]
  valid := rfl

/-- The fingerprint of the context for `db`. -/
def signature : String := ((replayContext "db").contextFingerprint Value.pyRepr).getD ""

/-- The context for `db` with its own fingerprint stored. -/
def signedContext : DeploymentContext where
  environment := .ofEntries replayEnvironment
  vars := .ofEntries (replayVariables "db")
  metadata := .ofEntries [("execution_id", .str "exec-1"), ("context_fingerprint", .str signature)]
  valid := rfl

theorem honestlyStored_fresh : HonestlyStored Value.pyRepr freshContext :=
  fun _ hstored => by cases hstored

theorem honestlyStored_signed : HonestlyStored Value.pyRepr signedContext := by
  intro stored hstored _
  obtain rfl : signature = stored := Value.str.inj (Option.some.inj hstored)
  decide +kernel

/-- Both contexts show the fingerprints of their sections, which are not the same. -/
theorem freshContext_identified :
    freshContext.fingerprint Value.pyRepr = freshContext.contextFingerprint Value.pyRepr
      ∧ signedContext.fingerprint Value.pyRepr = signedContext.contextFingerprint Value.pyRepr
      ∧ ∀ shown, freshContext.fingerprint Value.pyRepr = some shown →
        signedContext.fingerprint Value.pyRepr ≠ some shown := by
  obtain ⟨hidentifies, hapart⟩ := fingerprint_identifies_iff Value.pyRepr
  refine ⟨?_, ?_, fun shown hshown hshown' => ?_⟩
  · exact (hidentifies (.dict [("environment", .dict replayEnvironment),
      ("variables", .dict (replayVariables "api")),
      ("metadata", .dict [("execution_id", .str "exec-1")])]) freshContext (.inl rfl)).2
      honestlyStored_fresh
  · exact (hidentifies (.dict [("environment", .dict replayEnvironment),
      ("variables", .dict (replayVariables "db")),
      ("metadata", .dict [("execution_id", .str "exec-1"),
        ("context_fingerprint", .str signature)])]) signedContext (.inl rfl)).2
      honestlyStored_signed
  · have hdifferent : freshContext.CanonicalSections.map Value.pyRepr
        ≠ signedContext.CanonicalSections.map Value.pyRepr := by decide +kernel
    have hcollision : NoCollision Value.pyRepr freshContext signedContext := by
      intro text htext text' htext' hsame
      refine absurd ?_ hdifferent
      rw [Option.mem_def.1 htext, Option.mem_def.1 htext', Option.map_some, Option.map_some, hsame]
    exact hdifferent (congrArg (Option.map Value.pyRepr) (hapart freshContext signedContext
      honestlyStored_fresh honestlyStored_signed hcollision shown hshown hshown'))

/-- The services of a payload were edited, and its fingerprint was not. -/
theorem edited_payload_keeps_fingerprint :
    fromDict (replayPayload "api") = .ok (replayContext "api")
      ∧ fromJson (replayPayload "db") = .ok (replayContext "db")
      ∧ (replayContext "db").fingerprint Value.pyRepr
        ≠ (replayContext "db").contextFingerprint Value.pyRepr
      ∧ (replayContext "api").fingerprint Value.pyRepr
        = (replayContext "db").fingerprint Value.pyRepr
      ∧ (replayContext "api").CanonicalSections ≠ (replayContext "db").CanonicalSections := by
  refine ⟨rfl, rfl, by decide +kernel, by decide +kernel, ?_⟩
  intro hsame
  have htext := congrArg (Option.map Value.pyRepr) hsame
  revert htext
  decide +kernel

end DeploymentContext

end PersonalDevin.Deployment
