import PersonalDevin.Context.CacheKey
import Mathlib.Logic.Equiv.Basic

/-!
# Loads of one service

`load_from_payload` called again and again on one service. The service keeps the context it has when the
key of a payload is the one it holds, and the key only tells the texts of payloads apart. So a context is
served for another payload if the two are written alike, which in the free dictionaries a tuple and a list
with the same items are.
-/

namespace PersonalDevin.Context

open Lib

namespace EnvironmentContextService

variable (sha256 : String → String)

def textDigest (canonical : Fields) : String := sha256 (Value.toJson (.dict canonical)).dumps

/-- `load_from_payload`, with the service that it leaves, also where it raises. -/
def load (service : EnvironmentContextService) (payload : Value) :
    Except EnvironmentError EnvironmentContext × EnvironmentContextService :=
  match validateRequiredFields payload with
  | .error e => (.error e, service)
  | .ok fields =>
      match validateModel fields with
      | .error e => (.error e, service)
      | .ok context =>
          match buildCacheKey (textDigest sha256) fields with
          | .error e => (.error e, service)
          | .ok cacheKey =>
              let service := if service.cacheKey = none ∨ service.cacheKey ≠ some cacheKey
                then ⟨some context, some cacheKey⟩ else service
              (service.getContext, service)

def projection (context : EnvironmentContext) (cacheKey : String) : PlanningContext where
  cloudProvider := context.cloud.provider
  cloudRegion := context.cloud.region
  computeOrchestrator := context.getComputeType
  identityType := context.getIdentityType
  budget := context.getBudget
  compliance := context.getComplianceControls
  cacheKey

/-- A load goes through, or raises and changes nothing. -/
theorem load_cases (service : EnvironmentContextService) (payload : Value) :
    (∃ fields context data, payload = .dict fields ∧ validateRequiredFields payload = .ok fields
        ∧ EnvironmentContext.modelValidate fields = some context
        ∧ (Value.dict fields).written = some data
        ∧ service.load sha256 payload
          = let after := if service.cacheKey = some (sha256 data.dumps) then service
              else ⟨some context, some (sha256 data.dumps)⟩
            (after.getContext, after))
      ∨ ((∃ e, service.load sha256 payload = (.error e, service))
        ∧ ∀ fields context, validateRequiredFields payload = .ok fields →
          validateModel fields = .ok context → (Value.dict fields).written = none) := by
  rw [load]
  rcases hrequired : validateRequiredFields payload with e | fields
  · exact .inr ⟨⟨e, rfl⟩, fun _ _ h => by cases h⟩
  rcases hmodel : validateModel fields with e | context
  · refine .inr ⟨⟨e, by simp only [hmodel]⟩, fun fields' context h hmodel' => ?_⟩
    obtain rfl := Except.ok.inj h
    rw [hmodel] at hmodel'
    cases hmodel'
  rcases hjson : Value.jsonEntries fields with _ | canonical
  · refine .inr ⟨⟨.notJson, by simp only [hmodel, buildCacheKey, hjson]⟩, fun fields' _ h _ => ?_⟩
    obtain rfl := Except.ok.inj h
    rw [Value.written, Value.jsonRoundTrip, hjson]
    rfl
  · have hwritten : (Value.dict fields).written
        = some (Value.toJson (.dict (Value.sortKeysEntries canonical))) := by
      rw [Value.written, Value.jsonRoundTrip, hjson]
      rfl
    refine .inl ⟨fields, context, _, validateRequiredFields_eq_ok hrequired, rfl,
      validateModel_eq_ok_iff.1 hmodel, hwritten, ?_⟩
    simp only [hmodel, buildCacheKey, hjson, textDigest]
    by_cases hkey : service.cacheKey
        = some (sha256 (Value.toJson (.dict (Value.sortKeysEntries canonical))).dumps)
    · simp [hkey]
    · simp [hkey]

end EnvironmentContextService

open EnvironmentContextService (projection textDigest)

/-! ### Sessions -/

/-- A service, and the payload of the last load that returned. -/
structure Session where
  service : EnvironmentContextService
  last : Option Value

namespace Session

variable (sha256 : String → String)

def start : Session := ⟨.start, none⟩

def next (session : Session) (payload : Value) : Session :=
  match session.service.load sha256 payload with
  | (.ok _, service) => ⟨service, some payload⟩
  | (.error _, service) => ⟨service, session.last⟩

def run (loads : List Value) : Session := loads.foldl (next sha256) start

/-- The service holds what validation makes of the last payload, and plans with it. -/
def Faithful (session : Session) : Prop :=
  ∀ payload, session.last = some payload → ∃ fields expected context cacheKey,
    payload = .dict fields ∧ validateModel fields = .ok expected
      ∧ session.service.getContext = .ok context ∧ context.Same expected
      ∧ EnvironmentContextService.buildCacheKey (textDigest sha256) fields = .ok cacheKey
      ∧ session.service.getCacheKey = .ok cacheKey
      ∧ session.service.getPlanningContext = .ok (projection context cacheKey)

/-- The payload is refused, or it is not written like the last one, or its free dictionaries are the same
as there. -/
def Separated (session : Session) (payload : Value) : Prop :=
  ∀ last fields context data, session.last = some (.dict last) →
    validateRequiredFields payload = .ok fields → validateModel fields = .ok context →
    (Value.dict last).written = some data → (Value.dict fields).written = some data →
    freeForms last = freeForms fields

/-- The service holds a context under the key of the last payload. -/
def Kept (session : Session) : Prop :=
  (session.last = none → session.service = .start)
    ∧ ∀ payload, session.last = some payload → ∃ fields expected context data,
      payload = .dict fields ∧ EnvironmentContext.modelValidate fields = some expected
        ∧ (Value.dict fields).written = some data
        ∧ session.service = ⟨some context, some (sha256 data.dumps)⟩

variable {sha256} {session : Session}

theorem kept_start : Kept sha256 start :=
  ⟨fun _ => rfl, fun _ h => by cases h⟩

theorem faithful_start : Faithful sha256 start := fun _ h => by cases h

/-- The key is held only if the last payload is written as this data. -/
theorem Kept.written_of_cacheKey (h : session.Kept sha256) (hsha : Function.Injective sha256)
    {data : Json} (hkey : session.service.cacheKey = some (sha256 data.dumps)) :
    ∃ last expected context, session.last = some (.dict last)
      ∧ EnvironmentContext.modelValidate last = some expected
      ∧ (Value.dict last).written = some data
      ∧ session.service = ⟨some context, some (sha256 data.dumps)⟩ := by
  rcases hlast : session.last with _ | payload
  · rw [h.1 hlast] at hkey
    cases hkey
  · obtain ⟨fields, expected, context, data', rfl, hmodel, hwritten, hservice⟩ := h.2 payload hlast
    rw [hservice] at hkey
    obtain rfl := Json.dumps_injective (hsha (Option.some.inj hkey))
    exact ⟨fields, expected, context, rfl, hmodel, hwritten, hservice⟩

/-- A session that holds a context under the key of its last payload is faithful if the context is what
validation makes of the payload. -/
theorem faithful_iff {fields : Fields} {expected context : EnvironmentContext} {data : Json}
    (hlast : session.last = some (.dict fields))
    (hmodel : EnvironmentContext.modelValidate fields = some expected)
    (hwritten : (Value.dict fields).written = some data)
    (hservice : session.service = ⟨some context, some (sha256 data.dumps)⟩) :
    session.Faithful sha256 ↔ context.Same expected := by
  have hkey : EnvironmentContextService.buildCacheKey (textDigest sha256) fields
      = .ok (sha256 data.dumps) := by
    obtain ⟨w, hw, rfl⟩ := Option.map_eq_some_iff.1 hwritten
    obtain ⟨canonical, hcanonical, rfl⟩ := Option.map_eq_some_iff.1 hw
    rw [EnvironmentContextService.buildCacheKey, hcanonical]
    rfl
  constructor
  · intro h
    obtain ⟨fields', expected', context', _, heq, hmodel', hcontext, hsame, _⟩ := h _ hlast
    obtain rfl := Value.dict.inj heq
    rw [hservice] at hcontext
    obtain rfl : context = context' := Except.ok.inj hcontext
    rw [validateModel_eq_ok_iff, hmodel] at hmodel'
    exact Option.some.inj hmodel' ▸ hsame
  · intro hsame payload hpayload
    obtain rfl := Option.some.inj (hlast.symm.trans hpayload)
    refine ⟨fields, expected, context, sha256 data.dumps, rfl, validateModel_eq_ok_iff.2 hmodel, ?_,
      hsame, hkey, ?_, ?_⟩ <;> rw [hservice] <;> rfl

theorem kept_of_written {fields : Fields} {expected context : EnvironmentContext} {data : Json}
    (hmodel : EnvironmentContext.modelValidate fields = some expected)
    (hwritten : (Value.dict fields).written = some data) :
    Kept sha256 ⟨⟨some context, some (sha256 data.dumps)⟩, some (.dict fields)⟩ := by
  refine ⟨(fun hlast => by cases hlast), fun payload hpayload => ?_⟩
  obtain rfl := Option.some.inj hpayload
  exact ⟨fields, expected, context, data, rfl, hmodel, hwritten, rfl⟩

/-- A load is answered with the context that the service has, as the last payload is written alike, or
with the new one, or it raises and changes nothing. -/
theorem Kept.load_cases (h : session.Kept sha256) (hsha : Function.Injective sha256)
    (payload : Value) :
    (∃ fields context data, payload = .dict fields ∧ validateRequiredFields payload = .ok fields
        ∧ EnvironmentContext.modelValidate fields = some context
        ∧ (Value.dict fields).written = some data
        ∧ ((∃ last expected cached, session.last = some (.dict last)
            ∧ EnvironmentContext.modelValidate last = some expected
            ∧ (Value.dict last).written = some data
            ∧ session.service = ⟨some cached, some (sha256 data.dumps)⟩
            ∧ session.service.load sha256 payload = (.ok cached, session.service))
          ∨ (session.service.cacheKey ≠ some (sha256 data.dumps)
            ∧ session.service.load sha256 payload
              = (.ok context, ⟨some context, some (sha256 data.dumps)⟩))))
      ∨ ((∃ e, session.service.load sha256 payload = (.error e, session.service))
        ∧ ∀ fields context, validateRequiredFields payload = .ok fields →
          validateModel fields = .ok context → (Value.dict fields).written = none) := by
  rcases session.service.load_cases sha256 payload with
    ⟨fields, context, data, rfl, hrequired, hmodel, hwritten, hload⟩ | hraised
  · refine .inl ⟨fields, context, data, rfl, hrequired, hmodel, hwritten, ?_⟩
    by_cases hkey : session.service.cacheKey = some (sha256 data.dumps)
    · obtain ⟨last, expected, cached, hlast, hexpected, hwritten', hservice⟩ :=
        h.written_of_cacheKey hsha hkey
      refine .inl ⟨last, expected, cached, hlast, hexpected, hwritten', hservice, ?_⟩
      rw [hload]
      simp only [hservice]
      rfl
    · refine .inr ⟨hkey, ?_⟩
      rw [hload]
      simp only [if_neg hkey]
      rfl
  · exact .inr hraised

/-- A payload that is written like the last one is separated if its free dictionaries are the same. -/
theorem separated_iff {last fields : Fields} {context : EnvironmentContext} {data : Json}
    (hlast : session.last = some (.dict last))
    (hrequired : validateRequiredFields (.dict fields) = .ok fields)
    (hmodel : EnvironmentContext.modelValidate fields = some context)
    (hwritten : (Value.dict last).written = some data)
    (hwritten' : (Value.dict fields).written = some data) :
    session.Separated (.dict fields) ↔ freeForms last = freeForms fields := by
  constructor
  · intro hseparated
    exact hseparated last fields context data hlast hrequired (validateModel_eq_ok_iff.2 hmodel)
      hwritten hwritten'
  · intro hforms other fields' _ data' hother hrequired' _ _ _
    obtain rfl := Value.dict.inj (Option.some.inj (hlast.symm.trans hother))
    obtain rfl := Except.ok.inj (hrequired.symm.trans hrequired')
    exact hforms

/-- A payload whose key the service does not hold is separated. -/
theorem Kept.separated_of_cacheKey_ne (h : session.Kept sha256) {fields : Fields} {data : Json}
    (hrequired : validateRequiredFields (.dict fields) = .ok fields)
    (hwritten : (Value.dict fields).written = some data)
    (hkey : session.service.cacheKey ≠ some (sha256 data.dumps)) :
    session.Separated (.dict fields) := by
  intro last fields' _ data' hlast hrequired' _ hwritten' hdata
  obtain rfl := Except.ok.inj (hrequired.symm.trans hrequired')
  obtain rfl := Option.some.inj (hwritten.symm.trans hdata)
  obtain ⟨_, _, _, data'', heq, _, hdata'', hservice⟩ := h.2 _ hlast
  obtain rfl := Value.dict.inj heq
  obtain rfl := Option.some.inj (hwritten'.symm.trans hdata'')
  exact absurd (hservice ▸ rfl) hkey

/-- **One load**: the session stays one that holds a context under the key of its last payload, and from
a faithful session it comes out faithful exactly if the payload is separated. -/
theorem Kept.next (h : session.Kept sha256) (hsha : Function.Injective sha256) (payload : Value) :
    (session.next sha256 payload).Kept sha256
      ∧ (session.Faithful sha256 →
        ((session.next sha256 payload).Faithful sha256 ↔ session.Separated payload)) := by
  rw [Session.next]
  rcases h.load_cases hsha payload with
    ⟨fields, context, data, rfl, hrequired, hmodel, hwritten,
      ⟨last, expected, cached, hlast, hexpected, hwritten', hservice, hload⟩ | ⟨hkey, hload⟩⟩
      | ⟨⟨e, hload⟩, hnone⟩
  · -- the service keeps the context it has
    rw [hload]
    simp only [hservice]
    refine ⟨kept_of_written hmodel hwritten, fun hfaithful => ?_⟩
    have hcached : cached.Same expected :=
      (faithful_iff hlast hexpected hwritten' hservice).1 hfaithful
    have hiff : cached.Same context ↔ expected.Same context :=
      ⟨fun hsame => hcached.symm.trans hsame, fun hsame => hcached.trans hsame⟩
    rw [faithful_iff rfl hmodel hwritten rfl, hiff,
      same_iff_of_written hwritten' hwritten hexpected hmodel,
      separated_iff hlast hrequired hmodel hwritten' hwritten]
  · -- the service takes the new context
    rw [hload]
    refine ⟨kept_of_written hmodel hwritten, fun _ => iff_of_true ?_ ?_⟩
    · exact (faithful_iff rfl hmodel hwritten rfl).2 (EnvironmentContext.Same.refl context)
    · exact h.separated_of_cacheKey_ne hrequired hwritten hkey
  · rw [hload]
    refine ⟨h, fun hfaithful => iff_of_true hfaithful ?_⟩
    intro last fields context data _ hrequired hmodel _ hwritten
    rw [hnone fields context hrequired hmodel] at hwritten
    cases hwritten

theorem kept_run (hsha : Function.Injective sha256) (loads : List Value) :
    (run sha256 loads).Kept sha256 :=
  List.foldlRecOn loads _ kept_start fun _ h payload _ => (h.next hsha payload).1

/-- **A session stays faithful exactly as long as each payload is separated.** -/
theorem faithful_foldl_iff (hsha : Function.Injective sha256) (h : session.Kept sha256)
    (hfaithful : session.Faithful sha256) (loads : List Value) :
    (∀ before after, loads = before ++ after →
        (before.foldl (Session.next sha256) session).Faithful sha256)
      ↔ ∀ before payload after, loads = before ++ payload :: after →
        (before.foldl (Session.next sha256) session).Separated payload := by
  induction loads generalizing session with
  | nil =>
      refine iff_of_true (fun before after heq => ?_) fun before payload after heq => ?_
      · obtain ⟨rfl, _⟩ := List.append_eq_nil_iff.1 heq.symm
        exact hfaithful
      · exact absurd heq.symm (by simp)
  | cons payload rest ih =>
      obtain ⟨hkept, hstep⟩ := h.next hsha payload
      constructor
      · intro hall
        have hnext : (session.next sha256 payload).Faithful sha256 := hall [payload] rest rfl
        intro before other after heq
        cases before with
        | nil =>
            obtain ⟨rfl, _⟩ := List.cons.inj heq
            exact (hstep hfaithful).1 hnext
        | cons first before =>
            obtain ⟨rfl, hrest⟩ := List.cons.inj heq
            refine (ih hkept hnext).1 (fun earlier later hsplit => ?_) before other after hrest
            exact hall (payload :: earlier) later (congrArg (payload :: ·) hsplit)
      · intro hall
        have hnext := (hstep hfaithful).2 (hall [] payload rest rfl)
        intro before after heq
        cases before with
        | nil => exact hfaithful
        | cons first before =>
            obtain ⟨rfl, hrest⟩ := List.cons.inj heq
            refine (ih hkept hnext).2 (fun earlier other later hsplit => ?_) before after hrest
            exact hall (payload :: earlier) other later (congrArg (payload :: ·) hsplit)

end Session

open Session (Faithful Separated run)

/-- **After any loads the service answers with what validation makes of the last payload, if and only if
no payload is written like the one before it with other free dictionaries.** A load that raises changes
nothing, and one that returns gives the context that the service then holds. -/
theorem run_faithful_iff_separated (sha256 : String → String) (hsha : Function.Injective sha256)
    (loads : List Value) :
    (∀ before payload after, loads = before ++ payload :: after →
        (∀ e, ((run sha256 before).service.load sha256 payload).1 = .error e →
          ((run sha256 before).service.load sha256 payload).2 = (run sha256 before).service)
        ∧ ∀ context, ((run sha256 before).service.load sha256 payload).1 = .ok context →
          (run sha256 (before ++ [payload])).last = some payload
            ∧ (run sha256 (before ++ [payload])).service.getContext = .ok context)
      ∧ ((∀ before after, loads = before ++ after → (run sha256 before).Faithful sha256)
        ↔ ∀ before payload after, loads = before ++ payload :: after →
          (run sha256 before).Separated payload) := by
  refine ⟨fun before payload _ _ => ?_,
    Session.faithful_foldl_iff hsha Session.kept_start Session.faithful_start loads⟩
  have hconcat : run sha256 (before ++ [payload]) = (run sha256 before).next sha256 payload := by
    rw [run, List.foldl_append]
    rfl
  rw [hconcat, Session.next]
  rcases (Session.kept_run hsha before).load_cases hsha payload with
    ⟨fields, context, data, rfl, _, _, _, ⟨_, _, cached, _, _, _, hservice, hload⟩ | ⟨_, hload⟩⟩
      | ⟨⟨e, hload⟩, _⟩
  · rw [hload]
    refine ⟨(fun e he => by cases he), fun other hother => ⟨rfl, ?_⟩⟩
    obtain rfl := Except.ok.inj hother
    simp only [hservice]
    rfl
  · rw [hload]
    refine ⟨(fun e he => by cases he), fun other hother => ⟨rfl, ?_⟩⟩
    obtain rfl := Except.ok.inj hother
    rfl
  · rw [hload]
    exact ⟨fun _ _ => rfl, fun context hcontext => by cases hcontext⟩

/-! ### Two payloads with one text -/

def clusterPayload (nodes : Value) : Fields :=
  [("cloud", .dict [("provider", .str "provider-x"), ("region", .str "region-1")]),
    ("compute", .dict [("orchestrator", .str "kubernetes"), ("config", .dict [("nodes", nodes)])]),
    ("network", .dict [("ingress", .str "ingress-x"), ("topology", .str "private")]),
    ("identity", .dict [("type", .str "oidc"), ("scim", .bool true)]),
    ("data", .list [.dict [("type", .str "warehouse"), ("engine", .str "engine-x"),
      ("connection", .dict [])]]),
    ("constraints", .dict [("budget", .str "medium"), ("compliance", .list [.str "soc2"])])]

/-- The nodes as a tuple, and as a list. -/
def tupledPayload : Value := .dict (clusterPayload (.tuple [.int 1, .int 2]))

def listedPayload : Value := .dict (clusterPayload (.list [.int 1, .int 2]))

def clusterText : String := ((tupledPayload.written).map Json.dumps).getD ""

/-- An injective function that gives the SHA-256 digest of this text. -/
def clusterDigest : String → String :=
  Equiv.swap clusterText "ec8ea98121328aad915d2073eb03392b377bda69f543db39bec8dea5b5d49a5b"

example : clusterText = "\x7b\"cloud\":\x7b\"provider\":\"provider-x\",\"region\":\"region-1\"\x7d,"
    ++ "\"compute\":\x7b\"config\":\x7b\"nodes\":[1,2]\x7d,\"orchestrator\":\"kubernetes\"\x7d,"
    ++ "\"constraints\":\x7b\"budget\":\"medium\",\"compliance\":[\"soc2\"]\x7d,"
    ++ "\"data\":[\x7b\"connection\":\x7b\x7d,\"engine\":\"engine-x\",\"type\":\"warehouse\"\x7d],"
    ++ "\"identity\":\x7b\"scim\":true,\"type\":\"oidc\"\x7d,"
    ++ "\"network\":\x7b\"ingress\":\"ingress-x\",\"topology\":\"private\"\x7d\x7d" := by
  decide +kernel

theorem clusterDigest_injective : Function.Injective clusterDigest := (Equiv.swap _ _).injective

theorem run_faithful_iff_separated_tupled :
    (∀ before payload after, [tupledPayload, listedPayload] = before ++ payload :: after →
        (∀ e, ((run clusterDigest before).service.load clusterDigest payload).1 = .error e →
          ((run clusterDigest before).service.load clusterDigest payload).2
            = (run clusterDigest before).service)
        ∧ ∀ context, ((run clusterDigest before).service.load clusterDigest payload).1 = .ok context →
          (run clusterDigest (before ++ [payload])).last = some payload
            ∧ (run clusterDigest (before ++ [payload])).service.getContext = .ok context)
      ∧ ((∀ before after, [tupledPayload, listedPayload] = before ++ after →
          (run clusterDigest before).Faithful clusterDigest)
        ↔ ∀ before payload after, [tupledPayload, listedPayload] = before ++ payload :: after →
          (run clusterDigest before).Separated payload) :=
  run_faithful_iff_separated clusterDigest clusterDigest_injective [tupledPayload, listedPayload]

theorem isSome_listedPayload :
    (EnvironmentContext.modelValidate (clusterPayload (.list [.int 1, .int 2]))).isSome = true := by
  decide +kernel

theorem isSome_written_tupledPayload : tupledPayload.written.isSome = true := by
  decide +kernel

/-- After a load with a tuple, the load with a list is answered with the tuple. -/
theorem tuple_served_for_list :
    ¬ (run clusterDigest [tupledPayload, listedPayload]).Faithful clusterDigest := by
  obtain ⟨hkept, hstep⟩ :=
    (@Session.kept_start clusterDigest).next clusterDigest_injective tupledPayload
  have hfaithful : (Session.start.next clusterDigest tupledPayload).Faithful clusterDigest :=
    (hstep Session.faithful_start).2 fun _ _ _ _ hlast => absurd hlast (Option.some_ne_none _).symm
  rw [run, List.foldl_cons, List.foldl_cons, List.foldl_nil]
  intro h
  have hseparated := ((hkept.next clusterDigest_injective listedPayload).2 hfaithful).1 h
  obtain ⟨context, hcontext⟩ := Option.isSome_iff_exists.1 isSome_listedPayload
  obtain ⟨data, hdata⟩ := Option.isSome_iff_exists.1 isSome_written_tupledPayload
  -- a tuple and a list come through JSON alike
  have hsame : listedPayload.written = tupledPayload.written := rfl
  have hforms := hseparated _ _ context data rfl rfl (validateModel_eq_ok_iff.2 hcontext) hdata
    (hsame.trans hdata)
  simp [freeForms, clusterPayload, Fields.get?, List.lookup_cons, entryOf, itemsOf, Value.sortKeys,
    Value.sortKeysEntries, Value.insertEntry] at hforms

end PersonalDevin.Context
