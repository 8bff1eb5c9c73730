import PersonalDevin.AgentLoop.Loop
import PersonalDevin.Number
import Mathlib.Data.Prod.Lex
import Mathlib.Data.String.Basic

/-!
# The adaptation engine

`AdaptationEngine` with its policies and their registry: it makes adaptations of the suggestions of a
feedback signal, lets those through that a policy accepts, and merges what the policies make of them into
the modifiers of a run. Whatever is injected into a run, its modifiers stay within the bounds of the
policies, and a confidence that is no number makes a policy raise.
-/

namespace PersonalDevin.Adaptation

open Lib
open Loop (Feedback RuntimeAdaptation)

/-! ### Policies -/

/-- What a policy says of an adaptation, and the modifiers that it makes, or nothing where it raises. -/
structure AdaptationPolicy where
  validate : RuntimeAdaptation → Option Bool
  apply : RuntimeAdaptation → Option Fields

/-- `0.0 <= adaptation.confidence <= 1.0`, which raises where the confidence is no number. -/
def confidenceAllowed (adaptation : RuntimeAdaptation) : Option Bool :=
  adaptation.confidence.number?.map fun confidence => 0 ≤ confidence && confidence ≤ 1

/-- `{key: adaptation.payload[key]}`. -/
def payloadEntry (key : String) (adaptation : RuntimeAdaptation) : Option Fields :=
  (adaptation.payload.get? key).map fun value => [(key, value)]

structure NumericBounds where
  minimum : ℤ
  maximum : ℤ

/-- The policy for an integer of the payload within bounds. -/
def boundedPolicy (type key : String) (bounds : NumericBounds) : AdaptationPolicy where
  validate adaptation :=
    if adaptation.type ≠ type then some false
    else
      match intOf (adaptation.payload.get? key) with
      | none => some false
      | some value =>
          if value < bounds.minimum ∨ bounds.maximum < value then some false
          else confidenceAllowed adaptation
  apply := payloadEntry key

def retryLimitPolicy : AdaptationPolicy := boundedPolicy "retry_limit" "retry_limit" ⟨1, 5⟩

def timeoutPolicy : AdaptationPolicy := boundedPolicy "timeout_seconds" "timeout" ⟨1, 120⟩

def allowedTools : List String := ["api", "filesystem"]

def preferredToolPolicy : AdaptationPolicy where
  validate adaptation :=
    if adaptation.type ≠ "preferred_tool" then some false
    else
      match adaptation.payload.get? "preferred_tool" with
      | some (.str value) => if value ∈ allowedTools then confidenceAllowed adaptation else some false
      | _ => some false
  apply := payloadEntry "preferred_tool"

abbrev AdaptationRegistry := Dict String AdaptationPolicy

def createDefaultRegistry : AdaptationRegistry :=
  ((Dict.empty.set "retry_limit" retryLimitPolicy).set "timeout_seconds" timeoutPolicy).set
    "preferred_tool" preferredToolPolicy

/-! ### The engine -/

def mapActionToAdaptation (actionType : String) : Option (String × Fields) :=
  [("retry_strategy", "retry_limit", [("retry_limit", Value.int 3)]),
    ("optimize_execution", "timeout_seconds", [("timeout", .int 10)]),
    ("increase_logging", "preferred_tool", [("preferred_tool", .str "api")])].lookup actionType

def mapFeedbackSuggestionToAction (suggestion : String) : Option String :=
  [("add_task_level_retry_with_backoff", "retry_strategy"),
    ("introduce_precondition_validation", "increase_logging"),
    ("inspect_failed_task_dependencies", "retry_strategy"),
    ("tighten_task_input_validation", "increase_logging"),
    ("promote_dependency_health_checks", "increase_logging"),
    ("add_fallback_path_for_blocked_dependencies", "retry_strategy"),
    ("refine_expected_output_constraints", "optimize_execution"),
    ("add_post_execution_output_sanitization", "optimize_execution"),
    ("increase_assertion_coverage_for_outputs", "increase_logging"),
    ("tighten_evaluation_thresholds", "optimize_execution")].lookup (strip suggestion)

/-- The adaptation of one item, with its number. -/
def generateOne (place : Fields × ℕ) : Option RuntimeAdaptation :=
  let item := place.1
  let confidence := ((item.get? "confidence").bind Value.number?).getD 0
  (mapActionToAdaptation (strip (textField item "action_type" ""))).map fun (type, payload) => {
    id := "adaptation-" ++ zeroPad 3 place.2
    source := textField item "source" "unknown"
    type
    payload
    confidence := .ofDecimal 4 (roundDecimals 4 confidence) }

def generate (improvementOutput : List Fields) : List RuntimeAdaptation :=
  (improvementOutput.zipIdx 1).filterMap generateOne

/-- Whether an adaptation has a policy that accepts it, or nothing where the policy raises. -/
def isValid (registry : AdaptationRegistry) (adaptation : RuntimeAdaptation) : Option Bool :=
  match registry.get? adaptation.type with
  | some policy => policy.validate adaptation
  | none => some false

def filterValid (registry : AdaptationRegistry) :
    List RuntimeAdaptation → Option (List RuntimeAdaptation)
  | [] => some []
  | adaptation :: rest => do
      let valid ← isValid registry adaptation
      let others ← filterValid registry rest
      return if valid then adaptation :: others else others

/-- `modifiers.update(result)`. -/
def updateFields (modifiers result : Fields) : Fields :=
  result.foldl (fun modifiers entry => upsert entry.1 entry.2 modifiers) modifiers

def applyOne (registry : AdaptationRegistry) (modifiers : Fields) (adaptation : RuntimeAdaptation) :
    Option Fields :=
  match registry.get? adaptation.type with
  | some policy => (policy.apply adaptation).map (updateFields modifiers)
  | none => some modifiers

/-- `apply`, or nothing where a policy raises. -/
def apply (registry : AdaptationRegistry) (adaptations : List RuntimeAdaptation) : Option Fields :=
  adaptations.foldlM (applyOne registry) []

/-- The actions for some suggestions, each at its first place. -/
def orderedActions (suggestions : List String) : List String :=
  (Dict.setAll id (fun _ => ()) .empty
    (suggestions.filterMap mapFeedbackSuggestionToAction)).keys

def processFeedback (registry : AdaptationRegistry) (feedbackSignal : Feedback) :
    Option (List RuntimeAdaptation) :=
  if feedbackSignal.success then some []
  else
    filterValid registry (generate ((orderedActions feedbackSignal.improvementSuggestions).map
      fun actionType => [("action_type", .str actionType),
        ("source", .str ("feedback:" ++ feedbackSignal.executionId)),
        ("confidence", feedbackSignal.confidence)]))

/-- What `_apply_injected_adaptations` takes from the engine: how many adaptations are valid, and the
modifiers that they make. -/
def applyInjected (registry : AdaptationRegistry) (injected : List RuntimeAdaptation) :
    Option (ℕ × Fields) := do
  let valid ← filterValid registry injected
  let modifiers ← apply registry valid
  return (valid.length, modifiers)

/-! ### What the default policies grant -/

/-- An adaptation offers a modifier: a policy of the default registry reads this value in it and asks for
nothing more than its confidence. -/
inductive Offers (adaptation : RuntimeAdaptation) : String → Value → Prop
  | retryLimit {value : Value} {n : ℤ} :
      adaptation.type = "retry_limit" → adaptation.payload.get? "retry_limit" = some value →
      intOf (some value) = some n → 1 ≤ n → n ≤ 5 → Offers adaptation "retry_limit" value
  | timeout {value : Value} {n : ℤ} :
      adaptation.type = "timeout_seconds" → adaptation.payload.get? "timeout" = some value →
      intOf (some value) = some n → 1 ≤ n → n ≤ 120 → Offers adaptation "timeout" value
  | preferredTool {tool : String} :
      adaptation.type = "preferred_tool" →
      adaptation.payload.get? "preferred_tool" = some (.str tool) → tool ∈ allowedTools →
      Offers adaptation "preferred_tool" (.str tool)

/-- It grants the modifier: its confidence is between 0 and 1 as well. -/
structure Grants (adaptation : RuntimeAdaptation) (key : String) (value : Value) : Prop where
  offers : Offers adaptation key value
  confidence : confidenceAllowed adaptation = some true

/-- It offers a modifier at a confidence that is no number. -/
def Unread (adaptation : RuntimeAdaptation) : Prop :=
  (∃ key value, Offers adaptation key value) ∧ adaptation.confidence.number? = none

variable {adaptation : RuntimeAdaptation}

theorem get?_createDefaultRegistry (type : String) :
    createDefaultRegistry.get? type
      = if type = "preferred_tool" then some preferredToolPolicy
        else if type = "timeout_seconds" then some timeoutPolicy
        else if type = "retry_limit" then some retryLimitPolicy
        else none := by
  rw [createDefaultRegistry, Dict.get?_set, Dict.get?_set, Dict.get?_set]
  rfl

theorem boundedPolicy_of_within {type key : String} {bounds : NumericBounds} {value : Value} {n : ℤ}
    (htype : adaptation.type = type) (hget : adaptation.payload.get? key = some value)
    (hn : intOf (some value) = some n) (hlow : bounds.minimum ≤ n) (hhigh : n ≤ bounds.maximum) :
    (boundedPolicy type key bounds).validate adaptation = confidenceAllowed adaptation := by
  simp only [boundedPolicy]
  rw [if_neg (not_not_intro htype), hget, hn]
  exact if_neg (not_or.2 ⟨not_lt.2 hlow, not_lt.2 hhigh⟩)

theorem boundedPolicy_cases (type key : String) (bounds : NumericBounds)
    (adaptation : RuntimeAdaptation) :
    (boundedPolicy type key bounds).validate adaptation = some false
      ∨ adaptation.type = type ∧ ∃ value n, adaptation.payload.get? key = some value
        ∧ intOf (some value) = some n ∧ bounds.minimum ≤ n ∧ n ≤ bounds.maximum := by
  simp only [boundedPolicy]
  split
  · exact .inl rfl
  · rename_i htype
    rcases hget : adaptation.payload.get? key with _ | value
    · exact .inl rfl
    · rcases hn : intOf (some value) with _ | n
      · exact .inl rfl
      · dsimp only
        split
        · exact .inl rfl
        · rename_i hwithin
          rw [not_or, not_lt, not_lt] at hwithin
          exact .inr ⟨not_not.1 htype, value, n, rfl, hn, hwithin⟩

theorem preferredToolPolicy_of_allowed {tool : String} (htype : adaptation.type = "preferred_tool")
    (hget : adaptation.payload.get? "preferred_tool" = some (.str tool)) (htool : tool ∈ allowedTools) :
    preferredToolPolicy.validate adaptation = confidenceAllowed adaptation := by
  simp only [preferredToolPolicy]
  rw [if_neg (not_not_intro htype), hget]
  exact if_pos htool

theorem preferredToolPolicy_cases (adaptation : RuntimeAdaptation) :
    preferredToolPolicy.validate adaptation = some false
      ∨ adaptation.type = "preferred_tool" ∧ ∃ tool,
        adaptation.payload.get? "preferred_tool" = some (.str tool) ∧ tool ∈ allowedTools := by
  simp only [preferredToolPolicy]
  split
  · exact .inl rfl
  · rename_i htype
    split
    · rename_i tool hget
      by_cases htool : tool ∈ allowedTools
      · exact .inr ⟨not_not.1 htype, tool, hget, htool⟩
      · exact .inl (if_neg htool)
    · exact .inl rfl

/-- Of what is offered, the policies look at the confidence. -/
theorem Offers.isValid {key : String} {value : Value} (h : Offers adaptation key value) :
    isValid createDefaultRegistry adaptation = confidenceAllowed adaptation := by
  rw [Adaptation.isValid, get?_createDefaultRegistry]
  cases h with
  | retryLimit htype hget hn hlow hhigh =>
      rw [htype]
      exact boundedPolicy_of_within htype hget hn hlow hhigh
  | timeout htype hget hn hlow hhigh =>
      rw [htype]
      exact boundedPolicy_of_within htype hget hn hlow hhigh
  | preferredTool htype hget htool =>
      rw [htype]
      exact preferredToolPolicy_of_allowed htype hget htool

/-- What offers nothing is not valid. -/
theorem isValid_cases (adaptation : RuntimeAdaptation) :
    isValid createDefaultRegistry adaptation = some false
      ∨ ∃ key value, Offers adaptation key value := by
  rw [isValid, get?_createDefaultRegistry]
  by_cases htool : adaptation.type = "preferred_tool"
  · rw [if_pos htool]
    exact (preferredToolPolicy_cases adaptation).imp_right
      fun ⟨htype, tool, hget, hallowed⟩ => ⟨_, _, .preferredTool htype hget hallowed⟩
  · rw [if_neg htool]
    by_cases htimeout : adaptation.type = "timeout_seconds"
    · rw [if_pos htimeout]
      exact (boundedPolicy_cases _ _ _ adaptation).imp_right
        fun ⟨htype, value, n, hget, hn, hlow, hhigh⟩ => ⟨_, _, .timeout htype hget hn hlow hhigh⟩
    · rw [if_neg htimeout]
      by_cases hretry : adaptation.type = "retry_limit"
      · rw [if_pos hretry]
        exact (boundedPolicy_cases _ _ _ adaptation).imp_right
          fun ⟨htype, value, n, hget, hn, hlow, hhigh⟩ => ⟨_, _, .retryLimit htype hget hn hlow hhigh⟩
      · rw [if_neg hretry]
        exact .inl rfl

/-- The default registry accepts what grants a modifier. -/
theorem isValid_iff :
    isValid createDefaultRegistry adaptation = some true ↔ ∃ key value, Grants adaptation key value := by
  constructor
  · intro h
    rcases isValid_cases adaptation with hinvalid | ⟨key, value, hoffers⟩
    · cases hinvalid.symm.trans h
    · exact ⟨key, value, hoffers, hoffers.isValid.symm.trans h⟩
  · rintro ⟨key, value, hoffers, hconfidence⟩
    exact hoffers.isValid.trans hconfidence

theorem isValid_eq_none_iff : isValid createDefaultRegistry adaptation = none ↔ Unread adaptation := by
  constructor
  · intro h
    rcases isValid_cases adaptation with hinvalid | ⟨key, value, hoffers⟩
    · cases hinvalid.symm.trans h
    · exact ⟨⟨key, value, hoffers⟩, Option.map_eq_none_iff.1 (hoffers.isValid.symm.trans h)⟩
  · rintro ⟨⟨key, value, hoffers⟩, hnumber⟩
    exact hoffers.isValid.trans (Option.map_eq_none_iff.2 hnumber)

/-- What offers a modifier sets it. -/
theorem Offers.applyOne {key : String} {value : Value} (h : Offers adaptation key value)
    (modifiers : Fields) :
    applyOne createDefaultRegistry modifiers adaptation = some (upsert key value modifiers) := by
  cases h with
  | retryLimit htype hget => simp [Adaptation.applyOne, get?_createDefaultRegistry, htype,
      retryLimitPolicy, boundedPolicy, payloadEntry, hget, updateFields]
  | timeout htype hget => simp [Adaptation.applyOne, get?_createDefaultRegistry, htype,
      timeoutPolicy, boundedPolicy, payloadEntry, hget, updateFields]
  | preferredTool htype hget => simp [Adaptation.applyOne, get?_createDefaultRegistry, htype,
      preferredToolPolicy, payloadEntry, hget, updateFields]

theorem Grants.unique {key key' : String} {value value' : Value} (h : Grants adaptation key value)
    (h' : Grants adaptation key' value') : key = key' ∧ value = value' := by
  have hsame := Option.some.inj ((h.offers.applyOne []).symm.trans (h'.offers.applyOne []))
  exact Prod.mk.inj (List.cons.inj hsame).1

/-! ### The modifiers of a run -/

/-- The engine raises where a policy does, and keeps what is valid where none does. -/
theorem filterValid_cases (registry : AdaptationRegistry) (adaptations : List RuntimeAdaptation) :
    filterValid registry adaptations = none
        ∧ (∃ adaptation ∈ adaptations, isValid registry adaptation = none)
      ∨ filterValid registry adaptations
          = some (adaptations.filter fun adaptation => isValid registry adaptation == some true)
        ∧ ∀ adaptation ∈ adaptations, isValid registry adaptation ≠ none := by
  induction adaptations with
  | nil => exact .inr ⟨rfl, fun _ hmem => absurd hmem List.not_mem_nil⟩
  | cons adaptation rest ih =>
      rcases hvalid : isValid registry adaptation with _ | valid
      · exact .inl ⟨by rw [filterValid, hvalid]; rfl, adaptation, List.mem_cons_self, hvalid⟩
      · rcases ih with ⟨hraises, other, hmem, hother⟩ | ⟨hkeeps, hrest⟩
        · refine .inl ⟨?_, other, List.mem_cons_of_mem _ hmem, hother⟩
          rw [filterValid, hvalid, hraises]
          rfl
        · refine .inr ⟨?_, List.forall_mem_cons.2 ⟨hvalid ▸ Option.some_ne_none valid, hrest⟩⟩
          rw [filterValid, hvalid, hkeeps]
          cases valid with
          | true => rw [List.filter_cons_of_pos (by rw [hvalid]; rfl)]; rfl
          | false => rw [List.filter_cons_of_neg (by rw [hvalid]; decide)]; rfl

/-- A modifier with its value is the one of the last adaptation that grants it. -/
def LastGrant (adaptations : List RuntimeAdaptation) (key : String) (value : Value) : Prop :=
  ∃ before last after, adaptations = before ++ last :: after ∧ Grants last key value
    ∧ ∀ adaptation ∈ after, ∀ value', ¬ Grants adaptation key value'

theorem lastGrant_concat_iff {adaptations : List RuntimeAdaptation} {key : String} {value : Value} :
    LastGrant (adaptations ++ [adaptation]) key value
      ↔ Grants adaptation key value
        ∨ (∀ value', ¬ Grants adaptation key value') ∧ LastGrant adaptations key value := by
  constructor
  · rintro ⟨before, last, after, hsplit, hlast, hafter⟩
    rcases List.eq_nil_or_concat after with rfl | ⟨rest, a, rfl⟩
    · obtain ⟨rfl, hsame⟩ := List.append_inj' hsplit rfl
      obtain rfl := (List.cons.inj hsame).1
      exact .inl hlast
    · rw [List.concat_eq_append, ← List.cons_append, ← List.append_assoc] at hsplit
      obtain ⟨rfl, hsame⟩ := List.append_inj' hsplit rfl
      obtain rfl := (List.cons.inj hsame).1
      refine .inr ⟨hafter adaptation (by simp), before, last, rest, rfl, hlast, fun a ha => ?_⟩
      exact hafter a (by simp [ha])
  · rintro (hgrants | ⟨hnone, before, last, after, rfl, hlast, hafter⟩)
    · exact ⟨adaptations, adaptation, [], rfl, hgrants, fun _ h => absurd h List.not_mem_nil⟩
    · refine ⟨before, last, after ++ [adaptation], by simp, hlast, fun a ha => ?_⟩
      rcases List.mem_append.1 ha with ha | ha
      · exact hafter a ha
      · obtain rfl := List.mem_singleton.1 ha
        exact hnone

theorem exists_apply_valid (injected : List RuntimeAdaptation) :
    ∃ modifiers, apply createDefaultRegistry
        (injected.filter fun adaptation => isValid createDefaultRegistry adaptation == some true)
          = some modifiers
      ∧ ∀ key value, modifiers.get? key = some value ↔ LastGrant injected key value := by
  induction injected using List.reverseRecOn with
  | nil =>
      refine ⟨[], rfl, fun key value => ⟨(fun h => by cases h), ?_⟩⟩
      rintro ⟨before, last, after, hsplit, -⟩
      exact absurd hsplit.symm (List.append_ne_nil_of_right_ne_nil _ (List.cons_ne_nil _ _))
  | append_singleton rest adaptation ih =>
      obtain ⟨modifiers, happly, hget⟩ := ih
      rw [List.filter_append]
      by_cases hvalid : isValid createDefaultRegistry adaptation = some true
      · obtain ⟨granted, value, hgrants⟩ := isValid_iff.1 hvalid
        refine ⟨upsert granted value modifiers, ?_, fun key value' => ?_⟩
        · rw [List.filter_cons_of_pos (by rw [hvalid]; rfl), List.filter_nil, apply,
            List.foldlM_append]
          show (apply createDefaultRegistry _).bind _ = _
          rw [happly, Option.bind_some, List.foldlM_cons, hgrants.offers.applyOne]
          rfl
        · rw [lastGrant_concat_iff, ← hget, Fields.get?, lookup_upsert]
          by_cases hkey : key = granted
          · subst hkey
            rw [if_pos rfl, Option.some.injEq]
            refine ⟨fun heq => .inl (heq ▸ hgrants), ?_⟩
            rintro (hgrants' | ⟨hnone, -⟩)
            · exact (hgrants.unique hgrants').2
            · exact absurd hgrants (hnone value)
          · rw [if_neg hkey]
            have hnone : ∀ value', ¬ Grants adaptation key value' :=
              fun value' hgrants' => hkey (hgrants.unique hgrants').1.symm
            rw [or_iff_right (hnone value'), and_iff_right hnone]
            rfl
      · have hnone : ∀ key value, ¬ Grants adaptation key value :=
          fun key value hgrants => hvalid (isValid_iff.2 ⟨key, value, hgrants⟩)
        refine ⟨modifiers, ?_, fun key value => ?_⟩
        · rw [List.filter_cons_of_neg (by rwa [beq_iff_eq]), List.filter_nil, List.append_nil]
          exact happly
        · rw [lastGrant_concat_iff, or_iff_right (hnone key value), and_iff_right (hnone key), hget]

/-- **The modifiers of a run**, whatever is injected into it: a policy raises exactly if something is
offered at a confidence that is no number. Otherwise the valid adaptations are counted, and each modifier
is the one that the last valid adaptation for it grants. -/
theorem applyInjected_spec (injected : List RuntimeAdaptation) :
    applyInjected createDefaultRegistry injected = none ∧ (∃ adaptation ∈ injected, Unread adaptation)
      ∨ ∃ modifiers, applyInjected createDefaultRegistry injected
          = some (injected.countP fun adaptation =>
              isValid createDefaultRegistry adaptation == some true, modifiers)
        ∧ (∀ adaptation ∈ injected, ¬ Unread adaptation)
        ∧ ∀ key value, modifiers.get? key = some value ↔ LastGrant injected key value := by
  rcases filterValid_cases createDefaultRegistry injected with
    ⟨hraises, adaptation, hmem, hnone⟩ | ⟨hkeeps, hread⟩
  · exact .inl ⟨by rw [applyInjected, hraises]; rfl, adaptation, hmem, isValid_eq_none_iff.1 hnone⟩
  · obtain ⟨modifiers, happly, hget⟩ := exists_apply_valid injected
    refine .inr ⟨modifiers, ?_, fun adaptation hmem hunread => ?_, hget⟩
    · rw [applyInjected, hkeeps, List.countP_eq_length_filter]
      show (apply createDefaultRegistry _).bind _ = _
      rw [happly]
      rfl
    · exact hread adaptation hmem (isValid_eq_none_iff.2 hunread)

/-- A confidence that is no number. -/
example : applyInjected createDefaultRegistry
    [⟨"a-001", "retry_limit", "manual", .none, [("retry_limit", .int 3)]⟩] = none := rfl

end PersonalDevin.Adaptation
