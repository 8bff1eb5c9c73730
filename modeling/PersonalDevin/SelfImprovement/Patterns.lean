import PersonalDevin.Improvement.Pipeline
import PersonalDevin.Lib.Binary64
import PersonalDevin.Lib.Paired

/-!
# From executions and failures to adaptations

`PatternDetector.detect` and `AdaptationEngine.generate`. What the interpreter knows of characters, how
it writes a float, and how it adds floats up are given.
-/

namespace PersonalDevin.SelfImprovement.Patterns

open Lib
open Improvement.Analyzer (counts sortedCounts)

/-- The parts of the interpreter. -/
structure Interpreter where
  /-- `text.lower()`. -/
  lower : String → String
  isalnum : Char → Bool
  /-- `str(x)`. -/
  floatText : Binary64 → String
  /-- A float as a percentage with two decimals. -/
  percent : Binary64 → String
  sum : List Binary64 → Binary64

inductive Fault where
  | overflowError
  | valueError
  deriving DecidableEq

/-! ### Records -/

/-- What the detector reads of an execution. -/
structure ExecutionRecord where
  latency : Binary64
  failedTasks : ℤ
  totalTasks : ℤ

/-- The quotient of two integers, which raises where it is too large for a float. -/
def quotient (a b : ℤ) : Except Fault Binary64 :=
  match Binary64.ofRat (a / b) with
  | .infinite _ => .error .overflowError
  | x => .ok x

def ExecutionRecord.successRate (record : ExecutionRecord) : Except Fault Binary64 :=
  if record.totalTasks = 0 then .ok 1
  else (Binary64.round 4) <$> quotient (record.totalTasks - record.failedTasks) record.totalTasks

/-- What the detector reads of a failure. -/
structure FailureRecord where
  error : String

inductive PatternKind where
  | repeatedFailure
  | highLatency
  | lowSuccessRate
  deriving DecidableEq

def PatternKind.text : PatternKind → String
  | repeatedFailure => "repeated_failure"
  | highLatency => "high_latency"
  | lowSuccessRate => "low_success_rate"

inductive Signal where
  | error (text : String)
  | number (x : Binary64)

structure Pattern where
  patternId : String
  kind : PatternKind
  description : String
  signalValue : Signal
  occurrenceCount : ℕ
  confidence : Binary64

inductive ImprovementType where
  | adjustPolicy
  | changeStrategy
  | increaseConfidence
  deriving DecidableEq

def ImprovementType.text : ImprovementType → String
  | adjustPolicy => "adjust_policy"
  | changeStrategy => "change_strategy"
  | increaseConfidence => "increase_confidence"

structure SelfImprovementAdaptation where
  adaptationId : String
  sourcePatternId : String
  description : String
  expectedEffect : String
  actionType : ImprovementType
  target : String
  value : Value
  confidenceScore : Binary64

/-- `(action_type, target, adaptation_id)`. -/
def SelfImprovementAdaptation.sortKey (adaptation : SelfImprovementAdaptation) :
    String ×ₗ String ×ₗ String :=
  toLex (adaptation.actionType.text, toLex (adaptation.target, adaptation.adaptationId))

/-! ### Detection -/

section Detection

variable (py : Interpreter)

/-- `str(p.signal_value)`. -/
def Signal.text : Signal → String
  | error text => text
  | number x => py.floatText x

/-- `text.strip("-")`. -/
def stripHyphens (text : List Char) : List Char :=
  ((text.dropWhile (· = '-')).reverse.dropWhile (· = '-')).reverse

def slug (text : String) : String :=
  String.ofList (stripHyphens
    (((py.lower text).toList.map fun c => if py.isalnum c then c else '-').take 40))

def repeatedFailure (error : String) (count : ℕ) : Option Pattern :=
  if count < 2 then none
  else some {
    patternId := "pattern-repeated-failure-" ++ slug py error
    kind := .repeatedFailure
    description := "Error '" ++ error ++ "' occurred " ++ Nat.repr count ++ " time(s)"
    signalValue := .error error
    occurrenceCount := count
    confidence := (Binary64.ofRat (95 / 100)).minimum
      ((Binary64.ofRat (5 / 10) + Binary64.ratio count 10).round 4) }

/-- The errors of the failures, without white space around them. -/
def errorsOf (failures : List FailureRecord) : List String :=
  failures.map fun failure => strip failure.error

def repeatedFailures (failures : List FailureRecord) : List Pattern :=
  (sortedCounts (errorsOf failures)).filterMap fun entry => repeatedFailure py entry.1 entry.2

/-- The mean of floats, rounded to four decimals. -/
def average (values : List Binary64) : Binary64 := ((py.sum values).divNat values.length).round 4

def highLatency (executions : List ExecutionRecord) : List Pattern :=
  let slow := executions.filter fun execution => decide (3 < execution.latency)
  if slow.isEmpty then []
  else
    let avgSlow := average py (slow.map ExecutionRecord.latency)
    [{
      patternId := "pattern-high-latency"
      kind := .highLatency
      description := Nat.repr slow.length ++ " execution(s) exceeded latency threshold (3.0s), avg="
        ++ py.floatText avgSlow ++ "s"
      signalValue := .number avgSlow
      occurrenceCount := slow.length
      confidence := ((Binary64.ofRat (9 / 10)).minimum
        (Binary64.ofRat (6 / 10) + Binary64.ratio slow.length 20)).round 4 }]

def lowSuccessRate (executions : List ExecutionRecord) : Except Fault (List Pattern) := do
  if executions.isEmpty then return []
  let rates ← executions.mapM ExecutionRecord.successRate
  let avgRate := average py rates
  if (Binary64.ofRat (7 / 10)).atMost avgRate then return []
  return [{
    patternId := "pattern-low-success-rate"
    kind := .lowSuccessRate
    description := "Average success rate " ++ py.percent avgRate ++ " is below threshold 70%"
    signalValue := .number avgRate
    occurrenceCount := executions.length
    confidence := ((Binary64.ofRat (9 / 10)).minimum (1 - avgRate)).round 4 }]

def patternKey (pattern : Pattern) : String ×ₗ String ×ₗ String :=
  toLex (pattern.kind.text, toLex (pattern.signalValue.text py, pattern.patternId))

def detect (executions : List ExecutionRecord) (failures : List FailureRecord) :
    Except Fault (List Pattern) := do
  let low ← lowSuccessRate py executions
  return (repeatedFailures py failures ++ highLatency py executions ++ low).insertionSort
    (patternKey py · ≤ patternKey py ·)

end Detection

/-! ### Adaptations -/

section Adaptations

/-- What an adaptation is called after. -/
inductive Rule where
  | retry
  | guard
  | timeout
  | strategy
  | policy
  deriving DecidableEq

def Rule.text : Rule → String
  | retry => "retry"
  | guard => "guard"
  | timeout => "timeout"
  | strategy => "strategy"
  | policy => "policy"

def adaptationId (rule : Rule) (patternId : String) : String :=
  "adapt-" ++ rule.text ++ "-" ++ patternId

/-- An adaptation of a rule, with a share of the confidence in the pattern. -/
def adaptation (rule : Rule) (pattern : Pattern) (description expectedEffect : String)
    (actionType : ImprovementType) (target : String) (value : Value) (share : Binary64) :
    SelfImprovementAdaptation where
  adaptationId := adaptationId rule pattern.patternId
  sourcePatternId := pattern.patternId
  description := description
  expectedEffect := expectedEffect
  actionType := actionType
  target := target
  value := value
  confidenceScore := (pattern.confidence * share).round 4

variable (py : Interpreter)

def adaptRepeatedFailure (pattern : Pattern) : List SelfImprovementAdaptation :=
  [adaptation .retry pattern
      ("Increase retry limit to handle repeated error: " ++ pattern.signalValue.text py)
      "Reduce failure rate by retrying transient errors" .adjustPolicy "retry_limit" (.int 3)
      (.ofRat (95 / 100)),
    adaptation .guard pattern
      ("Tighten policy guard for error class: " ++ pattern.signalValue.text py)
      "Prevent recurrence by enforcing stricter precondition checks" .increaseConfidence
      "policy_gate" (.str "strict") (.ofRat (85 / 100))]

/-- `int(x)` of a signal. -/
def Signal.toInt : Signal → Except Fault ℤ
  | error text =>
      match (Value.str text).pyInt with
      | some n => .ok n
      | none => .error .valueError
  | number (.finite value _) => .ok (if 0 ≤ value then ⌊value⌋ else ⌈value⌉)
  | number (.infinite _) => .error .overflowError
  | number .nan => .error .valueError

def adaptHighLatency (pattern : Pattern) : Except Fault (List SelfImprovementAdaptation) := do
  let value ← pattern.signalValue.toInt
  return [adaptation .timeout pattern "Reduce timeout threshold based on high-latency signal"
    "Fail fast on slow steps instead of waiting for full timeout" .changeStrategy "timeout"
    (.int value) (.ofRat (9 / 10))]

def adaptLowSuccessRate (pattern : Pattern) : List SelfImprovementAdaptation :=
  [adaptation .strategy pattern "Switch execution strategy due to low success rate"
      "Improve completion ratio by using a more conservative strategy" .changeStrategy
      "execution_strategy" (.str "conservative") (.ofRat (9 / 10)),
    adaptation .policy pattern
      "Adjust policy confidence threshold to filter low-quality plans"
      "Reduce acceptance of plans likely to fail" .adjustPolicy "confidence_threshold"
      (.float 8 (-1)) (.ofRat (8 / 10))]

def adapt (pattern : Pattern) : Except Fault (List SelfImprovementAdaptation) :=
  match pattern.kind with
  | .repeatedFailure => .ok (adaptRepeatedFailure py pattern)
  | .highLatency => adaptHighLatency pattern
  | .lowSuccessRate => .ok (adaptLowSuccessRate pattern)

def generate (patterns : List Pattern) : Except Fault (List SelfImprovementAdaptation) := do
  let adaptations ← patterns.mapM (adapt py)
  return adaptations.flatten.insertionSort
    (SelfImprovementAdaptation.sortKey · ≤ SelfImprovementAdaptation.sortKey ·)

end Adaptations

/-! ### Recurring errors -/

theorem get?_counts (keys : List String) (k : String) :
    (counts keys).get? k = if k ∈ keys then some (keys.count k) else none :=
  Dict.get?_tally keys k

/-- An error that occurs at least twice. -/
def Recurs (failures : List FailureRecord) (error : String) : Prop :=
  2 ≤ (errorsOf failures).count error

/-- The errors that recur, in order. -/
def recurring (failures : List FailureRecord) : List String :=
  ((sortedCounts (errorsOf failures)).filter fun entry => 2 ≤ entry.2).map Prod.fst

theorem mem_sortedCounts_iff {keys : List String} {k : String} {n : ℕ} :
    (k, n) ∈ sortedCounts keys ↔ k ∈ keys ∧ n = keys.count k := by
  rw [sortedCounts, List.mem_insertionSort, Dict.mem_entries_iff, get?_counts]
  split
  · rename_i hmem
    simp [hmem, eq_comm]
  · rename_i hnot
    simp [hnot]

theorem mem_recurring_iff {failures : List FailureRecord} {error : String} :
    error ∈ recurring failures ↔ Recurs failures error := by
  simp only [recurring, List.mem_map, List.mem_filter, Prod.exists, mem_sortedCounts_iff,
    decide_eq_true_eq, Recurs]
  constructor
  · rintro ⟨_, _, ⟨⟨-, rfl⟩, hcount⟩, rfl⟩
    exact hcount
  · intro hcount
    exact ⟨error, _, ⟨⟨List.count_pos_iff.1 (by omega), rfl⟩, hcount⟩, rfl⟩

theorem nodup_recurring (failures : List FailureRecord) : (recurring failures).Nodup := by
  have hperm : ((sortedCounts (errorsOf failures)).map Prod.fst).Perm
      (counts (errorsOf failures)).keys := (List.perm_insertionSort _ _).map _
  have hnodup := hperm.nodup_iff.2 (counts (errorsOf failures)).nodup
  exact hnodup.sublist (List.filter_sublist.map _)

variable {py : Interpreter}

def errorPatternId (py : Interpreter) (error : String) : String :=
  "pattern-repeated-failure-" ++ slug py error

theorem patternId_repeatedFailure (entry : String × ℕ) :
    (repeatedFailure py entry.1 entry.2).map Pattern.patternId
      = if 2 ≤ entry.2 then some (errorPatternId py entry.1) else none := by
  rw [repeatedFailure]
  by_cases hfew : entry.2 < 2
  · rw [if_pos hfew, if_neg (by omega)]
    rfl
  · rw [if_neg hfew, if_pos (by omega)]
    rfl

theorem patternIds_repeatedFailures (failures : List FailureRecord) :
    (repeatedFailures py failures).map Pattern.patternId
      = (recurring failures).map (errorPatternId py) := by
  rw [repeatedFailures, recurring, List.map_map, List.map_filterMap]
  induction sortedCounts (errorsOf failures) with
  | nil => rfl
  | cons entry rest ih =>
      rw [List.filterMap_cons, patternId_repeatedFailure, List.filter_cons]
      by_cases hmany : 2 ≤ entry.2
      · simp [hmany, ih]
      · simp [hmany, ih]

/-! ### Pattern ids -/

/-- The id of a pattern is the one of its kind. -/
def Pattern.Named (pattern : Pattern) : Prop :=
  match pattern.kind with
  | .repeatedFailure => ∃ error, pattern.patternId = "pattern-repeated-failure-" ++ error
  | .highLatency => pattern.patternId = "pattern-high-latency"
  | .lowSuccessRate => pattern.patternId = "pattern-low-success-rate"

/-- The first letter behind `pattern-` tells the kind. -/
theorem Pattern.Named.letter {pattern : Pattern} (h : pattern.Named) :
    pattern.patternId.toList[8]? = some (match pattern.kind with
      | .repeatedFailure => 'r'
      | .highLatency => 'h'
      | .lowSuccessRate => 'l') := by
  rw [Pattern.Named] at h
  cases hkind : pattern.kind <;> rw [hkind] at h
  · obtain ⟨error, hid⟩ := h
    rw [hid, String.toList_append]
    rfl
  · rw [h]
    rfl
  · rw [h]
    rfl

theorem Pattern.Named.kind_eq {p q : Pattern} (hp : p.Named) (hq : q.Named)
    (hid : p.patternId = q.patternId) : p.kind = q.kind := by
  have hletter := hp.letter
  rw [hid, hq.letter, Option.some.injEq] at hletter
  cases hpkind : p.kind <;> cases hqkind : q.kind <;> rw [hpkind, hqkind] at hletter <;>
    first | rfl | exact absurd hletter (by decide)

def AtMostOne (kind : PatternKind) (patterns : List Pattern) : Prop :=
  patterns = [] ∨ ∃ pattern, patterns = [pattern] ∧ pattern.kind = kind ∧ pattern.Named

theorem AtMostOne.named {kind : PatternKind} {patterns : List Pattern} (h : AtMostOne kind patterns) :
    ∀ p ∈ patterns, p.Named ∧ p.kind = kind := by
  intro p hp
  rcases h with rfl | ⟨pattern, rfl, hkind, hnamed⟩
  · exact absurd hp List.not_mem_nil
  · obtain rfl := List.mem_singleton.1 hp
    exact ⟨hnamed, hkind⟩

theorem highLatency_atMostOne (executions : List ExecutionRecord) :
    AtMostOne .highLatency (highLatency py executions) := by
  unfold highLatency
  dsimp only
  split
  · exact .inl rfl
  · exact .inr ⟨_, rfl, rfl, rfl⟩

theorem lowSuccessRate_atMostOne {executions : List ExecutionRecord} {low : List Pattern}
    (h : lowSuccessRate py executions = .ok low) : AtMostOne .lowSuccessRate low := by
  unfold lowSuccessRate at h
  split at h
  · cases h
    exact .inl rfl
  · obtain ⟨rates, -, h⟩ := except_bind_eq_ok_iff.1 h
    dsimp only at h
    split at h
    · cases h
      exact .inl rfl
    · cases h
      exact .inr ⟨_, rfl, rfl, rfl⟩

theorem repeatedFailures_named (failures : List FailureRecord) :
    ∀ p ∈ repeatedFailures py failures, p.Named ∧ p.kind = .repeatedFailure := by
  intro p hp
  obtain ⟨entry, -, hpattern⟩ := List.mem_filterMap.1 hp
  rw [repeatedFailure] at hpattern
  split at hpattern
  · cases hpattern
  · obtain rfl := Option.some.inj hpattern
    exact ⟨⟨_, rfl⟩, rfl⟩

theorem named_of_kind_ne {kind other : PatternKind} {patterns : List Pattern} (hne : kind ≠ other)
    (h : ∀ p ∈ patterns, p.Named ∧ p.kind = kind) : ∀ p ∈ patterns, p.Named ∧ p.kind ≠ other := by
  intro p hp
  obtain ⟨hnamed, hkind⟩ := h p hp
  exact ⟨hnamed, hkind ▸ hne⟩

/-- A pattern of a kind of its own leaves the ids distinct. -/
theorem nodup_patternIds_append {kind : PatternKind} {patterns more : List Pattern}
    (h : ∀ p ∈ patterns, p.Named ∧ p.kind ≠ kind) (hmore : AtMostOne kind more) :
    ((patterns ++ more).map Pattern.patternId).Nodup ↔ (patterns.map Pattern.patternId).Nodup := by
  rcases hmore with rfl | ⟨q, rfl, hkind, hnamed⟩
  · rw [List.append_nil]
  · rw [List.map_append, List.map_singleton, List.nodup_append]
    refine and_iff_left_of_imp fun _ => ⟨List.nodup_singleton _, fun a ha b hb => ?_⟩
    obtain ⟨p, hp, rfl⟩ := List.mem_map.1 ha
    obtain rfl := List.mem_singleton.1 hb
    exact fun hid => (h p hp).2 (((h p hp).1.kind_eq hnamed hid).trans hkind)

/-- What a detection returns. -/
structure Detected (py : Interpreter) (failures : List FailureRecord) (patterns : List Pattern) :
    Prop where
  named : ∀ p ∈ patterns, p.Named
  nodup_iff : (patterns.map Pattern.patternId).Nodup
    ↔ ((recurring failures).map (errorPatternId py)).Nodup

theorem detected_of_detect {executions : List ExecutionRecord} {failures : List FailureRecord}
    {patterns : List Pattern} (h : detect py executions failures = .ok patterns) :
    Detected py failures patterns := by
  obtain ⟨low, hlow, h⟩ := except_bind_eq_ok_iff.1 h
  cases h
  have hhigh : AtMostOne .highLatency (highLatency py executions) := highLatency_atMostOne executions
  have hlow := lowSuccessRate_atMostOne hlow
  have herrors : ∀ p ∈ repeatedFailures py failures, p.Named ∧ p.kind = .repeatedFailure :=
    repeatedFailures_named failures
  have hfirst := named_of_kind_ne (show PatternKind.repeatedFailure ≠ .highLatency by decide) herrors
  have hboth : ∀ p ∈ repeatedFailures py failures ++ highLatency py executions,
      p.Named ∧ p.kind ≠ .lowSuccessRate := by
    rw [List.forall_mem_append]
    exact ⟨named_of_kind_ne (by decide) herrors, named_of_kind_ne (by decide) hhigh.named⟩
  constructor
  · intro p hp
    rcases List.mem_append.1 ((List.mem_insertionSort _).1 hp) with hp | hp
    · exact (hboth p hp).1
    · exact (hlow.named p hp).1
  · rw [((List.perm_insertionSort _ _).map _).nodup_iff, nodup_patternIds_append hboth hlow,
      nodup_patternIds_append hfirst hhigh, patternIds_repeatedFailures]

/-! ### Adaptation ids -/

theorem Rule.text_letter_injective {r r' : Rule}
    (h : r.text.toList.head? = r'.text.toList.head?) : r = r' := by
  cases r <;> cases r' <;> first | rfl | exact absurd h (by decide)

theorem adaptationId_injective {r r' : Rule} {id id' : String}
    (h : adaptationId r id = adaptationId r' id') : r = r' ∧ id = id' := by
  have htext := congrArg String.toList h
  simp only [adaptationId, String.toList_append, List.append_assoc] at htext
  have hrest := List.append_cancel_left htext
  have hrule : r = r' := by
    apply Rule.text_letter_injective
    have hhead := congrArg List.head? hrest
    cases r <;> cases r' <;> exact hhead
  subst hrule
  exact ⟨rfl, String.toList_inj.1 (List.append_cancel_left (List.append_cancel_left hrest))⟩

def rulesFor : PatternKind → List Rule
  | .repeatedFailure => [.retry, .guard]
  | .highLatency => [.timeout]
  | .lowSuccessRate => [.strategy, .policy]

/-- The id of an adaptation, and the one of the pattern that it comes from. -/
def SelfImprovementAdaptation.ids (adaptation : SelfImprovementAdaptation) : String × String :=
  (adaptation.adaptationId, adaptation.sourcePatternId)

def Pattern.adaptationIds (pattern : Pattern) : List (String × String) :=
  (rulesFor pattern.kind).map fun rule => (adaptationId rule pattern.patternId, pattern.patternId)

theorem ids_of_adapt {pattern : Pattern} {adaptations : List SelfImprovementAdaptation}
    (h : adapt py pattern = .ok adaptations) :
    adaptations.map SelfImprovementAdaptation.ids = pattern.adaptationIds := by
  rw [adapt] at h
  rw [Pattern.adaptationIds]
  cases hkind : pattern.kind <;> rw [hkind] at h
  · cases h
    rfl
  · obtain ⟨value, -, h⟩ := except_bind_eq_ok_iff.1 h
    cases h
    rfl
  · cases h
    rfl

theorem ids_of_mapM {patterns : List Pattern} {lists : List (List SelfImprovementAdaptation)}
    (h : patterns.mapM (adapt py) = .ok lists) :
    lists.flatten.map SelfImprovementAdaptation.ids = patterns.flatMap Pattern.adaptationIds := by
  have hids : patterns.map Pattern.adaptationIds
      = lists.map fun adaptations => adaptations.map SelfImprovementAdaptation.ids :=
    map_eq_of_paired (mapM_eq_ok_iff.1 h) fun _ _ hadapt => (ids_of_adapt hadapt).symm
  rw [List.map_flatten, List.flatMap, hids]

/-- **What a generation returns**, by its ids. -/
theorem ids_of_generate {patterns : List Pattern} {adaptations : List SelfImprovementAdaptation}
    (h : generate py patterns = .ok adaptations) :
    (adaptations.map SelfImprovementAdaptation.ids).Perm
      (patterns.flatMap Pattern.adaptationIds) := by
  obtain ⟨lists, hlists, h⟩ := except_bind_eq_ok_iff.1 h
  cases h
  rw [← ids_of_mapM hlists]
  exact (List.perm_insertionSort _ _).map _

theorem nodup_adaptationIds_of_pattern (pattern : Pattern) :
    (pattern.adaptationIds.map Prod.fst).Nodup := by
  rw [Pattern.adaptationIds, List.map_map]
  refine List.Nodup.map (fun r r' h => (adaptationId_injective h).1) ?_
  cases pattern.kind <;> decide

theorem rulesFor_ne_nil (kind : PatternKind) : rulesFor kind ≠ [] := by
  cases kind <;> exact List.cons_ne_nil _ _

/-- Patterns share an adaptation id only if they share their own. -/
theorem disjoint_adaptationIds_iff {p q : Pattern} (hp : p.Named) (hq : q.Named) :
    List.Disjoint (p.adaptationIds.map Prod.fst) (q.adaptationIds.map Prod.fst)
      ↔ p.patternId ≠ q.patternId := by
  simp only [Pattern.adaptationIds, List.map_map]
  constructor
  · intro hdisjoint hid
    obtain ⟨rule, hrule⟩ := List.exists_mem_of_ne_nil _ (rulesFor_ne_nil p.kind)
    refine hdisjoint (List.mem_map.2 ⟨rule, hrule, rfl⟩) ?_
    rw [← hp.kind_eq hq hid, ← hid]
    exact List.mem_map.2 ⟨rule, hrule, rfl⟩
  · rintro hid a ha hb
    obtain ⟨rule, -, rfl⟩ := List.mem_map.1 ha
    obtain ⟨rule', -, hsame⟩ := List.mem_map.1 hb
    exact hid (adaptationId_injective hsame).2.symm

theorem nodup_adaptationIds_iff {patterns : List Pattern} (h : ∀ p ∈ patterns, p.Named) :
    ((patterns.flatMap Pattern.adaptationIds).map Prod.fst).Nodup
      ↔ (patterns.map Pattern.patternId).Nodup := by
  rw [List.map_flatMap, List.nodup_flatMap,
    and_iff_right fun p _ => nodup_adaptationIds_of_pattern p]
  show _ ↔ List.Pairwise (· ≠ ·) (patterns.map Pattern.patternId)
  rw [List.pairwise_map]
  exact List.Pairwise.iff_of_mem fun hp hq => disjoint_adaptationIds_iff (h _ hp) (h _ hq)

/-- The adaptations have distinct ids, and each comes from one of the patterns. -/
structure Traceable (patterns : List Pattern) (adaptations : List SelfImprovementAdaptation) :
    Prop where
  nodup : (adaptations.map SelfImprovementAdaptation.adaptationId).Nodup
  source : ∀ a ∈ adaptations, patterns.countP (·.patternId = a.sourcePatternId) = 1

theorem traceable_of_nodup {patterns : List Pattern} {adaptations : List SelfImprovementAdaptation}
    (hnamed : ∀ p ∈ patterns, p.Named) (hnodup : (patterns.map Pattern.patternId).Nodup)
    (h : generate py patterns = .ok adaptations) : Traceable patterns adaptations := by
  have hperm := ids_of_generate h
  constructor
  · have hids := (hperm.map Prod.fst).nodup_iff.2 ((nodup_adaptationIds_iff hnamed).2 hnodup)
    rwa [List.map_map] at hids
  · intro a ha
    have hmem := hperm.mem_iff.1 (List.mem_map_of_mem ha)
    obtain ⟨p, hp, hids⟩ := List.mem_flatMap.1 hmem
    obtain ⟨rule, -, hsame⟩ := List.mem_map.1 hids
    have hsource : a.sourcePatternId ∈ patterns.map Pattern.patternId :=
      List.mem_map.2 ⟨p, hp, congrArg Prod.snd hsame⟩
    have hcount := List.count_eq_one_of_mem hnodup hsource
    rw [List.count, List.countP_map] at hcount
    rw [← hcount]
    exact List.countP_congr fun q _ => by simp

/-- **When the ids of patterns and adaptations are distinct.** -/
theorem detect_ids_distinct_iff {executions : List ExecutionRecord} {failures : List FailureRecord}
    {patterns : List Pattern} (h : detect py executions failures = .ok patterns) :
    (patterns.map Pattern.patternId).Nodup
        ∧ (∀ adaptations, generate py patterns = .ok adaptations → Traceable patterns adaptations)
      ↔ ∀ a b, Recurs failures a → Recurs failures b → slug py a = slug py b → a = b := by
  have hdetected := detected_of_detect h
  have hslugs : ((recurring failures).map (errorPatternId py)).Nodup
      ↔ ∀ a b, Recurs failures a → Recurs failures b → slug py a = slug py b → a = b := by
    have hid : ∀ a b, errorPatternId py a = errorPatternId py b ↔ slug py a = slug py b :=
      fun _ _ => String.append_right_inj _
    rw [List.nodup_map_iff_inj_on (nodup_recurring failures)]
    simp only [mem_recurring_iff, hid]
    exact ⟨fun hall a b ha hb => hall a ha b hb, fun hall a ha b hb => hall a b ha hb⟩
  rw [← hslugs, ← hdetected.nodup_iff]
  exact and_iff_left_of_imp fun hnodup adaptations =>
    traceable_of_nodup hdetected.named hnodup

/-! ### Errors that differ in a hyphen -/

def asciiInterpreter : Interpreter where
  lower := lower
  isalnum := Char.isAlphanum
  floatText _ := ""
  percent _ := ""
  sum values := values.foldl (· + ·) 0

def failurePatterns (failures : List FailureRecord) : List Pattern :=
  (repeatedFailures asciiInterpreter failures ++ [] ++ []).insertionSort
    (patternKey asciiInterpreter · ≤ patternKey asciiInterpreter ·)

def timeoutFailures : List FailureRecord :=
  [⟨"timeout"⟩, ⟨"Disk full"⟩, ⟨" timeout"⟩, ⟨"Disk full"⟩]

/-- Two errors that recur, with an id for each. -/
theorem timeout_ids_distinct_iff :
    ((failurePatterns timeoutFailures).map Pattern.patternId).Nodup
      ∧ ∀ adaptations, generate asciiInterpreter (failurePatterns timeoutFailures) = .ok adaptations →
        Traceable (failurePatterns timeoutFailures) adaptations := by
  have hdetect : detect asciiInterpreter [] timeoutFailures
      = .ok (failurePatterns timeoutFailures) := rfl
  refine (detect_ids_distinct_iff hdetect).2 fun a b ha hb hslug => ?_
  have hrecurring : recurring timeoutFailures = ["Disk full", "timeout"] := by decide +kernel
  have hdifferent : slug asciiInterpreter "Disk full" ≠ slug asciiInterpreter "timeout" := by
    decide +kernel
  rw [← mem_recurring_iff, hrecurring, List.mem_pair] at ha hb
  rcases ha with rfl | rfl
  · rcases hb with rfl | rfl
    · rfl
    · exact absurd hslug hdifferent
  · rcases hb with rfl | rfl
    · exact absurd hslug.symm hdifferent
    · rfl

def diskFailures : List FailureRecord :=
  [⟨"Disk full"⟩, ⟨"disk-full"⟩, ⟨"Disk full"⟩, ⟨"disk-full"⟩]

/-- Two errors that recur, and one id for their patterns. -/
theorem diskFailures_not_distinct :
    detect asciiInterpreter [] diskFailures = .ok (failurePatterns diskFailures)
      ∧ ¬ ((failurePatterns diskFailures).map Pattern.patternId).Nodup := by
  have hdetect : detect asciiInterpreter [] diskFailures = .ok (failurePatterns diskFailures) := rfl
  refine ⟨hdetect, ?_⟩
  rw [(detected_of_detect hdetect).nodup_iff]
  decide +kernel

end PersonalDevin.SelfImprovement.Patterns
