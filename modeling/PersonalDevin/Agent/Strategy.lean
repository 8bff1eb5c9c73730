import PersonalDevin.Lib.Dict
import PersonalDevin.Value
import Mathlib.Algebra.Order.Field.Rat

/-!
# Decisions and strategy statistics

How the loop controller decides after a failed step: the candidates, their scores from the statistics
it has learned, and the update of these statistics. The scores are floats in the source. Nothing that
is proved depends on their arithmetic, so it is a parameter, with floats as the instance of the source
and the rationals as the instance to compute with.
-/

namespace PersonalDevin.Agent

open Lib (Dict)

inductive Decision where
  | retrySame
  | adjustPlan
  | repairStep
  | abort
  | escalate
  | advanceStep
  deriving DecidableEq

namespace Decision

def text : Decision → String
  | retrySame => "retry_same"
  | adjustPlan => "adjust_plan"
  | repairStep => "repair_step"
  | abort => "abort"
  | escalate => "escalate"
  | advanceStep => "advance_step"

def ofText (text : String) : Option Decision :=
  [retrySame, adjustPlan, repairStep, abort, escalate, advanceStep].find? (·.text = text)

/-- `_decision_rank`. -/
def rank : Decision → ℕ
  | repairStep => 0
  | adjustPlan => 0
  | retrySame => 1
  | abort => 2
  | escalate => 3
  | advanceStep => 4

/-- The table `prior` of `_decision_score`, in hundredths. -/
def prior : Decision → ℕ
  | retrySame => 60
  | adjustPlan => 55
  | repairStep => 58
  | abort => 20
  | escalate => 10
  | advanceStep => 90

end Decision

/-- The arithmetic of the scores: the decimals written in the source, integers converted to floats,
the operations and the comparison. -/
class ScoreArith (F : Type) where
  hundredths : ℕ → F
  ofNat : ℕ → F
  add : F → F → F
  sub : F → F → F
  mul : F → F → F
  div : F → F → F
  less : F → F → Bool

instance : ScoreArith Float where
  hundredths n := Float.ofScientific n true 2
  ofNat := Float.ofNat
  add := (· + ·)
  sub := (· - ·)
  mul := (· * ·)
  div := (· / ·)
  less a b := a < b

instance : ScoreArith ℚ where
  hundredths n := n / 100
  ofNat n := n
  add := (· + ·)
  sub := (· - ·)
  mul := (· * ·)
  div := (· / ·)
  less a b := a < b

section Scores

variable {F : Type} [ScoreArith F]

open ScoreArith

/-- `min(a, b)`. -/
def minScore (a b : F) : F := if less b a then b else a

/-- `max(a, b)`. -/
def maxScore (a b : F) : F := if less a b then b else a

structure StrategyStats (F : Type) where
  attempts : ℕ
  successes : ℕ
  successRate : F
  confidence : F

/-- The entry a strategy starts with, and what `_decision_score` takes for a missing one. -/
def StrategyStats.initial : StrategyStats F where
  attempts := 0
  successes := 0
  successRate := hundredths 0
  confidence := hundredths 100

def updateConfidence (current : F) (decision : Decision) (success : Bool) : F :=
  if success then minScore (hundredths 200) (add current (hundredths 10))
  else
    let penalty := match decision with
      | .retrySame => hundredths 20
      | .repairStep => hundredths 5
      | _ => hundredths 10
    maxScore (hundredths 10) (sub current penalty)

def StrategyStats.attempt (stats : StrategyStats F) (decision : Decision) (success : Bool) :
    StrategyStats F :=
  let attempts := stats.attempts + 1
  let successes := if success then stats.successes + 1 else stats.successes
  { attempts
    successes
    successRate := if 0 < attempts then div (ofNat successes) (ofNat attempts) else hundredths 0
    confidence := updateConfidence stats.confidence decision success }

/-- `strategy_stats`: by error pattern, then by decision. -/
abbrev Strategies (F : Type) := Dict String (Dict Decision (StrategyStats F))

def Strategies.entry? (strategies : Strategies F) (pattern : String) (decision : Decision) :
    Option (StrategyStats F) :=
  (strategies.getD pattern .empty).get? decision

def Strategies.entry (strategies : Strategies F) (pattern : String) (decision : Decision) :
    StrategyStats F :=
  (strategies.entry? pattern decision).getD .initial

def Strategies.put (strategies : Strategies F) (pattern : String) (decision : Decision)
    (stats : StrategyStats F) : Strategies F :=
  strategies.set pattern ((strategies.getD pattern .empty).set decision stats)

/-- `_update_strategy_stats`. -/
def Strategies.update (strategies : Strategies F) (pattern : String) (decision : Decision)
    (success : Bool) : Strategies F :=
  strategies.put pattern decision ((strategies.entry pattern decision).attempt decision success)

omit [ScoreArith F] in
theorem Strategies.entry?_put (strategies : Strategies F) (pattern : String) (decision : Decision)
    (stats : StrategyStats F) (pattern' : String) (decision' : Decision) :
    Strategies.entry? (strategies.put pattern decision stats) pattern' decision'
      = if pattern' = pattern ∧ decision' = decision then some stats
        else strategies.entry? pattern' decision' := by
  simp only [Strategies.put, Strategies.entry?, Dict.getD, Dict.get?_set]
  by_cases hpattern : pattern' = pattern
  · by_cases hdecision : decision' = decision
    · simp [hpattern, hdecision]
    · simp [hpattern, hdecision, Dict.get?_set]
  · simp [hpattern]

/-! ### Statistics from memory -/

/-- `str(x or "")`. -/
def textOrEmpty (value : Option Value) : String :=
  match value with
  | some v => if v.truthy then v.pyStr else ""
  | none => ""

/-- One record of `_build_strategy_stats_from_context`. -/
def learnRecord (strategies : Strategies F) : Value → Strategies F
  | .dict record =>
      let pattern := match Fields.get? record "classification" with
        | some (.dict classification) =>
            ((Fields.get? classification "error_type").getD (.str "none")).pyStr
        | _ => "none"
      match Decision.ofText ((Fields.get? record "decision").getD (.str "")).pyStr with
      | none => strategies
      | some decision =>
          strategies.update pattern decision ((Fields.get? record "success").getD (.bool false)).truthy
  | _ => strategies

/-- `_build_strategy_stats_from_context`. -/
def buildStrategyStats (context : Fields) : Strategies F :=
  match (context.get? "recent").getD (.list []) with
  | .list recent => recent.foldl learnRecord .empty
  | _ => .empty

/-- `_merge_strategy_stats`: an entry that is there already stays. -/
def Strategies.merge (strategies incoming : Strategies F) : Strategies F :=
  incoming.entries.foldl (fun strategies (pattern, decisionMap) =>
    decisionMap.entries.foldl (fun strategies (decision, stats) =>
      match strategies.entry? pattern decision with
      | some _ => strategies
      | none => strategies.put pattern decision stats)
      (strategies.set pattern (strategies.getD pattern .empty))) strategies

/-! ### The choice of a decision -/

def countRecentPatternFailures (context : Fields) (pattern : String) (decision : Decision) : ℕ :=
  match (context.get? "recent_failures").getD (.list []) with
  | .list recent => recent.countP fun record =>
      match record with
      | .dict record => textOrEmpty (Fields.get? record "strategy_pattern") = pattern
          ∧ textOrEmpty (Fields.get? record "decision") = decision.text
      | _ => false
  | _ => 0

def decisionScore (strategies : Strategies F) (failureThreshold : ℤ) (attemptCount : ℕ)
    (pattern : String) (decision : Decision) : F :=
  let stats := strategies.entry pattern decision
  let attemptsPenalty := minScore (mul (ofNat stats.attempts) (hundredths 2)) (hundredths 20)
  let successBonus := minScore (mul (ofNat stats.successes) (hundredths 3)) (hundredths 30)
  let confidence :=
    if decision = .retrySame ∧ failureThreshold ≤ attemptCount then
      maxScore (hundredths 10) (sub stats.confidence (hundredths 25))
    else stats.confidence
  sub (add (add (hundredths decision.prior) (mul stats.successRate confidence)) successBonus)
    attemptsPenalty

/-- `(-score, rank)` of the first is below that of the second. -/
def scoredBefore (a b : F × Decision) : Bool :=
  less b.1 a.1 || (!less a.1 b.1 && a.2.rank < b.2.rank)

/-- The head of the sorted list: the first of the least. -/
def bestScored (best : F × Decision) : List (F × Decision) → F × Decision
  | [] => best
  | scored :: rest => bestScored (if scoredBefore scored best then scored else best) rest

/-- The candidates of `_select_best_decision`; repeated failures of `retry_same` put it last. -/
def candidates (context : Fields) (pattern : String) (retryable : Bool) : List Decision :=
  if pattern = "invalid_plan" then [.adjustPlan, .abort]
  else if retryable then
    if 2 ≤ countRecentPatternFailures context pattern .retrySame then
      [.adjustPlan, .abort, .retrySame]
    else [.retrySame, .adjustPlan, .abort]
  else [.adjustPlan, .abort]

def selectBestDecision (strategies : Strategies F) (failureThreshold : ℤ) (attemptCount : ℕ)
    (context : Fields) (pattern : String) (retryable : Bool) : Decision :=
  let scored := (candidates context pattern retryable).map fun candidate =>
    (decisionScore strategies failureThreshold attemptCount pattern candidate, candidate)
  match scored with
  | [] => .abort
  | first :: rest => (bestScored first rest).2

theorem bestScored_mem (best : F × Decision) (rest : List (F × Decision)) :
    bestScored best rest ∈ best :: rest := by
  induction rest generalizing best with
  | nil => exact List.mem_cons_self
  | cons scored rest ih =>
      rw [bestScored]
      rcases List.mem_cons.1 (ih (if scoredBefore scored best then scored else best)) with heq | hmem
      · rw [heq]
        split
        · exact List.mem_cons_of_mem _ List.mem_cons_self
        · exact List.mem_cons_self
      · exact List.mem_cons_of_mem _ (List.mem_cons_of_mem _ hmem)

theorem candidates_ne_nil (context : Fields) (pattern : String) (retryable : Bool) :
    candidates context pattern retryable ≠ [] := by
  unfold candidates
  split_ifs <;> exact List.cons_ne_nil _ _

theorem selectBestDecision_mem (strategies : Strategies F) (failureThreshold : ℤ) (attemptCount : ℕ)
    (context : Fields) (pattern : String) (retryable : Bool) :
    selectBestDecision strategies failureThreshold attemptCount context pattern retryable
      ∈ candidates context pattern retryable := by
  obtain ⟨first, rest, hcandidates⟩ := List.exists_cons_of_ne_nil
    (candidates_ne_nil context pattern retryable)
  rw [selectBestDecision, hcandidates]
  have hmem := List.mem_map_of_mem (f := Prod.snd) (bestScored_mem
    (decisionScore strategies failureThreshold attemptCount pattern first, first)
    (rest.map fun candidate =>
      (decisionScore strategies failureThreshold attemptCount pattern candidate, candidate)))
  rw [List.map_cons, List.map_map] at hmem
  simp only [Function.comp_def, List.map_id'] at hmem
  exact hmem

end Scores

end PersonalDevin.Agent
