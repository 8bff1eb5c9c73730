import PersonalDevin.Agent.Runs

/-!
# Credit for recovery strategies

The statistics book every turn under the decision it took, and a successful turn takes `advance_step`.
So a strategy that recovers from a failure is charged with the failed turn, and the success it led to
is booked elsewhere: over a recovery its successes stay what they were.
-/

namespace PersonalDevin.Agent

open Lib

variable {F : Type} [ScoreArith F]

theorem Strategies.entry_update (strategies : Strategies F) (pattern : String) (decision : Decision)
    (success : Bool) (pattern' : String) (decision' : Decision) :
    (strategies.update pattern decision success).entry pattern' decision'
      = if pattern' = pattern ∧ decision' = decision
        then (strategies.entry pattern decision).attempt decision success
        else strategies.entry pattern' decision' := by
  rw [Strategies.update, Strategies.entry, Strategies.entry?_put]
  split
  · rfl
  · rfl

theorem successes_of_failed {turn : Turn F} (hsaved : TurnSaved turn) (hfailed : turn.success = false)
    (pattern : String) (decision : Decision) :
    (turn.after.entry pattern decision).successes = (turn.before.entry pattern decision).successes := by
  rw [hsaved.after_eq, Strategies.entry_update, hfailed]
  split
  · rename_i heq
    rw [heq.1, heq.2]
    rfl
  · rfl

/-- A successful turn credits `advance_step` and no other strategy. -/
theorem successes_of_succeeded {turn : Turn F} (hsaved : TurnSaved turn)
    (hsuccess : turn.success = true) (pattern : String) {decision : Decision}
    (hdecision : decision ≠ .advanceStep) :
    (turn.after.entry pattern decision).successes = (turn.before.entry pattern decision).successes := by
  rw [hsaved.after_eq, Strategies.entry_update, hsaved.advance hsuccess, if_neg fun h => hdecision h.2]

/-- A failed turn with a recovery decision, and a successful turn after it. -/
def Recovered (first second : Turn F) : Prop :=
  first.success = false ∧ first.decision ∈ [.retrySame, .adjustPlan, .repairStep]
    ∧ second.success = true

instance (first second : Turn F) : Decidable (Recovered first second) :=
  inferInstanceAs (Decidable (_ ∧ _ ∧ _))

/-- Over both turns the decision of the first has gained a success under its error pattern. -/
def Credited (first second : Turn F) : Prop :=
  (first.before.entry first.pattern first.decision).successes
    < (second.after.entry first.pattern first.decision).successes

instance (first second : Turn F) : Decidable (Credited first second) :=
  inferInstanceAs (Decidable (_ < _))

def CreditKept (trace : List (Event F)) : Prop :=
  (turnsOf trace).IsChain fun first second => Recovered first second → Credited first second

def NoRecovery (trace : List (Event F)) : Prop :=
  (turnsOf trace).IsChain fun first second => ¬ Recovered first second

instance (trace : List (Event F)) : Decidable (CreditKept trace) :=
  inferInstanceAs (Decidable ((turnsOf trace).IsChain _))

theorem not_credited {first second : Turn F} (h : Follows first second)
    (hrecovered : Recovered first second) : ¬ Credited first second := by
  obtain ⟨hfailed, hdecision, hsuccess⟩ := hrecovered
  have hother : first.decision ≠ .advanceStep := by
    intro heq
    rw [heq] at hdecision
    exact absurd hdecision (by decide)
  rw [Credited, successes_of_succeeded h.second_saved hsuccess _ hother, ← h.linked,
    successes_of_failed h.first_saved hfailed]
  exact Nat.lt_irrefl _

/-- **Recoveries are credited exactly in the runs that have none.** -/
theorem run_creditKept_iff {σ : Type} (env : Env σ) (config : Config) (strategies : Strategies F)
    (world : σ) (goal : String) :
    CreditKept (run env config strategies world goal).1
      ↔ NoRecovery (run env config strategies world goal).1 := by
  have hchain := (run_turns env config strategies world goal).chain
  constructor
  · intro hcredit
    apply List.isChain_iff_getElem.2
    intro i hi hrecovered
    exact not_credited (hchain.getElem i hi) hrecovered (hcredit.getElem i hi hrecovered)
  · exact fun hnone => hnone.imp fun first second hnot hrecovered => absurd hrecovered hnot

/-- A retry that works, and still has no success to its name. -/
theorem retry_not_credited :
    ¬ CreditKept (run (F := ℚ) (scriptedEnv twoSteps) defaultConfig .empty
      [failsWith "runtime_error", succeeds, succeeds] "goal").1 := by
  decide +kernel

end PersonalDevin.Agent
