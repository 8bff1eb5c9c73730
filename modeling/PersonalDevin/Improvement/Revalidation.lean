import PersonalDevin.Improvement.Engine

/-!
# A plan that is validated again

`ImprovementValidator.validate` builds its plan from the actions of the one it is given. The engine
validates what the optimizer proposes, and the loop controller validates the plan that the engine
returns.
-/

namespace PersonalDevin.Improvement

open Lib
open Memory (ImprovementAction Timestamp)

variable {T : Type}

namespace Validator

variable {plan : ImprovementPlan T}

theorem perm_validate (plan : ImprovementPlan T) :
    ((validate plan).actions ++ (validate plan).rejectedActions).Perm plan.actions :=
  List.filter_append_perm isSafe plan.actions

/-- What a plan has to be for validation to leave it as it is. -/
structure Validated (plan : ImprovementPlan T) : Prop where
  safe : ∀ action ∈ plan.actions, isSafe action = true
  rejectedActions : plan.rejectedActions = []
  record : plan.record = none

theorem rejectedActions_eq_nil_iff :
    (validate plan).rejectedActions = [] ↔ ∀ action ∈ plan.actions, isSafe action = true := by
  simp [validate, List.filter_eq_nil_iff]

theorem validate_eq_self_iff : validate plan = plan ↔ Validated plan := by
  constructor
  · intro h
    have hactions : plan.actions.filter isSafe = plan.actions := congrArg ImprovementPlan.actions h
    have hsafe := List.filter_eq_self.1 hactions
    refine ⟨hsafe, ?_, (congrArg ImprovementPlan.record h).symm⟩
    rw [← h]
    exact rejectedActions_eq_nil_iff.2 hsafe
  · intro h
    have hrejected := rejectedActions_eq_nil_iff.2 h.safe
    obtain ⟨version, analysis, patterns, actions, rejectedActions, record⟩ := plan
    obtain ⟨hsafe, rfl, rfl⟩ := h
    rw [ImprovementPlan.mk.injEq]
    exact ⟨rfl, rfl, rfl, List.filter_eq_self.2 hsafe, hrejected, rfl⟩

theorem safe_of_mem_validate {action : ImprovementAction} (h : action ∈ (validate plan).actions) :
    isSafe action = true :=
  (List.mem_filter.1 h).2

/-- Validation comes to rest at once only where it has rejected nothing. -/
theorem validate_validate_iff :
    validate (validate plan) = validate plan ↔ ∀ action ∈ plan.actions, isSafe action = true := by
  rw [validate_eq_self_iff, ← rejectedActions_eq_nil_iff]
  exact ⟨fun h => h.rejectedActions, fun h => ⟨fun _ => safe_of_mem_validate, h, rfl⟩⟩

/-- Every action of the plan is in its validation, and so is the record. -/
structure LosesNothing (plan : ImprovementPlan T) : Prop where
  actions : ((validate plan).actions ++ (validate plan).rejectedActions).Perm
    (plan.actions ++ plan.rejectedActions)
  record : (validate plan).record = plan.record

theorem losesNothing_iff :
    LosesNothing plan ↔ plan.rejectedActions = [] ∧ plan.record = none := by
  constructor
  · intro h
    have hlength := ((perm_validate plan).symm.trans h.actions).length_eq
    rw [List.length_append] at hlength
    exact ⟨List.eq_nil_of_length_eq_zero (by omega), h.record.symm⟩
  · rintro ⟨hrejected, hrecord⟩
    refine ⟨?_, hrecord.symm⟩
    rw [hrejected, List.append_nil]
    exact perm_validate plan

/-- **When validation loses nothing and is idempotent.** -/
theorem validate_lossless_idempotent_iff (plan : ImprovementPlan T) :
    LosesNothing plan ∧ validate (validate plan) = validate plan ↔ Validated plan := by
  rw [losesNothing_iff, validate_validate_iff]
  exact ⟨fun ⟨⟨hrejected, hrecord⟩, hsafe⟩ => ⟨hsafe, hrejected, hrecord⟩,
    fun h => ⟨⟨h.rejectedActions, h.record⟩, h.safe⟩⟩

/-- What the optimizer proposes for repeated failures of a step that is called `core.contract`. -/
def contractAction : ImprovementAction where
  target := "planning.strategy"
  change := "increase_validation_before_execution"
  reason := "execution.core.contract repeated failures"
  actionType := "increase_validation_before_execution"
  sourceSignal := "repeated_failure"

def contractPlan : ImprovementPlan Unit where
  version := "agent-33-v3"
  analysis := Analyzer.analyze []
  patterns := []
  actions := [contractAction]
  rejectedActions := []
  record := none

/-- The first validation rejects the action, and the second one loses it. -/
theorem contract_lost : ¬ (LosesNothing (validate contractPlan)
    ∧ validate (validate (validate contractPlan)) = validate (validate contractPlan))
    ∧ ¬ validate (validate contractPlan) = validate contractPlan := by
  have hcontract : isSafe contractAction = false := by decide +kernel
  have hrejected : (validate contractPlan).rejectedActions = [contractAction] := by
    simp [validate, contractPlan, hcontract]
  constructor
  · rintro ⟨hlost, -⟩
    have hnone := (losesNothing_iff.1 hlost).1
    rw [hrejected] at hnone
    cases hnone
  · rw [validate_validate_iff]
    intro hsafe
    have htrue := hsafe contractAction List.mem_cons_self
    rw [hcontract] at htrue
    cases htrue

end Validator

end PersonalDevin.Improvement
