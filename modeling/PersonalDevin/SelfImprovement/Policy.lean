import PersonalDevin.Lib.KeepBest
import PersonalDevin.Lib.Ranking
import PersonalDevin.SelfImprovement.Patterns

/-!
# The policy for adaptations

`AdaptationPolicy.validate` keeps of the adaptations with one action type and one target the one with the
highest confidence, and rejects all others. Confidences and the threshold are any floats: all of them
are compared as the code compares them, NaN included.
-/

namespace PersonalDevin.SelfImprovement

open Lib
open Patterns (ImprovementType SelfImprovementAdaptation)

structure AdaptationPolicy where
  confidenceThreshold : Binary64
  forbiddenTargets : List String

namespace AdaptationPolicy

/-- The action type and the target, for which one adaptation is kept. -/
def key (adaptation : SelfImprovementAdaptation) : ImprovementType × String :=
  (adaptation.actionType, adaptation.target)

variable (policy : AdaptationPolicy)

/-- Not below the threshold, and with a target that is not forbidden. -/
def admits (candidate : SelfImprovementAdaptation) : Bool :=
  !decide (candidate.confidenceScore < policy.confidenceThreshold)
    && !decide (candidate.target ∈ policy.forbiddenTargets)

/-- `candidate.confidence_score > existing.confidence_score`. -/
def beats (candidate existing : SelfImprovementAdaptation) : Bool :=
  existing.confidenceScore < candidate.confidenceScore

def sorted (adaptations : List SelfImprovementAdaptation) : List SelfImprovementAdaptation :=
  adaptations.insertionSort
    (SelfImprovementAdaptation.sortKey · ≤ SelfImprovementAdaptation.sortKey ·)

/-- `validate`: what is approved, and what is rejected. -/
def validate (adaptations : List SelfImprovementAdaptation) :
    List SelfImprovementAdaptation × List SelfImprovementAdaptation :=
  let selection := select key policy.admits beats (sorted adaptations)
  (sorted selection.chosen.values, sorted selection.rejected)

/-! ### Confidences -/

/-- `==` on confidences. -/
def sameConfidence (a b : SelfImprovementAdaptation) : Bool :=
  a.confidenceScore.same b.confidenceScore

theorem contest : Contest beats sameConfidence where
  irrefl _ := decide_eq_false (Binary64.lt_irrefl _)
  trans _ _ _ hab hbc :=
    decide_eq_true (Binary64.lt_trans (of_decide_eq_true hbc) (of_decide_eq_true hab))
  congr _ _ _ hsame hbeats :=
    decide_eq_true (Binary64.lt_of_lt_of_same (of_decide_eq_true hbeats) hsame)

/-! ### What is approved -/

variable {policy} {adaptations : List SelfImprovementAdaptation}

/-- A candidate that the policy admits, such that none of the same action type and target has a higher
confidence, and of those with the same one it has the lowest id. -/
structure IsBest (policy : AdaptationPolicy) (adaptations : List SelfImprovementAdaptation)
    (best : SelfImprovementAdaptation) : Prop where
  mem : best ∈ adaptations
  admitted : policy.admits best = true
  highest : ∀ a ∈ adaptations, key a = key best → policy.admits a = true →
    ¬ best.confidenceScore < a.confidenceScore
  lowestId : ∀ a ∈ adaptations, key a = key best → policy.admits a = true →
    a.confidenceScore.same best.confidenceScore = true → best.adaptationId ≤ a.adaptationId

theorem mem_sorted {a : SelfImprovementAdaptation} : a ∈ sorted adaptations ↔ a ∈ adaptations :=
  List.mem_insertionSort _

/-- Of two adaptations with one action type and one target the first has the lower id. -/
theorem id_le_of_sortKey_le {a b : SelfImprovementAdaptation} (hkey : key b = key a)
    (h : a.sortKey ≤ b.sortKey) : a.adaptationId ≤ b.adaptationId := by
  obtain ⟨htype, htarget⟩ := Prod.mk.inj hkey
  rw [SelfImprovementAdaptation.sortKey, SelfImprovementAdaptation.sortKey, htype, htarget] at h
  simpa [Prod.Lex.toLex_le_toLex] using h

theorem isBest_of_firstBest {k : ImprovementType × String} {best : SelfImprovementAdaptation}
    (h : FirstBest key policy.admits beats sameConfidence k (sorted adaptations) best) :
    IsBest policy adaptations best where
  mem := mem_sorted.1 h.mem
  admitted := h.allowed
  highest a ha hkey hadmits :=
    of_decide_eq_false (h.unbeaten a (mem_sorted.2 ha) (hkey.trans h.key_eq) hadmits)
  lowestId a ha hkey hadmits hsame := by
    obtain ⟨before, after, hsorted, hfirst⟩ := h.first
    have hpairwise : (sorted adaptations).Pairwise fun a b => a.sortKey ≤ b.sortKey :=
      pairwise_insertionSort_key _ _
    rw [hsorted, List.pairwise_append, List.pairwise_cons] at hpairwise
    have hmem := mem_sorted.2 ha
    rw [hsorted, List.mem_append, List.mem_cons] at hmem
    rcases hmem with hbefore | rfl | hafter
    · have hdiffers := hfirst a hbefore (hkey.trans h.key_eq) hadmits
      cases hdiffers.symm.trans hsame
    · exact le_rfl
    · exact id_le_of_sortKey_le hkey (hpairwise.2.1.1 a hafter)

/-- Values under keys of their own occur once for each key. -/
theorem countP_values {d : Dict (ImprovementType × String) SelfImprovementAdaptation}
    (h : ∀ k a, d.get? k = some a → key a = k) {k : ImprovementType × String}
    (hk : (d.get? k).isSome = true) : d.values.countP (key · = k) = 1 := by
  have hkeys : d.values.map key = d.keys := by
    rw [Dict.values, Dict.keys, List.map_map]
    exact List.map_congr_left fun entry hentry => h entry.1 entry.2 (Dict.mem_entries_iff.1 hentry)
  have hcount := List.count_eq_one_of_mem d.nodup ((Dict.get?_isSome_iff d k).1 hk)
  rw [← Dict.keys, ← hkeys, List.count, List.countP_map] at hcount
  rw [← hcount]
  exact List.countP_congr fun a _ => by simp

/-- What is asked of a validation: it splits the adaptations, and approves one best candidate of every
action type and target that has one, and nothing else. -/
structure Splits (policy : AdaptationPolicy) (adaptations : List SelfImprovementAdaptation)
    (approved rejected : List SelfImprovementAdaptation) : Prop where
  perm : (approved ++ rejected).Perm adaptations
  best : ∀ a ∈ approved, IsBest policy adaptations a
  one : ∀ a ∈ adaptations, policy.admits a = true → approved.countP (key · = key a) = 1

theorem splits_validate (policy : AdaptationPolicy) (adaptations : List SelfImprovementAdaptation) :
    Splits policy adaptations (policy.validate adaptations).1 (policy.validate adaptations).2 := by
  have hselects : Selects key policy.admits beats sameConfidence _ (sorted adaptations) :=
    selects_select contest (sorted adaptations)
  obtain ⟨selection, hselection⟩ : ∃ selection,
      select key policy.admits beats (sorted adaptations) = selection := ⟨_, rfl⟩
  rw [hselection] at hselects
  have happroved : (sorted selection.chosen.values).Perm selection.chosen.values :=
    List.perm_insertionSort _ _
  rw [validate, hselection]
  constructor
  · exact ((happroved.append (List.perm_insertionSort _ _)).trans hselects.perm).trans
      (List.perm_insertionSort _ _)
  · intro a ha
    obtain ⟨k, hk⟩ := Dict.mem_values_iff.1 (happroved.mem_iff.1 ha)
    exact isBest_of_firstBest (hselects.best k a hk)
  · intro a ha hadmits
    rw [happroved.countP_eq]
    exact countP_values (fun k b hb => (hselects.best k b hb).key_eq)
      (hselects.complete a (mem_sorted.2 ha) hadmits)

theorem sortKey_injOn (hids : (adaptations.map SelfImprovementAdaptation.adaptationId).Nodup) :
    ∀ a ∈ adaptations, ∀ b ∈ adaptations, a.sortKey = b.sortKey → a = b := by
  intro a ha b hb hkey
  refine List.inj_on_of_nodup_map hids ha hb ?_
  exact congrArg (fun k => (ofLex (ofLex k).2).2) hkey

/-- **A validation approves the best of each action type and target**, and the order of the adaptations
does not matter. -/
theorem validate_canonical (policy : AdaptationPolicy)
    (hids : (adaptations.map SelfImprovementAdaptation.adaptationId).Nodup) :
    Splits policy adaptations (policy.validate adaptations).1 (policy.validate adaptations).2
      ∧ ∀ other : List SelfImprovementAdaptation, other.Perm adaptations →
        policy.validate other = policy.validate adaptations := by
  refine ⟨splits_validate policy adaptations, fun other hperm => ?_⟩
  have hsorted : sorted other = sorted adaptations :=
    insertionSort_eq_of_perm (sortKey_injOn hids) hperm
  rw [validate, validate, hsorted]

/-! ### An example -/

def retryAdaptation (id : String) (confidence : Binary64) : SelfImprovementAdaptation where
  adaptationId := id
  sourcePatternId := "pattern-repeated-failure-timeout"
  description := "Increase retry limit to handle repeated error: timeout"
  expectedEffect := "Reduce failure rate by retrying transient errors"
  actionType := .adjustPolicy
  target := "retry_limit"
  value := .int 3
  confidenceScore := confidence

def defaultPolicy : AdaptationPolicy where
  confidenceThreshold := .ofRat (6 / 10)
  forbiddenTargets := []

theorem retry_validate_canonical :
    Splits defaultPolicy [retryAdaptation "a2" 1, retryAdaptation "a1" 1]
        (defaultPolicy.validate [retryAdaptation "a2" 1, retryAdaptation "a1" 1]).1
        (defaultPolicy.validate [retryAdaptation "a2" 1, retryAdaptation "a1" 1]).2
      ∧ ∀ other : List SelfImprovementAdaptation,
        other.Perm [retryAdaptation "a2" 1, retryAdaptation "a1" 1] →
          defaultPolicy.validate other
            = defaultPolicy.validate [retryAdaptation "a2" 1, retryAdaptation "a1" 1] :=
  validate_canonical defaultPolicy (by decide)

end AdaptationPolicy

end PersonalDevin.SelfImprovement
