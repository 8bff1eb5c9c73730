import PersonalDevin.Lib.Binary64
import PersonalDevin.Lib.Ranking
import Mathlib.Data.List.ReduceOption
import Mathlib.Data.Prod.Lex
import Mathlib.Data.String.Basic

/-!
# Conflicts between adaptations

`ConflictResolver.resolve` picks a winner for every target, keeps the ids of the winners, and returns
the adaptations with these ids. Ids need not be distinct. The reasons and counts that it logs are left
out. Creation times are normalised to one time zone when an adaptation is built, so they are in a linear
order.
-/

namespace PersonalDevin.Planning

open Lib

structure Policy where
  name : String
  priority : ℤ
  confidenceThreshold : Option Binary64 := none

def defaultPolicies : Dict String Policy :=
  (((Dict.empty.set "safety"
    { name := "safety", priority := 100, confidenceThreshold := some (.ofRat (7 / 10)) }).set
      "reliability"
      { name := "reliability", priority := 80, confidenceThreshold := some (.ofRat (6 / 10)) }).set
      "performance"
      { name := "performance", priority := 50, confidenceThreshold := some (.ofRat (5 / 10)) }).set
      "preference" { name := "preference", priority := 20 }

/-- What the model accepts: texts that are not empty, and a confidence between zero and one. -/
structure Adaptation (T : Type) where
  id : String
  target : String
  action : String
  confidence : ℚ
  policy : String
  priority : ℕ
  createdAt : T
  texts : id ≠ "" ∧ target ≠ "" ∧ action ≠ "" ∧ policy ≠ ""
  representable : Representable confidence
  confidence_nonneg : 0 ≤ confidence
  confidence_le_one : confidence ≤ 1

/-- The texts, the confidence, the priority and the time decide. -/
theorem Adaptation.ext_iff {T : Type} {a b : Adaptation T} :
    a = b ↔ a.id = b.id ∧ a.target = b.target ∧ a.action = b.action ∧ a.confidence = b.confidence
      ∧ a.policy = b.policy ∧ a.priority = b.priority ∧ a.createdAt = b.createdAt := by
  cases a
  cases b
  rw [Adaptation.mk.injEq]

instance {T : Type} [DecidableEq T] : DecidableEq (Adaptation T) :=
  fun _ _ => decidable_of_iff _ Adaptation.ext_iff.symm

structure ConflictResolver where
  policies : Dict String Policy

/-- `policies or default_policies()`. -/
def ConflictResolver.init (policies : Option (Dict String Policy)) : ConflictResolver where
  policies := match policies with
    | some given => if given.entries = [] then defaultPolicies else given
    | none => defaultPolicies

namespace ConflictResolver

variable {T : Type} (resolver : ConflictResolver)

/-- The threshold is checked of a candidate with a known policy. -/
def isValid (candidate : Adaptation T) : Bool :=
  match resolver.policies.get? candidate.policy with
  | none => false
  | some policy =>
      match policy.confidenceThreshold with
      | some threshold => !(Binary64.finite candidate.confidence candidate.representable < threshold)
      | none => true

/-- `(-priority, -confidence, created_at, id)`. -/
abbrev Rank (T : Type) := ℤ ×ₗ ℚ ×ₗ T ×ₗ String

def rankUnder (policy : Policy) (candidate : Adaptation T) : Rank T :=
  toLex (-policy.priority, toLex (-candidate.confidence, toLex (candidate.createdAt, candidate.id)))

/-- The key of both sorts, which raises a `KeyError` with the name of an unknown policy. -/
def rankKey (candidate : Adaptation T) : Except String (Rank T) :=
  match resolver.policies.get? candidate.policy with
  | some policy => .ok (rankUnder policy candidate)
  | none => .error candidate.policy

section Resolve

variable [LinearOrder T]

/-- The first of the ranked candidates, if one is valid. -/
def winner (candidates : List (Adaptation T)) : Except String (Option (Adaptation T)) :=
  List.head? <$> sortedBy resolver.rankKey (candidates.filter resolver.isValid)

def resolve (adaptations : List (Adaptation T)) : Except String (List (Adaptation T)) := do
  let grouped := groupBy Adaptation.target adaptations
  let winners ← (grouped.entries.insertionSort (·.1 ≤ ·.1)).mapM fun entry => resolver.winner entry.2
  let selected := winners.reduceOption.map Adaptation.id
  sortedBy resolver.rankKey (adaptations.filter (·.id ∈ selected))

end Resolve

/-! ### Winners -/

/-- The rank of a candidate, given that its policy is known. -/
def rank (candidate : Adaptation T) : Rank T :=
  rankUnder ((resolver.policies.get? candidate.policy).getD { name := "", priority := 0 }) candidate

theorem rankKey_of_isValid {candidate : Adaptation T} (h : resolver.isValid candidate = true) :
    resolver.rankKey candidate = .ok (resolver.rank candidate) := by
  rw [isValid] at h
  rw [rankKey, rank]
  cases hpolicy : resolver.policies.get? candidate.policy with
  | none =>
      rw [hpolicy] at h
      cases h
  | some policy => rfl

theorem id_eq_of_rank_eq {a b : Adaptation T} (h : resolver.rank a = resolver.rank b) :
    a.id = b.id :=
  congrArg (fun r => (ofLex (ofLex (ofLex r).2).2).2) h

theorem mem_groups_iff {adaptations candidates : List (Adaptation T)} {target : String} :
    (target, candidates) ∈ (groupBy Adaptation.target adaptations).entries
      ↔ candidates = adaptations.filter (·.target = target)
        ∧ ∃ a ∈ adaptations, a.target = target := by
  rw [Dict.mem_entries_iff, ← mem_keys_groupBy, ← getD_groupBy, ← Dict.get?_isSome_iff, Dict.getD]
  cases (groupBy Adaptation.target adaptations).get? target <;> simp [eq_comm]

variable [LinearOrder T]

/-- A valid candidate such that no valid candidate of its target has a smaller rank. -/
def IsBest (adaptations : List (Adaptation T)) (best : Adaptation T) : Prop :=
  best ∈ adaptations ∧ resolver.isValid best = true
    ∧ ∀ a ∈ adaptations, a.target = best.target → resolver.isValid a = true →
      resolver.rank best ≤ resolver.rank a

variable {resolver} {adaptations : List (Adaptation T)}

theorem IsBest.id_eq {a b : Adaptation T} (ha : resolver.IsBest adaptations a)
    (hb : resolver.IsBest adaptations b) (htarget : a.target = b.target) : a.id = b.id := by
  obtain ⟨hamem, havalid, hamin⟩ := ha
  obtain ⟨hbmem, hbvalid, hbmin⟩ := hb
  exact resolver.id_eq_of_rank_eq
    (le_antisymm (hamin b hbmem htarget.symm hbvalid) (hbmin a hamem htarget havalid))

/-- The first of the ranked candidates. -/
def bestOf (resolver : ConflictResolver) (candidates : List (Adaptation T)) :
    Option (Adaptation T) :=
  ((candidates.filter resolver.isValid).insertionSort (resolver.rank · ≤ resolver.rank ·)).head?

theorem winner_eq (candidates : List (Adaptation T)) :
    resolver.winner candidates = .ok (resolver.bestOf candidates) := by
  have hkeys : ∀ a ∈ candidates.filter resolver.isValid,
      resolver.rankKey a = .ok (resolver.rank a) := fun a ha =>
    resolver.rankKey_of_isValid (List.mem_filter.1 ha).2
  rw [winner, sortedBy_of_ok hkeys]
  rfl

theorem isBest_of_bestOf {target : String} {best : Adaptation T}
    (h : resolver.bestOf (adaptations.filter (·.target = target)) = some best) :
    resolver.IsBest adaptations best ∧ best.target = target := by
  obtain ⟨hmem, hmin⟩ := head?_insertionSort h
  simp only [List.mem_filter, decide_eq_true_eq] at hmem hmin
  obtain ⟨⟨hmem, htarget⟩, hvalid⟩ := hmem
  exact ⟨⟨hmem, hvalid, fun a ha hatarget havalid =>
    hmin a ⟨⟨ha, hatarget.trans htarget⟩, havalid⟩⟩, htarget⟩

theorem exists_isBest {a : Adaptation T} (ha : a ∈ adaptations) (hvalid : resolver.isValid a = true) :
    ∃ best, resolver.bestOf (adaptations.filter (·.target = a.target)) = some best
      ∧ resolver.IsBest adaptations best ∧ best.target = a.target := by
  cases hbest : resolver.bestOf (adaptations.filter (·.target = a.target)) with
  | some best => exact ⟨best, rfl, isBest_of_bestOf hbest⟩
  | none =>
      rw [bestOf, List.head?_eq_none_iff] at hbest
      have hmem : a ∈ (adaptations.filter (·.target = a.target)).filter resolver.isValid :=
        List.mem_filter.2 ⟨List.mem_filter.2 ⟨ha, decide_eq_true rfl⟩, hvalid⟩
      rw [← List.mem_insertionSort (r := (resolver.rank · ≤ resolver.rank ·)), hbest] at hmem
      cases hmem

/-- The ids of the winners, by the targets in order. -/
def selectedIds (resolver : ConflictResolver) (adaptations : List (Adaptation T)) : List String :=
  (((groupBy Adaptation.target adaptations).entries.insertionSort (·.1 ≤ ·.1)).map
    fun entry => resolver.bestOf entry.2).reduceOption.map Adaptation.id

theorem resolve_eq (adaptations : List (Adaptation T)) :
    resolver.resolve adaptations = sortedBy resolver.rankKey
      (adaptations.filter (·.id ∈ resolver.selectedIds adaptations)) := by
  let groups := (groupBy Adaptation.target adaptations).entries.insertionSort (·.1 ≤ ·.1)
  have hwinners : groups.mapM (fun entry => resolver.winner entry.2)
      = .ok (groups.map fun entry => resolver.bestOf entry.2) := by
    simp only [winner_eq]
    exact List.mapM_pure
  rw [resolve, hwinners]
  rfl

/-- **The winners are the best candidates**, up to candidates of the same id. -/
theorem mem_selectedIds {id : String} :
    id ∈ resolver.selectedIds adaptations
      ↔ ∃ best, resolver.IsBest adaptations best ∧ best.id = id := by
  simp only [selectedIds, List.mem_map, List.reduceOption_mem_iff, List.mem_insertionSort,
    Prod.exists, mem_groups_iff]
  constructor
  · rintro ⟨best, ⟨target, _, ⟨rfl, -⟩, hbest⟩, rfl⟩
    exact ⟨best, (isBest_of_bestOf hbest).1, rfl⟩
  · rintro ⟨best, hbest, rfl⟩
    obtain ⟨chosen, hchosen, hchosenBest, htarget⟩ := exists_isBest hbest.1 hbest.2.1
    exact ⟨chosen, ⟨best.target, _, ⟨rfl, best, hbest.1, rfl⟩, hchosen⟩,
      hchosenBest.id_eq hbest htarget⟩

/-! ### What is returned -/

/-- What is asked of a resolution: it returns for every target that has a valid candidate exactly one
adaptation, and only best candidates. -/
def Resolves (resolver : ConflictResolver) (adaptations : List (Adaptation T)) : Prop :=
  ∃ resolved, resolver.resolve adaptations = .ok resolved
    ∧ (∀ target, (∃ a ∈ adaptations, a.target = target ∧ resolver.isValid a = true) →
      resolved.countP (·.target = target) = 1)
    ∧ ∀ a ∈ resolved, resolver.IsBest adaptations a

/-- The id of a best candidate is the id of best candidates only, and once for a target. -/
def Unambiguous (resolver : ConflictResolver) (adaptations : List (Adaptation T)) : Prop :=
  ∀ best, resolver.IsBest adaptations best →
    (∀ a ∈ adaptations, a.id = best.id → resolver.IsBest adaptations a)
      ∧ adaptations.countP (fun a => a.target = best.target ∧ a.id = best.id) = 1

/-- Of the adaptations with the ids of winners, given that they are best, one target has the ones with
the id of its best candidate. -/
theorem countP_selected {best : Adaptation T} (hbest : resolver.IsBest adaptations best)
    (honly : ∀ a ∈ adaptations, a.id ∈ resolver.selectedIds adaptations →
      resolver.IsBest adaptations a) :
    (adaptations.filter (·.id ∈ resolver.selectedIds adaptations)).countP (·.target = best.target)
      = adaptations.countP (fun a => a.target = best.target ∧ a.id = best.id) := by
  rw [List.countP_filter]
  apply List.countP_congr
  intro a ha
  simp only [Bool.and_eq_true, decide_eq_true_eq]
  apply and_congr_right
  intro htarget
  constructor
  · exact fun hselected => (honly a ha hselected).id_eq hbest htarget
  · exact fun hid => mem_selectedIds.2 ⟨best, hbest, hid.symm⟩

/-- **When a resolution has one winner for every target and nothing else.** -/
theorem init_resolves_iff (policies : Option (Dict String Policy))
    (adaptations : List (Adaptation T)) :
    (init policies).Resolves adaptations ↔ (init policies).Unambiguous adaptations := by
  obtain ⟨resolver, hresolver⟩ : ∃ resolver, init policies = resolver := ⟨_, rfl⟩
  rw [hresolver, Resolves, resolve_eq]
  constructor
  · rintro ⟨resolved, hresolved, hone, hbest⟩ best hisBest
    have hperm := perm_of_sortedBy hresolved
    have honly : ∀ a ∈ adaptations, a.id ∈ resolver.selectedIds adaptations →
        resolver.IsBest adaptations a := by
      intro a ha hselected
      exact hbest a (hperm.mem_iff.2 (List.mem_filter.2 ⟨ha, decide_eq_true hselected⟩))
    refine ⟨fun a ha hid => honly a ha (mem_selectedIds.2 ⟨best, hisBest, hid.symm⟩), ?_⟩
    rw [← countP_selected hisBest honly, ← hperm.countP_eq]
    exact hone best.target ⟨best, hisBest.1, rfl, hisBest.2.1⟩
  · intro hunambiguous
    have honly : ∀ a ∈ adaptations, a.id ∈ resolver.selectedIds adaptations →
        resolver.IsBest adaptations a := by
      intro a ha hselected
      obtain ⟨best, hisBest, hid⟩ := mem_selectedIds.1 hselected
      exact (hunambiguous best hisBest).1 a ha hid.symm
    have hmem : ∀ a ∈ adaptations.filter (·.id ∈ resolver.selectedIds adaptations),
        resolver.IsBest adaptations a := by
      intro a ha
      obtain ⟨ha, hselected⟩ := List.mem_filter.1 ha
      exact honly a ha (of_decide_eq_true hselected)
    refine ⟨_, sortedBy_of_ok fun a ha => resolver.rankKey_of_isValid (hmem a ha).2.1, ?_, ?_⟩
    · rintro target ⟨a, ha, rfl, hvalid⟩
      obtain ⟨best, -, hisBest, htarget⟩ := exists_isBest ha hvalid
      rw [(List.perm_insertionSort _ _).countP_eq, ← htarget, countP_selected hisBest honly]
      exact (hunambiguous best hisBest).2
    · intro a ha
      exact hmem a ((List.mem_insertionSort _).1 ha)

/-! ### An id that is used twice -/

def timeoutAdaptation : Adaptation ℕ where
  id := "a-001"
  target := "timeout"
  action := "set_timeout_8"
  confidence := 1
  policy := "safety"
  priority := 1
  createdAt := 0
  texts := by decide
  representable := representable_intCast (by decide : |(1 : ℤ)| < 2 ^ 53)
  confidence_nonneg := by decide
  confidence_le_one := by decide

/-- Below the threshold of its policy. -/
def dubiousAdaptation : Adaptation ℕ :=
  { timeoutAdaptation with
    target := "retry_limit"
    action := "set_retry_3"
    confidence := 0
    texts := by decide
    representable := representable_intCast (by decide : |(0 : ℤ)| < 2 ^ 53)
    confidence_nonneg := by decide
    confidence_le_one := by decide }

def unlistedAdaptation : Adaptation ℕ :=
  { timeoutAdaptation with
    target := "retry_limit"
    action := "set_retry_3"
    policy := "unlisted"
    texts := by decide }

/-- With the id of a winner an adaptation below its threshold is returned, and one of an unknown policy
makes the resolution raise. -/
theorem repeatedId_not_resolved :
    ¬ (init none).Resolves [timeoutAdaptation, dubiousAdaptation]
      ∧ ¬ (init none).Resolves [timeoutAdaptation, unlistedAdaptation] := by
  constructor
  · rintro ⟨resolved, hresolved, -, hbest⟩
    have hreturned : (init none).resolve [timeoutAdaptation, dubiousAdaptation]
        = .ok [timeoutAdaptation, dubiousAdaptation] := by decide +kernel
    cases hreturned.symm.trans hresolved
    have hvalid := (hbest dubiousAdaptation (by decide)).2.1
    exact absurd hvalid (by decide +kernel)
  · rintro ⟨resolved, hresolved, -⟩
    have hraises : (init none).resolve [timeoutAdaptation, unlistedAdaptation]
        = .error "unlisted" := by decide +kernel
    cases hraises.symm.trans hresolved

/-! ### The order of the input -/

theorem IsBest.of_perm {other : List (Adaptation T)} (hperm : other.Perm adaptations)
    {best : Adaptation T} (h : resolver.IsBest adaptations best) : resolver.IsBest other best :=
  ⟨hperm.mem_iff.2 h.1, h.2.1, fun a ha => h.2.2 a (hperm.mem_iff.1 ha)⟩

theorem mem_selectedIds_of_perm {other : List (Adaptation T)} (hperm : other.Perm adaptations)
    (id : String) : id ∈ resolver.selectedIds other ↔ id ∈ resolver.selectedIds adaptations := by
  rw [mem_selectedIds, mem_selectedIds]
  constructor
  · rintro ⟨best, hbest, hid⟩
    exact ⟨best, hbest.of_perm hperm.symm, hid⟩
  · rintro ⟨best, hbest, hid⟩
    exact ⟨best, hbest.of_perm hperm, hid⟩

/-- The adaptations with the ids of the winners. -/
def kept (resolver : ConflictResolver) (adaptations : List (Adaptation T)) : List (Adaptation T) :=
  adaptations.filter (·.id ∈ resolver.selectedIds adaptations)

theorem kept_perm {other : List (Adaptation T)} (hperm : other.Perm adaptations) :
    (resolver.kept other).Perm (resolver.kept adaptations) := by
  have hsame : resolver.kept other = other.filter (·.id ∈ resolver.selectedIds adaptations) :=
    List.filter_congr fun a _ => decide_eq_decide.2 (mem_selectedIds_of_perm hperm a.id)
  rw [hsame]
  exact hperm.filter _

section DistinctIds

variable (hids : (adaptations.map Adaptation.id).Nodup)
include hids

/-- Where no id is used twice, the adaptations that are kept are the best candidates. -/
theorem mem_kept_iff {a : Adaptation T} :
    a ∈ resolver.kept adaptations ↔ resolver.IsBest adaptations a := by
  rw [kept, List.mem_filter, decide_eq_true_iff, mem_selectedIds]
  constructor
  · rintro ⟨ha, best, hbest, hid⟩
    rwa [← List.inj_on_of_nodup_map hids hbest.1 ha hid]
  · exact fun hbest => ⟨hbest.1, a, hbest, rfl⟩

theorem resolve_eq_ok : resolver.resolve adaptations
    = .ok ((resolver.kept adaptations).insertionSort (resolver.rank · ≤ resolver.rank ·)) := by
  rw [resolve_eq]
  exact sortedBy_of_ok fun a ha => resolver.rankKey_of_isValid ((mem_kept_iff hids).1 ha).2.1

theorem nodup_id_of_perm_kept {l : List (Adaptation T)} (hperm : l.Perm (resolver.kept adaptations)) :
    (l.map Adaptation.id).Nodup :=
  (hperm.map Adaptation.id).nodup_iff.2 (hids.sublist (List.filter_sublist.map Adaptation.id))

/-- Every winner wins again among the winners. -/
theorem kept_of_perm_kept {l : List (Adaptation T)} (hperm : l.Perm (resolver.kept adaptations)) :
    resolver.kept l = l := by
  refine List.filter_eq_self.2 fun a ha => ?_
  have hbest : resolver.IsBest adaptations a := (mem_kept_iff hids).1 (hperm.mem_iff.1 ha)
  refine decide_eq_true (mem_selectedIds.2 ⟨a, ⟨ha, hbest.2.1, fun b hb => ?_⟩, rfl⟩)
  exact hbest.2.2 b ((mem_kept_iff hids).1 (hperm.mem_iff.1 hb)).1

theorem insertionSort_rank_of_perm {l : List (Adaptation T)} (hperm : l.Perm adaptations) :
    l.insertionSort (resolver.rank · ≤ resolver.rank ·)
      = adaptations.insertionSort (resolver.rank · ≤ resolver.rank ·) :=
  insertionSort_eq_of_perm (fun _ ha _ hb hrank =>
    List.inj_on_of_nodup_map hids ha hb (resolver.id_eq_of_rank_eq hrank)) hperm

end DistinctIds

/-- **A resolution depends neither on the order of its input nor on being made twice.** -/
theorem init_resolve_canonical (policies : Option (Dict String Policy))
    {adaptations : List (Adaptation T)} (hids : (adaptations.map Adaptation.id).Nodup) :
    ∃ resolved, (init policies).resolve adaptations = .ok resolved
      ∧ (∀ other : List (Adaptation T), other.Perm adaptations →
        (init policies).resolve other = .ok resolved)
      ∧ (init policies).resolve resolved = .ok resolved := by
  obtain ⟨resolver, hresolver⟩ : ∃ resolver, init policies = resolver := ⟨_, rfl⟩
  rw [hresolver]
  have hkept : ((resolver.kept adaptations).map Adaptation.id).Nodup :=
    nodup_id_of_perm_kept hids (.refl _)
  have hsorted := List.perm_insertionSort (resolver.rank · ≤ resolver.rank ·)
    (resolver.kept adaptations)
  refine ⟨_, resolve_eq_ok hids, fun other hperm => ?_, ?_⟩
  · rw [resolve_eq_ok ((hperm.map Adaptation.id).nodup_iff.2 hids),
      insertionSort_rank_of_perm hkept (kept_perm hperm)]
  · rw [resolve_eq_ok (nodup_id_of_perm_kept hids hsorted), kept_of_perm_kept hids hsorted,
      insertionSort_rank_of_perm hkept hsorted]

/-- A second candidate for the target, with an id of its own. -/
def slowerAdaptation : Adaptation ℕ :=
  { timeoutAdaptation with
    id := "a-002"
    action := "set_timeout_16"
    createdAt := 1
    texts := by decide }

theorem timeout_resolve_canonical :
    ∃ resolved, (init none).resolve [slowerAdaptation, timeoutAdaptation] = .ok resolved
      ∧ (∀ other : List (Adaptation ℕ), other.Perm [slowerAdaptation, timeoutAdaptation] →
        (init none).resolve other = .ok resolved)
      ∧ (init none).resolve resolved = .ok resolved :=
  init_resolve_canonical none (by decide)

end ConflictResolver

end PersonalDevin.Planning
