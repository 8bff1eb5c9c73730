import PersonalDevin.Improvement.Gates
import PersonalDevin.Lib.FloatBounds

/-!
# Versions and scores

What the improvement records of a stream are to be like, and when the record of a further run goes after
them: it does unless it is accepted and its score is NaN.
-/

namespace PersonalDevin.Improvement.Gates

open Lib
open Lib.Binary64 (Within add_nan atMost_of_not_lt clamp_eq_nan_iff finite_add_ne_nan lt_of_not_atMost
  mul_ne_nan_of_isPositive not_atMost_nan not_lt_nan not_nan_atMost not_nan_lt round_eq_nan_iff
  sub_div_eq_nan_iff within_ofRat within_ratio)

variable {T : Type}

/-! ### When a score is NaN -/

/-- The latency before is infinite, or it is positive and the one after is NaN. -/
def Unscorable (before after : ImprovementMetrics) : Prop :=
  before.avgStepLatency = .infinite false
    ∨ 0 < before.avgStepLatency ∧ after.avgStepLatency = .nan

/-- The rates that a score is made of are shares. -/
structure ImprovementMetrics.Rated (metrics : ImprovementMetrics) : Prop where
  successRate : Within 1 metrics.successRate
  failureRate : Within 1 metrics.failureRate

theorem rated_compute {sum : List Binary64 → Binary64} {records : List Fields}
    {metrics : ImprovementMetrics} (h : compute sum records = .ok metrics) : metrics.Rated := by
  have hrate : ∀ p : Fields → Bool,
      Within 1 ((Binary64.ratio (records.countP p) records.length).round 4) := fun p =>
    (within_ratio List.countP_le_length).round (by decide) 4
  have hzero : Within 1 (0 : Binary64) := ⟨0, _, Binary64.zero_eq, by norm_num⟩
  rw [compute] at h
  split at h
  · cases h
    exact ⟨hzero, hzero⟩
  · obtain ⟨values, -, h⟩ := except_bind_eq_ok_iff.1 h
    cases h
    exact ⟨hrate _, hrate _⟩

theorem isPositive_weightLatency : weightLatency.IsPositive where
  finite := (@within_ofRat _ 1 (by decide) (by norm_num [abs_of_pos])).isFinite
  pos := by decide +kernel

/-- **The score is NaN exactly if the latencies leave it open.** -/
theorem impactScore_eq_nan_iff {before after : ImprovementMetrics} (hbefore : before.Rated)
    (hafter : after.Rated) : impactScore before after = .nan ↔ Unscorable before after := by
  have hweight : ∀ q : ℚ, |q| ≤ 1 → Within 1 (Binary64.ofRat q) := fun q hq =>
    within_ofRat (by decide) (by rwa [Nat.cast_one])
  have hsuccess := (hafter.successRate.sub hbefore.successRate (by decide)).mul
    (hweight (6 / 10) (by norm_num [abs_of_pos])) (by decide)
  have hfailure := (hbefore.failureRate.sub hafter.failureRate (by decide)).mul
    (hweight (3 / 10) (by norm_num [abs_of_pos])) (by decide)
  have hrates := hsuccess.add hfailure (by decide)
  have hone : (1 : Binary64) ≠ .nan := by decide +kernel
  have hnegOne : (-1 : Binary64) ≠ .nan := by decide +kernel
  -- The rates are finite, so only the share of the latencies can make the score NaN.
  have hscore : ∀ latencyDelta : Binary64,
      (((after.successRate - before.successRate) * weightSuccess
          + (before.failureRate - after.failureRate) * weightFailure
          + latencyDelta * weightLatency).minimum 1).maximum (-1) = .nan ↔ latencyDelta = .nan := by
    intro latencyDelta
    rw [clamp_eq_nan_iff hnegOne hone]
    constructor
    · intro h
      by_contra hne
      exact finite_add_ne_nan hrates.isFinite
        (mul_ne_nan_of_isPositive hne isPositive_weightLatency) h
    · rintro rfl
      exact add_nan _
  rw [impactScore, round_eq_nan_iff, hscore, Unscorable]
  split
  · rename_i hpos
    rw [sub_div_eq_nan_iff hpos]
    exact or_congr_right (and_iff_right hpos).symm
  · rename_i hnot
    refine iff_of_false (by decide +kernel) (not_or.2 ⟨fun hinfinite => hnot ?_, fun h => hnot h.1⟩)
    rw [hinfinite]
    decide +kernel

/-! ### Sound records -/

/-- What holds of the improvement records of a stream, in their order. -/
structure Sound (records : List (ImprovementRecord T)) : Prop where
  versions : records.map ImprovementRecord.version = (List.range' 1 records.length).map Nat.cast
  ids : records.map ImprovementRecord.id
    = (List.range' 1 records.length).map fun version : ℕ => recordName version
  distinct : (records.map ImprovementRecord.id).Nodup
  rollback : ∀ record ∈ records, ∀ action ∈ record.rollbackActions, action.version = record.version
  accepted : ∀ record ∈ records, record.accepted = true →
    record.actions ≠ [] ∧ minImprovementDelta.atMost record.impactScore = true
  increasing : ((records.filter ImprovementRecord.accepted).map
    ImprovementRecord.impactScore).Pairwise (· < ·)

theorem sound_nil : Sound ([] : List (ImprovementRecord T)) where
  versions := rfl
  ids := rfl
  distinct := List.nodup_nil
  rollback _ hmem := absurd hmem List.not_mem_nil
  accepted _ hmem := absurd hmem List.not_mem_nil
  increasing := List.Pairwise.nil

theorem recordName_injective {n m : ℕ} (h : recordName n = recordName m) : n = m := by
  have hname : ∀ k : ℕ, recordName k = "improvement-" ++ zeroPad 6 k := by
    intro k
    rw [recordName, if_neg (Int.not_lt.2 (Int.natCast_nonneg k)), Int.toNat_natCast]
  rw [hname, hname] at h
  exact zeroPad_injective 6 ((String.append_right_inj _).1 h)

theorem nodup_recordNames (n : ℕ) :
    ((List.range' 1 n).map fun version : ℕ => recordName version).Nodup := by
  refine (List.nodup_range' 1).map_on ?_
  intro n _ m _ heq
  exact recordName_injective heq

theorem numbered_concat {α : Type} {f : ImprovementRecord T → α} {value : ℕ → α}
    {records : List (ImprovementRecord T)} {record : ImprovementRecord T}
    (h : records.map f = (List.range' 1 records.length).map value)
    (hrecord : f record = value (records.length + 1)) :
    (records ++ [record]).map f = (List.range' 1 (records ++ [record]).length).map value := by
  rw [List.map_append, h, List.length_append, List.length_singleton, List.range'_1_concat,
    List.map_append, List.map_singleton, List.map_singleton, hrecord, Nat.add_comm 1]

/-- `_next_improvement_version` on improvement records. -/
def nextVersion (records : List (ImprovementRecord T)) : ℤ :=
  match records.map ImprovementRecord.version with
  | version :: versions => versions.foldl max version + 1
  | [] => 1

theorem foldl_max_range' (n : ℕ) :
    ((List.range' 2 n).map (Nat.cast : ℕ → ℤ)).foldl max 1 = n + 1 := by
  induction n with
  | zero => rfl
  | succ n ih =>
      rw [List.range'_1_concat, List.map_append, List.foldl_append, ih]
      simp only [List.map_cons, List.map_nil, List.foldl_cons, List.foldl_nil]
      omega

theorem nextVersion_of_sound {records : List (ImprovementRecord T)} (h : Sound records) :
    nextVersion records = records.length + 1 := by
  rw [nextVersion, h.versions]
  rcases records.length with _ | n
  · rfl
  · rw [List.range'_succ, List.map_cons]
    show List.foldl max 1 _ + 1 = _
    rw [foldl_max_range', Nat.cast_succ]

/-! ### The next record -/

/-- `_should_accept_improvement_with_memory` on improvement records. -/
def passes (score : Binary64) (records : List (ImprovementRecord T)) : Bool :=
  !decide (score < minImprovementDelta)
    && match records.reverse.find? ImprovementRecord.accepted with
      | none => true
      | some last => !score.atMost last.impactScore

/-- NaN passes both gates. -/
theorem passes_nan (records : List (ImprovementRecord T)) : passes .nan records = true := by
  rw [passes, decide_eq_false (not_nan_lt _)]
  split
  · rfl
  · rw [not_nan_atMost]
    rfl

theorem lt_of_passes {records : List (ImprovementRecord T)} (h : Sound records) {score : Binary64}
    (hscore : score ≠ .nan) (hpasses : passes score records = true) :
    ∀ earlier ∈ (records.filter ImprovementRecord.accepted).map ImprovementRecord.impactScore,
      earlier < score := by
  have hlast : records.reverse.find? ImprovementRecord.accepted
      = (records.filter ImprovementRecord.accepted).getLast? := by
    rw [← List.head?_filter, List.filter_reverse, List.head?_reverse]
  have hgate := (Bool.and_eq_true_iff.1 hpasses).2
  rw [hlast] at hgate
  rcases List.eq_nil_or_concat' (records.filter ImprovementRecord.accepted) with
    hnil | ⟨others, last, hconcat⟩
  · rw [hnil]
    exact fun _ hmem => absurd hmem List.not_mem_nil
  · rw [hconcat, List.getLast?_concat] at hgate
    obtain ⟨hmem, haccepted⟩ := List.mem_filter.1
      (hconcat ▸ List.mem_append_right others (List.mem_singleton_self last))
    have hne : last.impactScore ≠ .nan := by
      intro hnan
      have hdelta := (h.accepted last hmem haccepted).2
      rw [hnan, not_atMost_nan] at hdelta
      cases hdelta
    have hlt : last.impactScore < score := lt_of_not_atMost hscore hne (by simpa using hgate)
    have hincreasing := h.increasing
    rw [hconcat, List.map_append, List.map_singleton] at hincreasing ⊢
    intro earlier hearlier
    rcases List.mem_append.1 hearlier with hearlier | hearlier
    · exact Binary64.lt_trans ((List.pairwise_append.1 hincreasing).2.2 earlier hearlier _
        (List.mem_singleton_self _)) hlt
    · exact List.mem_singleton.1 hearlier ▸ hlt

/-- The record of a run is made after the others. -/
structure Follows (records : List (ImprovementRecord T)) (record : ImprovementRecord T) : Prop where
  version : record.version = nextVersion records
  id : record.id = recordName record.version
  rollback : ∀ action ∈ record.rollbackActions, action.version = record.version
  accepted : record.accepted = (passes record.impactScore records && !record.actions.isEmpty)

/-- **The next record leaves the records sound** unless it has actions, and NaN for a score. -/
theorem sound_concat_iff {records : List (ImprovementRecord T)} {record : ImprovementRecord T}
    (h : Sound records) (hnext : Follows records record) :
    Sound (records ++ [record]) ↔ ¬ (record.actions ≠ [] ∧ record.impactScore = .nan) := by
  have hnonempty : (!record.actions.isEmpty) = true ↔ record.actions ≠ [] := by simp
  constructor
  · rintro hsound ⟨hactions, hnan⟩
    have haccepted : record.accepted = true := by
      rw [hnext.accepted, hnan, passes_nan, hnonempty.2 hactions]
      rfl
    have hdelta := (hsound.accepted record (List.mem_append_right _ List.mem_cons_self) haccepted).2
    rw [hnan, not_atMost_nan] at hdelta
    cases hdelta
  · intro hscored
    have hversion : record.version = ((records.length + 1 : ℕ) : ℤ) := by
      rw [hnext.version, nextVersion_of_sound h, Nat.cast_succ]
    have hids := numbered_concat h.ids (by rw [hnext.id, hversion])
    have hgates : record.accepted = true → record.actions ≠ [] ∧ record.impactScore ≠ .nan
        ∧ passes record.impactScore records = true := by
      intro haccepted
      rw [hnext.accepted, Bool.and_eq_true_iff, hnonempty] at haccepted
      exact ⟨haccepted.2, fun hnan => hscored ⟨haccepted.2, hnan⟩, haccepted.1⟩
    refine ⟨numbered_concat h.versions hversion, hids, ?_, ?_, ?_, ?_⟩
    · rw [hids]
      exact nodup_recordNames _
    · intro other hmem
      rcases List.mem_append.1 hmem with hmem | hmem
      · exact h.rollback other hmem
      · exact List.mem_singleton.1 hmem ▸ hnext.rollback
    · intro other hmem haccepted
      rcases List.mem_append.1 hmem with hmem | hmem
      · exact h.accepted other hmem haccepted
      · obtain rfl := List.mem_singleton.1 hmem
        obtain ⟨hactions, hscore, hpasses⟩ := hgates haccepted
        have hdelta : ¬ other.impactScore < minImprovementDelta := by
          simpa using (Bool.and_eq_true_iff.1 hpasses).1
        exact ⟨hactions, atMost_of_not_lt (by decide +kernel) hscore hdelta⟩
    · rw [List.filter_append, List.map_append]
      by_cases haccepted : record.accepted = true
      · obtain ⟨-, hscore, hpasses⟩ := hgates haccepted
        rw [List.filter_cons_of_pos haccepted, List.filter_nil, List.map_singleton]
        refine List.pairwise_append.2 ⟨h.increasing, List.pairwise_singleton _ _, ?_⟩
        intro earlier hearlier last hlast
        exact List.mem_singleton.1 hlast ▸ lt_of_passes h hscore hpasses earlier hearlier
      · rw [List.filter_cons_of_neg haccepted]
        simpa using h.increasing

end PersonalDevin.Improvement.Gates
