import PersonalDevin.Improvement.Versions

/-!
# Versions under interference

Runs of one engine on a store that others use as well, between the runs and during them: before each
access of the engine the others may have changed the execution stream in any way and appended decision
records that are no improvement records. The improvement records stay sound as long as every run that
applies an action has latencies to score it by.
-/

namespace PersonalDevin.Improvement.Gates

open Lib
open Lib.Binary64 (not_atMost_nan)
open Memory (ImprovementAction ImprovementEvent Instant)

variable {T : Type}

/-! ### What a run meets -/

/-- The execution stream after the others have acted so many times. -/
def World.executionAt (w : World T) (n : ℕ) : List Fields :=
  (w.others.take n).foldl (fun execution batch => batch.execution execution) w.execution

def World.onCooldown (w : World T) : Bool :=
  match w.next.decisions.reverse.findIdx? DecisionRecord.isAccepted with
  | some since => since < cooldownCycles
  | none => false

def Proposal.applied (proposal : Proposal) (cooldown : Bool) : List ImprovementAction :=
  if cooldown then [] else proposal.actions

def notice (cooldown : Bool) : List ImprovementEvent := if cooldown then [.cooldownActive] else []

/-- The events that a run writes between its two looks at the execution stream. -/
def Proposal.events (proposal : Proposal) (cooldown : Bool) : List ImprovementEvent :=
  actionEvents (proposal.applied cooldown) "success"
    ++ actionEvents proposal.rejectedActions "rejected"
    ++ notice cooldown

section Measure

variable (sum : List Binary64 → Binary64) (stages : List Fields → Except Fault Proposal)

/-- What a run on the world measures: the execution stream at its second access, and again after its
events. -/
structure Measures (w : World T) (proposal : Proposal) (before after : ImprovementMetrics) : Prop where
  stages : stages (w.executionAt 2) = .ok proposal
  before : compute sum (w.executionAt 2) = .ok before
  after : compute sum (w.executionAt ((proposal.events w.onCooldown).length + 3)) = .ok after

/-- A run on the world applies an action, and its latencies give no score for it. -/
def Unscored (w : World T) : Prop :=
  ∃ proposal before after, Measures sum stages w proposal before after
    ∧ proposal.applied w.onCooldown ≠ [] ∧ Unscorable before after

end Measure

/-- The record of an event, if it is one about a run. -/
def DecisionRecord.run? : DecisionRecord T → Option (ImprovementRecord T)
  | fields _ => none
  | improvement record _ => some record

def World.records (w : World T) : List (ImprovementRecord T) := w.decisions.filterMap (·.run?)

/-- Nobody but the engine has written an improvement record. -/
def OnlyRuns (decisions : List (DecisionRecord T)) : Prop :=
  ∀ fields, .fields fields ∈ decisions → Improvement.isImprovementRecord fields = false

/-- Others append no improvement records. -/
def Batch.NoRecords (batch : Batch) : Prop :=
  ∀ fields ∈ batch.records, Improvement.isImprovementRecord fields = false

/-- After so many accesses of a run, none of which has written a record. -/
structure Past (w : World T) (n : ℕ) (w' : World T) : Prop where
  execution : w'.execution = w.executionAt n
  others : w'.others = w.others.drop n
  records : w'.records = w.records
  onlyRuns : OnlyRuns w'.decisions
  noRecords : ∀ batch ∈ w'.others, batch.NoRecords

section Past

variable {w w' : World T} {n : ℕ}

theorem Past.next (h : Past w n w') : Past w (n + 1) w'.next := by
  rw [World.next]
  split
  · rename_i hnil
    have hlength : w.others.length ≤ n := List.drop_eq_nil_iff.1 (h.others.symm.trans hnil)
    refine ⟨?_, ?_, h.records, h.onlyRuns, h.noRecords⟩
    · rw [h.execution, World.executionAt, World.executionAt, List.take_of_length_le hlength,
        List.take_of_length_le (Nat.le_succ_of_le hlength)]
    · rw [hnil, List.drop_of_length_le (Nat.le_succ_of_le hlength)]
  · rename_i batch others hothers
    have hdrop : w.others.drop n = batch :: others := h.others.symm.trans hothers
    have hnone := h.noRecords
    rw [hothers, List.forall_mem_cons] at hnone
    refine ⟨?_, ?_, ?_, ?_, hnone.2⟩
    · have hget : w.others[n]? = some batch := by
        rw [← List.head?_drop, hdrop]
        rfl
      rw [World.executionAt, List.take_add_one, hget, List.foldl_append, ← World.executionAt,
        ← h.execution]
      rfl
    · rw [List.drop_add_one_eq_tail_drop, hdrop]
      rfl
    · have hfields : (batch.records.map DecisionRecord.fields).filterMap
          (DecisionRecord.run? (T := T)) = [] :=
        List.filterMap_eq_nil_iff.2 (List.forall_mem_map.2 fun _ _ => rfl)
      show (w'.decisions ++ batch.records.map DecisionRecord.fields).filterMap _ = w.records
      rw [List.filterMap_append, hfields, List.append_nil]
      exact h.records
    · intro fields hmem
      rcases List.mem_append.1 hmem with hmem | hmem
      · exact h.onlyRuns fields hmem
      · obtain ⟨_, hfields, heq⟩ := List.mem_map.1 hmem
        cases heq
        exact hnone.1 fields hfields

theorem Past.concat (h : Past w n w') {fields : Fields}
    (hfields : Improvement.isImprovementRecord fields = false) :
    Past w n { w' with decisions := w'.decisions ++ [.fields fields] } := by
  refine ⟨h.execution, h.others, ?_, ?_, h.noRecords⟩
  · show (w'.decisions ++ [DecisionRecord.fields fields]).filterMap _ = w.records
    rw [List.filterMap_append]
    exact (List.append_nil _).trans h.records
  · intro other hmem
    rcases List.mem_append.1 hmem with hmem | hmem
    · exact h.onlyRuns other hmem
    · cases List.mem_singleton.1 hmem
      exact hfields

/-! ### The accesses of a run -/

theorem ends_isOnCooldown_past (h : Past w 0 w) :
    Ends (fun cooldown w' => cooldown = w.onCooldown ∧ Past w 1 w') (fun _ _ => False)
      isOnCooldown w :=
  ⟨rfl, h.next⟩

theorem ends_readExecutionHistory (h : Past w n w') :
    Ends (fun history w'' => history = w.executionAt (n + 1) ∧ Past w (n + 1) w'')
      (fun _ _ => False) readExecutionHistory w' :=
  ⟨h.next.execution, h.next⟩

theorem ends_writeEvents_past {events : List ImprovementEvent}
    (hevents : ∀ event ∈ events, Improvement.isImprovementRecord event.toFields = false)
    (h : Past w n w') :
    Ends (fun _ w'' => Past w (n + events.length) w'') (fun _ _ => False) (writeEvents events) w' := by
  refine ends_forM (fun past w'' => Past w (n + past.length) w'')
    (fun past event w'' hpast hw'' => ?_) h
  rw [List.length_append, List.length_singleton]
  exact hw''.next.concat (hevents event (hpast.subset (List.mem_append_right _ List.mem_cons_self)))

theorem find?_isAccepted {decisions : List (DecisionRecord T)} (h : OnlyRuns decisions) :
    (decisions.find? DecisionRecord.isAccepted).bind DecisionRecord.impactScore
      = ((decisions.filterMap (·.run?)).find? ImprovementRecord.accepted).map
        fun record => some record.impactScore := by
  induction decisions with
  | nil => rfl
  | cons decision rest ih =>
      have hrest := ih fun fields hmem => h fields (List.mem_cons_of_mem _ hmem)
      cases decision with
      | fields fields =>
          have hnot : (DecisionRecord.fields fields : DecisionRecord T).isAccepted = false :=
            isAccepted_of_not_record (h fields List.mem_cons_self)
          rw [List.find?_cons_of_neg (by rw [hnot]; decide), hrest]
          rfl
      | improvement record rollback =>
          show _ = ((record :: rest.filterMap (·.run?)).find? ImprovementRecord.accepted).map _
          by_cases haccepted : record.accepted = true
          · have hfirst : (DecisionRecord.improvement record rollback).isAccepted = true := haccepted
            rw [List.find?_cons_of_pos haccepted, List.find?_cons_of_pos hfirst]
            rfl
          · have hfirst : ¬ (DecisionRecord.improvement record rollback).isAccepted = true :=
              haccepted
            rw [List.find?_cons_of_neg haccepted, List.find?_cons_of_neg hfirst, hrest]

theorem OnlyRuns.reverse {decisions : List (DecisionRecord T)} (h : OnlyRuns decisions) :
    OnlyRuns decisions.reverse := fun fields hmem => h fields (List.mem_reverse.1 hmem)

theorem ends_shouldAccept (score : Binary64) (h : Past w n w') :
    Ends (fun accepted w'' => accepted = passes score w.records ∧ ∃ n, Past w n w'')
      (fun _ _ => False) (shouldAccept score) w' := by
  have hread : readDecisions w' = .ok w'.next.decisions w'.next := rfl
  unfold shouldAccept passes
  by_cases hlow : score < minImprovementDelta
  · rw [if_pos hlow, decide_eq_true hlow]
    exact ⟨rfl, n, h⟩
  · have hfind := find?_isAccepted h.next.onlyRuns.reverse
    have hrecords : w'.next.decisions.filterMap (·.run?) = w.records := h.next.records
    rw [List.filterMap_reverse, hrecords] at hfind
    rw [if_neg hlow, decide_eq_false hlow]
    refine (ends_congr (bind_of_ok hread)).2 ?_
    rw [hfind]
    cases w.records.reverse.find? ImprovementRecord.accepted with
    | none => exact ⟨rfl, _, h.next⟩
    | some last => exact ⟨rfl, _, h.next⟩

theorem mapM_versionOf {decisions : List (DecisionRecord T)} (h : OnlyRuns decisions) :
    (decisions.filter DecisionRecord.isImprovementRecord).mapM DecisionRecord.versionOf
      = some ((decisions.filterMap (·.run?)).map ImprovementRecord.version) := by
  induction decisions with
  | nil => rfl
  | cons decision rest ih =>
      have hrest := ih fun fields hmem => h fields (List.mem_cons_of_mem _ hmem)
      cases decision with
      | fields fields =>
          have hnot : (DecisionRecord.fields fields : DecisionRecord T).isImprovementRecord
              = false := h fields List.mem_cons_self
          rw [List.filter_cons_of_neg (by rw [hnot]; decide), hrest]
          rfl
      | improvement record rollback =>
          rw [List.filter_cons_of_pos rfl, List.mapM_cons, hrest]
          rfl

theorem ends_nextImprovementVersion (h : Past w n w') :
    Ends (fun version w'' => version = nextVersion w.records ∧ ∃ n, Past w n w'')
      (fun _ _ => False) nextImprovementVersion w' := by
  have hread : readDecisions w' = .ok w'.next.decisions w'.next := rfl
  have hrecords : w'.next.decisions.filterMap (·.run?) = w.records := h.next.records
  refine (ends_congr (bind_of_ok hread)).2 ⟨?_, _, h.next⟩
  rw [mapM_versionOf h.next.onlyRuns, hrecords, nextVersion]
  cases w.records.map ImprovementRecord.version <;> rfl

end Past

/-! ### A run -/

section Run

variable {sum : List Binary64 → Binary64} {stages : List Fields → Except Fault Proposal}

def runRecord (now : T) (records : List (ImprovementRecord T)) (cooldown : Bool)
    (proposal : Proposal) (before after : ImprovementMetrics) : ImprovementRecord T where
  id := recordName (nextVersion records)
  timestamp := now
  patterns := proposal.patterns
  actions := proposal.applied cooldown
  result := resultText (proposal.applied cooldown) cooldown
  version := nextVersion records
  rollbackActions := buildRollbackActions (proposal.applied cooldown) (nextVersion records)
  metricsBefore := before
  metricsAfter := after
  impactScore := impactScore before after
  accepted := passes (impactScore before after) records && !(proposal.applied cooldown).isEmpty

theorem follows_runRecord (now : T) (records : List (ImprovementRecord T)) (cooldown : Bool)
    (proposal : Proposal) (before after : ImprovementMetrics) :
    Follows records (runRecord now records cooldown proposal before after) where
  version := rfl
  id := rfl
  rollback := by
    intro action hmem
    obtain ⟨_, _, rfl⟩ := List.mem_map.1 hmem
    rfl
  accepted := rfl

/-- Between two runs: the improvement records are those of runs, and others will not append any. -/
structure Shared (w : World T) : Prop where
  onlyRuns : OnlyRuns w.decisions
  noRecords : ∀ batch ∈ w.others, batch.NoRecords

theorem Shared.past {w : World T} (h : Shared w) : Past w 0 w :=
  ⟨rfl, rfl, rfl, h.onlyRuns, h.noRecords⟩

/-- What a run on the world leaves: nothing new where it cannot measure, and else its record. -/
inductive Leaves (sum : List Binary64 → Binary64) (stages : List Fields → Except Fault Proposal)
    (now : T) (w w' : World T) : Prop
  | raised (hshared : Shared w') (hrecords : w'.records = w.records)
      (hnone : ∀ proposal before after, ¬ Measures sum stages w proposal before after)
  | recorded {proposal : Proposal} {before after : ImprovementMetrics} (hshared : Shared w')
      (hmeasures : Measures sum stages w proposal before after)
      (hrecords : w'.records
        = w.records ++ [runRecord now w.records w.onCooldown proposal before after])

theorem ends_liftExcept {α : Type} {ret : α → World T → Prop} {exc : Fault → World T → Prop}
    {x : Except Fault α} {w : World T} (hok : ∀ a, x = .ok a → ret a w)
    (herror : (∀ a, x ≠ .ok a) → ∀ e, exc e w) : Ends ret exc (liftExcept x) w := by
  cases x with
  | ok a => exact hok a rfl
  | error e => exact herror (fun _ => nofun) e

theorem isImprovementRecord_notice (cooldown : Bool) : ∀ event ∈ notice cooldown,
    Improvement.isImprovementRecord event.toFields = false := by
  intro event hmem
  cases cooldown
  · cases hmem
  · rw [List.mem_singleton.1 hmem]
    rfl

theorem leaves_of_past {now : T} {w w' : World T} {n : ℕ} (h : Past w n w') {proposal : Proposal}
    {before after : ImprovementMetrics} (hmeasures : Measures sum stages w proposal before after) :
    let record := runRecord now w.records w.onCooldown proposal before after
    Leaves sum stages now w { w'.next with
      decisions := w'.next.decisions ++ [.improvement record (rollbackExecuted record)] } := by
  intro record
  refine .recorded ⟨fun fields hmem => ?_, h.next.noRecords⟩ hmeasures ?_
  · rcases List.mem_append.1 hmem with hmem | hmem
    · exact h.next.onlyRuns fields hmem
    · cases List.mem_singleton.1 hmem
  · show (w'.next.decisions ++ [_]).filterMap _ = _
    rw [List.filterMap_append]
    exact congrArg (· ++ [record]) h.next.records

theorem leaves_run (now : T) {w : World T} (h : Shared w) :
    Ends (fun _ w' => Leaves sum stages now w w') (fun _ w' => Leaves sum stages now w w')
      (run sum stages now) w := by
  have hraised : ∀ {n : ℕ} {w' : World T}, Past w n w' →
      (∀ proposal before after, ¬ Measures sum stages w proposal before after) →
      Leaves sum stages now w w' :=
    fun hpast hnone => .raised ⟨hpast.onlyRuns, hpast.noRecords⟩ hpast.records hnone
  refine ends_bind_of (ends_isOnCooldown_past h.past) ?_
  rintro _ w₁ ⟨rfl, h₁⟩
  refine ends_bind_of (ends_readExecutionHistory h₁) ?_
  rintro _ w₂ ⟨rfl, h₂⟩
  refine ends_bind.2 (ends_liftExcept (fun before hbefore => ?_) fun hnone _ => hraised h₂
    fun _ before _ hmeasures => hnone before hmeasures.before)
  refine ends_bind.2 (ends_liftExcept (fun proposal hproposal => ?_) fun hnone _ => hraised h₂
    fun proposal _ _ hmeasures => hnone proposal hmeasures.stages)
  refine ends_bind_of (ends_writeEvents_past (isImprovementRecord_actionEvents _ _) h₂)
    fun _ w₃ h₃ => ?_
  refine ends_bind_of (ends_writeEvents_past (isImprovementRecord_actionEvents _ _) h₃)
    fun _ w₄ h₄ => ?_
  refine ends_bind_of (ends_writeEvents_past (isImprovementRecord_notice w.onCooldown) h₄)
    fun _ w₅ h₅ => ?_
  refine ends_bind_of (ends_readExecutionHistory h₅) ?_
  rintro _ w₆ ⟨rfl, h₆⟩
  have hafter : w.executionAt (1 + 1 + (actionEvents (proposal.applied w.onCooldown) "success").length
      + (actionEvents proposal.rejectedActions "rejected").length
      + (notice w.onCooldown).length + 1)
      = w.executionAt ((proposal.events w.onCooldown).length + 3) := by
    rw [Proposal.events, List.length_append, List.length_append]
    congr 1
    omega
  refine ends_bind.2 (ends_liftExcept (fun after hmeasured => ?_) fun hnone _ => hraised h₆
    fun proposal' _ after hmeasures => ?_)
  rotate_left
  · cases hproposal.symm.trans hmeasures.stages
    exact hnone after (hafter ▸ hmeasures.after)
  refine ends_bind_of (ends_shouldAccept _ h₆) ?_
  rintro _ w₇ ⟨rfl, _, h₇⟩
  refine ends_bind_of (ends_nextImprovementVersion h₇) ?_
  rintro _ w₈ ⟨rfl, _, h₈⟩
  refine ends_bind_of (ends_nextImprovementVersion h₈) ?_
  rintro _ w₉ ⟨rfl, _, h₉⟩
  exact leaves_of_past h₉ ⟨hproposal, hbefore, hafter ▸ hmeasured⟩

/-- **A run leaves the improvement records sound unless it applies an action and cannot score it.** -/
theorem sound_leaves_iff {now : T} {w w' : World T} (h : Leaves sum stages now w w')
    (hsound : Sound w.records) : Sound w'.records ↔ ¬ Unscored sum stages w := by
  cases h with
  | raised _ hrecords hnone =>
      rw [hrecords]
      exact iff_of_true hsound fun ⟨_, _, _, hmeasures, _⟩ => hnone _ _ _ hmeasures
  | @recorded proposal before after _ hmeasures hrecords =>
      rw [hrecords, sound_concat_iff hsound (follows_runRecord _ _ _ _ _ _), not_iff_not]
      have hnan : impactScore before after = .nan ↔ Unscorable before after :=
        impactScore_eq_nan_iff (rated_compute hmeasures.before) (rated_compute hmeasures.after)
      constructor
      · rintro ⟨hactions, hscore⟩
        exact ⟨proposal, before, after, hmeasures, hactions, hnan.1 hscore⟩
      · rintro ⟨proposal', before', after', hmeasures', hactions, hscore⟩
        cases hmeasures.stages.symm.trans hmeasures'.stages
        cases hmeasures.before.symm.trans hmeasures'.before
        cases hmeasures.after.symm.trans hmeasures'.after
        exact ⟨hactions, hnan.2 hscore⟩

theorem Leaves.shared {now : T} {w w' : World T} (h : Leaves sum stages now w w') : Shared w' := by
  cases h with
  | raised hshared => exact hshared
  | recorded hshared => exact hshared

theorem Leaves.begins {now : T} {w w' : World T} (h : Leaves sum stages now w w') :
    w.records <+: w'.records := by
  cases h with
  | raised _ hrecords => exact hrecords ▸ List.prefix_rfl
  | recorded _ _ hrecords => exact ⟨_, hrecords.symm⟩

/-- Sound records are sound as far as they have come before. -/
theorem Sound.of_prefix {records more : List (ImprovementRecord T)} (h : Sound more)
    (hbegins : records <+: more) : Sound records := by
  obtain ⟨rest, rfl⟩ := hbegins
  have htake : ∀ {α : Type} {f : ImprovementRecord T → α} {value : ℕ → α},
      (records ++ rest).map f = (List.range' 1 (records ++ rest).length).map value →
        records.map f = (List.range' 1 records.length).map value := by
    intro α f value hmap
    have hfirst := congrArg (List.take records.length) hmap
    rwa [List.map_append, List.take_left' (List.length_map f), ← List.map_take, List.length_append,
      List.take_range'_of_length_ge (Nat.le_add_right _ _)] at hfirst
  have hincreasing := h.increasing
  have hdistinct := h.distinct
  rw [List.filter_append, List.map_append] at hincreasing
  rw [List.map_append] at hdistinct
  exact {
    versions := htake h.versions
    ids := htake h.ids
    distinct := hdistinct.of_append_left
    rollback := fun record hmem => h.rollback record (List.mem_append_left _ hmem)
    accepted := fun record hmem => h.accepted record (List.mem_append_left _ hmem)
    increasing := (List.pairwise_append.1 hincreasing).1 }

end Run

/-! ### Runs -/

section Runs

variable (sum : List Binary64 → Binary64) (stages : List Fields → Except Fault Proposal)

/-- One run after the other, on what the one before it has left. -/
def runs (times : List T) (w : World T) : World T :=
  times.foldl (fun w now => finalState (run sum stages now w)) w

/-- Every run of the series that applies an action has latencies to score it by. -/
def EachScored : List T → World T → Prop
  | [], _ => True
  | now :: later, w =>
      ¬ Unscored sum stages w ∧ EachScored later (finalState (run sum stages now w))

variable {sum stages}

theorem eachScored_singleton {now : T} {w : World T} :
    EachScored sum stages [now] w ↔ ¬ Unscored sum stages w := and_iff_left trivial

theorem leaves_finalState (now : T) {w : World T} (h : Shared w) :
    Leaves sum stages now w (finalState (run sum stages now w)) := by
  have hends : Ends _ _ (run sum stages now) w := leaves_run now h
  rcases hrun : run sum stages now w with ⟨_, w'⟩ | ⟨_, w'⟩
  · exact (ends_of_ok hrun).1 hends
  · exact (ends_of_error hrun).1 hends

theorem prefix_runs (times : List T) {w : World T} (h : Shared w) :
    w.records <+: (runs sum stages times w).records := by
  induction times generalizing w with
  | nil => exact List.prefix_rfl
  | cons now later ih =>
      have hleaves : Leaves sum stages now w _ := leaves_finalState now h
      exact hleaves.begins.trans (ih hleaves.shared)

theorem sound_runs_iff (times : List T) {w : World T} (h : Shared w) (hsound : Sound w.records) :
    Sound (runs sum stages times w).records ↔ EachScored sum stages times w := by
  induction times generalizing w with
  | nil => exact iff_of_true hsound trivial
  | cons now later ih =>
      have hleaves : Leaves sum stages now w _ := leaves_finalState now h
      have hstep := sound_leaves_iff hleaves hsound
      by_cases hscored : Unscored sum stages w
      · refine iff_of_false (fun hafter => ?_) fun heach => heach.1 hscored
        exact hstep.1 (hafter.of_prefix (prefix_runs later hleaves.shared)) hscored
      · exact (ih hleaves.shared (hstep.2 hscored)).trans (and_iff_right hscored).symm

/-- **After any number of runs the improvement records are sound exactly if each run that applied an
action had latencies to score it by.** -/
theorem runs_sound_iff (sum : List Binary64 → Binary64) (stages : List Fields → Except Fault Proposal)
    (times : List T) (w : World T) (hempty : w.decisions = [])
    (hothers : ∀ batch ∈ w.others, batch.NoRecords) :
    Sound (runs sum stages times w).records ↔ EachScored sum stages times w := by
  refine sound_runs_iff times ⟨?_, hothers⟩ ?_
  · rw [OnlyRuns, hempty]
    exact fun _ hmem => absurd hmem List.not_mem_nil
  · rw [World.records, hempty]
    exact sound_nil

end Runs

/-! ### A repair, and latencies beyond the largest float -/

/-- Others replace the execution stream, and note that in the decision stream. -/
def executes (execution : List Fields) : Batch where
  execution _ := execution
  records := [[("event", .str "executed")]]

/-- The steps fail before the engine reads the history, and succeed before it reads it again. -/
def repairedWorld : World Instant where
  execution := []
  decisions := []
  others := [executes [], executes [failedStep "fetch" (.float 25 (-1))],
    executes [[("success", .bool true)]]]

theorem compute_failed : (compute leftSum [failedStep "fetch" (.float 25 (-1))]).map
    ImprovementMetrics.avgStepLatency = .ok (.ofRat (25 / 10)) := by
  decide +kernel

theorem compute_repaired : (compute leftSum [[("success", .bool true)]]).map
    ImprovementMetrics.avgStepLatency = .ok 0 := by
  decide +kernel

theorem not_unscored_repaired : ¬ Unscored leftSum propose repairedWorld := by
  rintro ⟨proposal, before, after, hmeasures, -, hunscorable⟩
  have hlater : ∀ n, repairedWorld.executionAt (n + 3) = [[("success", .bool true)]] := by
    intro n
    rw [World.executionAt, List.take_of_length_le (Nat.le_add_left 3 n)]
    rfl
  have hbefore : compute leftSum [failedStep "fetch" (.float 25 (-1))] = .ok before :=
    hmeasures.before
  have hafter := hmeasures.after
  rw [hlater] at hafter
  have hfailed := compute_failed
  have hrepaired := compute_repaired
  rw [hbefore] at hfailed
  rw [hafter] at hrepaired
  have hlatency : before.avgStepLatency = .ofRat (25 / 10) := Except.ok.inj hfailed
  have hzero : after.avgStepLatency = 0 := Except.ok.inj hrepaired
  rw [Unscorable, hlatency, hzero] at hunscorable
  exact absurd hunscorable (by decide +kernel)

theorem noRecords_repaired : ∀ batch ∈ repairedWorld.others, batch.NoRecords := by
  have hexecutes : ∀ execution, (executes execution).NoRecords := by
    intro execution fields hmem
    rw [List.mem_singleton.1 hmem]
    decide
  intro batch hmem
  simp only [repairedWorld, List.mem_cons, List.not_mem_nil, or_false] at hmem
  rcases hmem with rfl | rfl | rfl <;> exact hexecutes _

/-- A run that accepts its improvement. -/
theorem runs_sound_repaired :
    (runs leftSum propose [Instant.mk] repairedWorld).records.any ImprovementRecord.accepted = true
      ∧ Sound (runs leftSum propose [Instant.mk] repairedWorld).records := by
  refine ⟨by decide +kernel, ?_⟩
  exact (runs_sound_iff leftSum propose [Instant.mk] repairedWorld rfl noRecords_repaired).2
    (eachScored_singleton.2 not_unscored_repaired)

/-- Two latencies of which each is a float and the sum is not. -/
def overflowingWorld : World Instant := (call (.float 1 308)).world []

/-- The record of the run is accepted with NaN for a score. -/
theorem runs_overflow_not_sound :
    ¬ Sound (runs leftSum propose [Instant.mk] overflowingWorld).records := by
  have hnan : ∃ record ∈ (runs leftSum propose [Instant.mk] overflowingWorld).records,
      record.accepted = true ∧ record.impactScore = .nan := by
    decide +kernel
  obtain ⟨record, hmem, haccepted, hscore⟩ := hnan
  intro hsound
  have hdelta := (hsound.accepted record hmem haccepted).2
  rw [hscore, not_atMost_nan] at hdelta
  cases hdelta

end PersonalDevin.Improvement.Gates
