import PersonalDevin.Execution.Rounds

/-!
# Which runs skip no task, and which explain every failure

The plan and the answers of its handlers decide both.
-/

namespace PersonalDevin.Execution

open Lib
open Planning (TaskNode ExecutionPlan)

def lastRound (rounds : List Round) (id : String) : Option Round :=
  rounds.reverse.find? fun round => round.id = id

/-- After those before it, the round executes its task: with `stop_on_failure` they have all ended
COMPLETED, and of the ids it depends on none stands in it or after it, and each that stands before it
has ended COMPLETED where it stands last. -/
structure Ready (stopOnFailure : Bool) (before : List Round) (round : Round) (after : List Round) :
    Prop where
  running : stopOnFailure = true → ∀ earlier ∈ before, earlier.outcome = .completed
  ordered : ∀ dep ∈ round.node.dependencies, dep ∉ (round :: after).map Round.id
  finished : ∀ dep ∈ round.node.dependencies, ∀ found, lastRound before dep = some found →
    found.outcome = .completed

/-- Each of the rounds is ready after those before it. -/
def EachReady (stopOnFailure : Bool) (before : List Round) : List Round → Prop
  | [] => True
  | round :: after =>
      Ready stopOnFailure before round after ∧ EachReady stopOnFailure (before ++ [round]) after

/-- Each of the rounds that is reached has a handler that is not silent. -/
def EachHeard (stopOnFailure : Bool) (before : List Past) : List Round → Prop
  | [] => True
  | round :: after =>
      (Reached stopOnFailure before round after →
          ¬ Silent round.task.start (round.handlers.get? round.id))
        ∧ EachHeard stopOnFailure (before ++ [round.over stopOnFailure before after]) after

/-! ### Rounds that have all executed their task -/

/-- The round over, when it has executed its task. -/
def Round.executed (round : Round) : Past where
  round := round
  completed := decide (round.outcome = .completed)

variable {stopOnFailure : Bool} {before : List Round} {round : Round} {after : List Round}

theorem lastPast_executed (before : List Round) (id : String) :
    lastPast (before.map Round.executed) id = (lastRound before id).map Round.executed := by
  rw [lastPast, ← List.map_reverse, List.find?_map]
  rfl

theorem reached_executed_iff :
    Reached stopOnFailure (before.map Round.executed) round after
      ↔ Ready stopOnFailure before round after := by
  have hcompleted : ∀ earlier : Round,
      earlier.executed.completed = true ↔ earlier.outcome = .completed :=
    fun _ => decide_eq_true_iff
  constructor
  · rintro ⟨hrunning, hordered, hfinished⟩
    refine ⟨fun hstop earlier hmem => ?_, hordered, fun dep hdep found hfound => ?_⟩
    · exact (hcompleted earlier).1 (hrunning hstop _ (List.mem_map_of_mem hmem))
    · exact (hcompleted found).1 (hfinished dep hdep _ (by rw [lastPast_executed, hfound]; rfl))
  · rintro ⟨hrunning, hordered, hfinished⟩
    refine ⟨fun hstop => List.forall_mem_map.2 fun earlier hmem => ?_, hordered,
      fun dep hdep past hpast => ?_⟩
    · exact (hcompleted earlier).2 (hrunning hstop earlier hmem)
    · rw [lastPast_executed, Option.map_eq_some_iff] at hpast
      obtain ⟨found, hfound, rfl⟩ := hpast
      exact (hcompleted found).2 (hfinished dep hdep found hfound)

theorem over_executed (h : Ready stopOnFailure before round after) :
    round.over stopOnFailure (before.map Round.executed) after = round.executed := by
  simp [Round.over, Round.executed, reached_executed_iff, h]

/-! ### Runs -/

theorem EachLeaves.not_skipped_iff {pasts : List Past} {rounds : List Round}
    {tasks : List ExecutionTask} (h : EachLeaves stopOnFailure pasts rounds tasks)
    (hpasts : pasts = before.map Round.executed) :
    (∀ task ∈ tasks, task.status ≠ .skipped) ↔ EachReady stopOnFailure before rounds := by
  induction h generalizing before with
  | nil => exact iff_of_true (fun _ hmem => absurd hmem List.not_mem_nil) trivial
  | @cons _ round after _ _ hround _ ih =>
      subst hpasts
      have hready := hround.skipped.not_left.trans reached_executed_iff
      rw [List.forall_mem_cons, EachReady, ne_eq, hready]
      refine and_congr_right fun hready => ih ?_
      rw [over_executed hready, List.map_append, List.map_singleton]

theorem EachLeaves.explained_iff {pasts : List Past} {rounds : List Round}
    {tasks : List ExecutionTask} (h : EachLeaves stopOnFailure pasts rounds tasks) :
    (∀ task ∈ tasks, Explained task) ↔ EachHeard stopOnFailure pasts rounds := by
  induction h with
  | nil => exact iff_of_true (fun _ hmem => absurd hmem List.not_mem_nil) trivial
  | cons hround _ ih => rw [List.forall_mem_cons, EachHeard, hround.explained, ih]

/-- **No task is skipped exactly if each round is ready after those before it.** -/
theorem runAnswering_skipped_iff (stopOnFailure : Bool) (handlers : ℕ → Dict String TaskHandler)
    (plan : ExecutionPlan) :
    (runAnswering stopOnFailure handlers plan).report.skippedTasks = 0
      ↔ EachReady stopOnFailure [] (roundsFrom handlers 0 plan.orderedTasks) := by
  have hleaves : EachLeaves stopOnFailure (List.map Round.executed []) _ _ :=
    eachLeaves_run stopOnFailure handlers plan
  rw [← hleaves.not_skipped_iff rfl]
  show List.countP _ _ = 0 ↔ _
  rw [List.countP_eq_zero]
  simp only [decide_eq_true_eq]
  rfl

/-- **Every task that fails or is skipped has a text exactly if no round that is reached is silent.** -/
theorem runAnswering_explained_iff (stopOnFailure : Bool) (handlers : ℕ → Dict String TaskHandler)
    (plan : ExecutionPlan) :
    (∀ task ∈ (runAnswering stopOnFailure handlers plan).report.tasks, Explained task)
      ↔ EachHeard stopOnFailure [] (roundsFrom handlers 0 plan.orderedTasks) :=
  (eachLeaves_run stopOnFailure handlers plan).explained_iff

end PersonalDevin.Execution
