import PersonalDevin.Execution.Skips
import PersonalDevin.Orchestration.Controller

/-!
# The report of the runner before the validation of the controller

`Runner._build_report` counts, and `OrchestrationController._validate_execution_report` counts again.
-/

namespace PersonalDevin.Orchestration

open Lib
open Execution (Consistent EachHeard ExecutionReport Explained TaskHandler roundsFrom runAnswering
  runAnswering_consistent runAnswering_const runAnswering_explained_iff)
open Planning (ExecutionPlan)

theorem validateExecutionReport_of_consistent {σ : Type} {plan : ExecutionPlan}
    {report : ExecutionReport} (h : Consistent plan report) (world : σ) :
    ∃ summary, Reports.own.validateExecutionReport report world = .ok summary := by
  refine Reports.accepts_iff.2 ⟨report.tasks, report.totalTasks, report.completedTasks,
    report.failedTasks, report.skippedTasks, report.status, rfl, rfl, rfl, rfl, rfl, rfl,
    congrArg _ h.length_eq, by exact_mod_cast h.sum, fun hpos => ?_, fun hnone => ?_⟩
  · exact h.status_of_failed (by exact_mod_cast hpos)
  · exact h.status_of_completed (by exact_mod_cast hnone.1) (by exact_mod_cast hnone.2)

/-- A report of the plan that is consistent, that explains what has not COMPLETED, and that the
controller accepts. -/
structure Accepted (plan : ExecutionPlan) (report : ExecutionReport) : Prop where
  consistent : Consistent plan report
  explained : ∀ task ∈ report.tasks, Explained task
  validated : ∃ summary, Reports.own.validateExecutionReport report () = .ok summary

theorem runAnswering_accepted_iff (stopOnFailure : Bool) (handlers : ℕ → Dict String TaskHandler)
    (plan : ExecutionPlan) :
    Accepted plan (runAnswering stopOnFailure handlers plan).report
      ↔ EachHeard stopOnFailure [] (roundsFrom handlers 0 plan.orderedTasks) := by
  have hconsistent := runAnswering_consistent stopOnFailure handlers plan
  rw [← runAnswering_explained_iff]
  exact ⟨fun h => h.explained,
    fun hexplained => ⟨hconsistent, hexplained, validateExecutionReport_of_consistent hconsistent ()⟩⟩

/-- **The report of the runner is consistent and accepted, with a text for every task that is not
COMPLETED, exactly if no handler it reaches is silent**, also where a handler does not answer alike each
time. -/
theorem run_report_accepted_iff (stopOnFailure : Bool) (plan : ExecutionPlan) :
    (∀ handlers : Dict String TaskHandler,
        Accepted plan (Execution.run stopOnFailure handlers plan).report
          ↔ EachHeard stopOnFailure [] (roundsFrom (fun _ => handlers) 0 plan.orderedTasks))
      ∧ ∀ handlers : ℕ → Dict String TaskHandler,
        Accepted plan (runAnswering stopOnFailure handlers plan).report
          ↔ EachHeard stopOnFailure [] (roundsFrom handlers 0 plan.orderedTasks) := by
  refine ⟨fun handlers => ?_, fun handlers => runAnswering_accepted_iff stopOnFailure handlers plan⟩
  rw [← runAnswering_const]
  exact runAnswering_accepted_iff stopOnFailure _ plan

/-- A handler that returns an object whose text cannot be had: the exception for it has none either. -/
def speechless : Dict String TaskHandler :=
  Dict.empty.set "a" fun _ => .returned (.other (.error ""))

def speechlessPlan : ExecutionPlan where
  orderedTasks := [⟨"a", "step", [], []⟩]
  executionGroups := [⟨0, ["a"]⟩]
  metadata := ⟨1, false⟩

/-- The task has FAILED, and its error is empty. -/
theorem run_report_unexplained :
    ¬ Accepted speechlessPlan (Execution.run true speechless speechlessPlan).report := by
  intro haccepted
  obtain ⟨text, htext, hne⟩ := haccepted.explained
    ⟨"a", "step", [], .failed, none, some "", none⟩ (List.mem_singleton.2 rfl) nofun
  exact hne (Option.some.inj htext).symm

end PersonalDevin.Orchestration
