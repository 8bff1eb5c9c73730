import PersonalDevin.Adaptation.ClosedLoop
import PersonalDevin.Memory.Feedback
import PersonalDevin.SelfImprovement.Engine

/-!
# The loop from a goal on

`AgentLoop.run` with its planning and its execution, and with all collaborators that it makes for itself.
The one task of its plan has no handler, so it is completed. On a memory that holds nothing but the
records of successes no run fails a goal, proposes an adaptation or has an improvement to make, and it
leaves such a memory, whether it returns or raises.
-/

namespace PersonalDevin.Loop

open Lib
open Adaptation (Outcome outcome wired)
open Execution (ExecutionReport)
open Memory (MemoryRecord ServiceCall Streams Timestamp Zoned)
open Planning (ExecutionPlan Heap)
open SelfImprovement (ImprovementAction Quiet QuietRecord entrySucceeded_of_status)
open SelfImprovement.Evaluator (violates)

variable {T : Type} [Timestamp T] [Zoned T]

/-! ### The whole run -/

def goalToTasks (goal : String) : Heap where
  tasks := [⟨none, [("id", .str "task-1"), ("description", .str goal), ("dependencies", .list [])],
    rfl⟩]
  dicts := []

section Whole

variable (loop : AgentLoop T) (fails : ℕ → Option Fault)

/-- `_plan`. What it raises is not transient. -/
def planGoal (goal : String) : EStateM Raised World ExecutionPlan := fun s =>
  match Memory.MemoryService.getFeedbackContext (loop.wallClock (stored s.content)) s.content
      (iterationId loop goal) with
  | none => .error .other s
  | some context =>
      match (Planning.plan 0 (some context) (goalToTasks goal)).1 with
      | .ok plan => .ok plan s
      | .error _ => .error .valueError s

/-- `_execute`: `run_plan` without handlers. -/
def execute (plan : ExecutionPlan) : ExecutionReport := (Execution.run true .empty plan).report

/-- `run`, for a goal without surrounding white space and adaptations that no policy raises on. -/
def runWholeGoal (goal : String) (injected : List RuntimeAdaptation) :
    EStateM Raised World (AgentResult T) := do
  let modifiers := appliedModifiers loop injected
  writeAll (raisedBy fails) (performCall loop) (injectedCalls loop goal injected)
  let plan ← runStepWithRetry loop (planGoal loop goal)
  let report := execute plan
  let signal ← runStepWithRetry loop (validate loop fails goal modifiers report)
  let reflection ← runStepWithRetry loop
    (reflectStep loop fails goal modifiers plan report signal)
  return {
    goal
    status := classify report
    plan
    execution := report
    reflection
    evaluation := evaluation loop goal modifiers report
    feedback := signal
    adaptation := loop.processFeedback signal.toFeedback
    appliedModifiers := modifiers }

/-- `run`. -/
def runWhole (goal : String) (injected : List RuntimeAdaptation) :
    EStateM Raised World (AgentResult T) :=
  if strip goal = "" then throw .valueError
  else if raisesOnInjected loop injected then throw .other
  else runWholeGoal loop fails (strip goal) injected

/-- An approved action, as it is stored. -/
def improvementOf (action : ImprovementAction) : Improvement where
  fields := [("type", .str action.type.text), ("target", .str action.target),
    ("value", action.value), ("confidence", .ofDecimal 4 action.confidence)]

/-- The loop with its own collaborators, the self-improvement engine among them. -/
def production : AgentLoop T := wired { loop with
  approve := fun streams => .ok
    ((SelfImprovement.SelfImprovementEngine.run (loop.wallClock (stored streams)) streams).map
      improvementOf) }

/-- What is asked of the loop. -/
structure Job where
  goal : String
  injected : List RuntimeAdaptation

/-- Runs on one memory, one after the other, whether they return or raise. -/
def runJobs : List Job → World → List (AgentResult T) × World
  | [], w => ([], w)
  | job :: jobs, w =>
      match runWhole loop fails job.goal job.injected w with
      | .ok result w' => (result :: (runJobs jobs w').1, (runJobs jobs w').2)
      | .error _ w' => runJobs jobs w'

end Whole

/-! ### The plan and the report -/

/-- What a run makes of a goal: the plan of one task, and the report of its completion. -/
structure Completes (goal : String) (plan : ExecutionPlan) : Prop where
  planned : ∃ metadata, plan.orderedTasks = [⟨"task-1", goal, [], metadata⟩]
  executed : execute plan = {
    tasks := [⟨"task-1", goal, [], .completed, some "", none, none⟩]
    status := .completed
    totalTasks := 1
    completedTasks := 1
    failedTasks := 0
    skippedTasks := 0 }

theorem completes_of_planned {goal : String} {plan : ExecutionPlan} {metadata : Fields}
    (h : plan.orderedTasks = [⟨"task-1", goal, [], metadata⟩]) : Completes goal plan := by
  refine ⟨⟨metadata, h⟩, ?_⟩
  rw [execute, Execution.run, h]
  rfl

variable {loop : AgentLoop T} {fails : ℕ → Option Fault}

/-- Planning a goal reads the memory only, and what it raises is not tried again. -/
theorem planGoal_ends {goal : String} (hgoal : goal ≠ "") (s : World) :
    Ends (fun plan s' => Completes goal plan ∧ s' = s) (fun _ s' => s' = s)
      (runStepWithRetry loop (planGoal loop goal)) s := by
  have hstandalone : Planning.Standalone ((goalToTasks goal).task 0).others "task-1" goal :=
    ⟨rfl, by decide, rfl, hgoal, rfl⟩
  have hmetadata : Planning.DictOrMissing (goalToTasks goal) 0 := fun v hv => by cases hv
  rcases hcontext : Memory.MemoryService.getFeedbackContext (loop.wallClock (stored s.content))
    s.content (iterationId loop goal) with _ | context
  · have hraised : planGoal loop goal s = .error .other s := by
      simp only [planGoal, hcontext]
    exact (ends_of_error (retry_of_final _ hraised (by decide))).2 rfl
  · obtain ⟨plan, hplan, hordered⟩ : ∃ plan,
        (Planning.plan 0 (some context) (goalToTasks goal)).1 = .ok plan
          ∧ plan.orderedTasks = [⟨"task-1", goal, [], _⟩] :=
      Memory.plan_standalone hstandalone (.inl hmetadata)
    have hreturned : planGoal loop goal s = .ok plan s := by
      simp only [planGoal, hcontext, hplan]
    exact (ends_of_ok (retry_of_ok _ hreturned)).2 ⟨completes_of_planned hordered, rfl⟩

/-- A whole run that returns is the run of its plan and of the report of its completion. -/
theorem runWholeGoal_eq_ok {goal : String} {injected : List RuntimeAdaptation} {s w : World}
    {result : AgentResult T} (hgoal : goal ≠ "")
    (h : runWholeGoal loop fails goal injected s = .ok result w) :
    ∃ plan, Completes goal plan
      ∧ runGoal loop fails goal ⟨goal, injected, plan, execute plan⟩ s = .ok result w := by
  obtain ⟨_, s₁, hinjected, hplanned⟩ := bind_eq_ok h
  obtain ⟨plan, s₂, hplan, hrest⟩ := bind_eq_ok hplanned
  obtain ⟨hcompletes, rfl⟩ := (ends_of_ok hplan).1 (planGoal_ends hgoal s₁)
  exact ⟨plan, hcompletes, (bind_of_ok hinjected).trans hrest⟩

/-! ### What a run writes -/

/-- A call that writes the record of a success. -/
def QuietCall : ServiceCall T → Prop
  | .logExecution status _ _ _ _ _ => status = "success"
  | .logTask .. => True
  | .logFailure .. => False
  | .logDecision decision _ _ => "violation:".toList.isPrefixOf decision.toList = false
  | .recordExecution args => args.success = true

omit [Zoned T] in
theorem quietRecord_of_call {call : ServiceCall T} (h : QuietCall call) {data : Fields}
    (hdata : call.data = some data) {record : MemoryRecord T} (htype : record.type = call.type)
    (hentries : Value.jsonEntries data = some record.data) : QuietRecord record := by
  have hget := Value.get?_jsonEntries hentries
  cases call with
  | logExecution status =>
      obtain rfl : status = "success" := h
      obtain rfl := Option.some.inj hdata
      simp only [QuietRecord, htype, ServiceCall.type]
      exact ⟨entrySucceeded_of_status (hget "status"), hget "latency"⟩
  | logTask =>
      obtain rfl := Option.some.inj hdata
      simp only [QuietRecord, htype, ServiceCall.type]
      exact hget "retry_count"
  | logFailure => exact h.elim
  | logDecision decision =>
      obtain rfl := Option.some.inj hdata
      have hdecision : record.data.get? "decision" = some (.str decision) := hget "decision"
      simp only [QuietRecord, htype, ServiceCall.type, violates, textField, hdecision]
      exact h
  | recordExecution args =>
      simp only [ServiceCall.data, Memory.ExecutionArgs.data, Option.bind_eq_bind,
        Option.bind_eq_some_iff, Option.pure_def, Option.some.injEq] at hdata
      obtain ⟨_, _, _, _, _, _, _, _, _, _, rfl⟩ := hdata
      have hsuccess : args.success = true := h
      have hstatus := hget "status"
      simp only [hsuccess, if_true] at hstatus
      simp only [QuietRecord, htype, ServiceCall.type]
      exact ⟨entrySucceeded_of_status hstatus, hget "latency"⟩

omit [Zoned T] in
/-- **A memory of successes is kept by such a call.** -/
theorem quiet_of_performCall {call : ServiceCall T} (hcall : QuietCall call) {c c' : Streams}
    (h : Quiet T c) (hperform : performCall loop call c = .ok c') : Quiet T c' := by
  unfold performCall at hperform
  split at hperform
  · rename_i record streams' hwritten
    cases hperform
    obtain ⟨data, payload, hdata, rfl, hpayload, rfl⟩ := Memory.perform_eq_some hwritten
    obtain ⟨stored, ⟨storedData, hentries, rfl⟩, hread⟩ := Memory.fromDict_toDict hpayload
    intro type other hother
    rw [Streams.push, Function.update_apply] at hother
    split at hother
    · rename_i htype
      rcases List.mem_append.1 hother with hother | hother
      · exact h _ _ hother
      · obtain rfl := List.mem_singleton.1 hother
        exact ⟨⟨other, _, hread⟩, rfl, quietRecord_of_call hcall hdata rfl hentries⟩
    · exact h type other hother
  · cases hperform

section Calls

variable (loop) {goal : String} {plan : ExecutionPlan}

omit [Timestamp T] [Zoned T] in
theorem quiet_injectedCalls (injected : List RuntimeAdaptation) :
    ∀ call ∈ injectedCalls loop goal injected, QuietCall call := by
  unfold injectedCalls
  split
  · exact nofun
  · intro call hmem
    rw [List.mem_singleton.1 hmem]
    show "violation:".toList.isPrefixOf "injected_adaptation_applied".toList = false
    decide

omit [Zoned T] in
/-- A clean feedback writes down no failure. -/
theorem quiet_feedbackCalls {signal : FeedbackSignal T} (h : signal.success = true) :
    ∀ call ∈ feedbackCalls loop signal, QuietCall call := by
  have hfailure : feedbackFailure signal.toFeedback = none := if_pos h
  intro call hmem
  rw [feedbackCalls, hfailure, Option.map_none, Option.toList_none, List.mem_singleton] at hmem
  rw [hmem]
  show "violation:".toList.isPrefixOf "feedback_signal".toList = false
  decide

omit [Zoned T] in
theorem quiet_persistCalls (h : Completes goal plan) (modifiers : Fields) (signal : FeedbackSignal T)
    (time : T) :
    ∀ call ∈ persistCalls loop goal modifiers plan (execute plan) signal time, QuietCall call := by
  have hexecuted := h.executed
  have hstatus : classify (execute plan) = .success := by
    rw [hexecuted]
    rfl
  have htasks : (execute plan).tasks.flatMap (taskCalls (T := T) goal)
      = [.logTask "task-1" "completed" (some "") none none] := by
    rw [hexecuted]
    rfl
  intro call hmem
  rw [persistCalls, htasks] at hmem
  simp only [List.cons_append, List.nil_append, List.mem_cons, List.not_mem_nil, or_false] at hmem
  rcases hmem with rfl | rfl | rfl | rfl
  · exact decide_eq_true hstatus
  · show (classify (execute plan)).text = "success"
    rw [hstatus]
    rfl
  · trivial
  · show "violation:".toList.isPrefixOf (classify (execute plan)).text.toList = false
    rw [hstatus]
    decide

end Calls

/-! ### Runs on a memory of successes -/

theorem outcome_of_completes {goal : String} {plan : ExecutionPlan} (h : Completes goal plan) :
    outcome (execute plan) = .clean := by
  rw [h.executed]
  rfl

section Runs

variable {goal : String} {injected : List RuntimeAdaptation}

omit [Zoned T] in
theorem keeps_quiet_writes {calls : List (ServiceCall T)} (hcalls : ∀ call ∈ calls, QuietCall call) :
    Keeps (fun s : World => Quiet T s.content)
      (writeAll (raisedBy fails) (performCall loop) calls) :=
  keeps_writeAll (Quiet T) fun call hmem _ _ h => quiet_of_performCall (hcalls call hmem) h

omit [Zoned T] in
/-- A step of the loop that writes such records keeps the memory. -/
theorem keeps_quiet_batch {α : Type} {batch : Streams → List (ServiceCall T)} {value : Streams → α}
    (hbatch : ∀ c, ∀ call ∈ batch c, QuietCall call) :
    Keeps (fun s : World => Quiet T s.content)
      (batchStep (raisedBy fails) (performCall loop) batch value) := by
  refine Keeps.bind (fun _ h => h) fun s => ?_
  exact (keeps_quiet_writes (hbatch s.content)).bind fun _ => keeps_pure _

omit [Zoned T] in
/-- A reflection keeps what its writes and the self-improvement keep. -/
theorem keeps_reflect {Inv : World → Prop} {modifiers : Fields} {plan : ExecutionPlan}
    {report : ExecutionReport} {signal : FeedbackSignal T}
    (hbatch : Keeps Inv (batchStep (raisedBy fails) (performCall loop)
      (fun c => persistCalls loop goal modifiers plan report signal (loop.now (stored c)))
      (fun _ => reflection loop report)))
    (hself : Keeps Inv (runSelfImprovement loop fails)) :
    Keeps Inv (runStepWithRetry loop
      (reflectStep loop fails goal modifiers plan report signal)) :=
  Keeps.retry (hbatch.bind fun _ => hself.bind fun _ => keeps_pure _) _

variable (loop fails)

/-- The engine approves nothing, so it writes nothing. -/
theorem keeps_quiet_selfImprovement :
    Keeps (fun s : World => Quiet T s.content) (runSelfImprovement (production loop) fails) := by
  intro s h
  have happrove : (production loop).approve s.content = .ok [] := by
    show Except.ok (List.map _ (SelfImprovement.SelfImprovementEngine.run _ s.content)) = _
    rw [SelfImprovement.run_of_quiet h]
    rfl
  have hrun : runSelfImprovement (production loop) fails s = .ok ⟨⟩ s := by
    simp only [runSelfImprovement, happrove]
    rfl
  exact (ends_of_ok hrun).2 h

variable {plan : ExecutionPlan} (hcompletes : Completes goal plan)

include hcompletes

theorem runFeedback_of_completes (modifiers : Fields) :
    runFeedback (production loop) goal modifiers (execute plan)
      = Outcome.clean.feedback (iterationId loop goal) modifiers := by
  rw [production, Adaptation.runFeedback_wired, outcome_of_completes hcompletes]
  rfl

theorem keeps_quiet_validate (modifiers : Fields) :
    Keeps (fun s : World => Quiet T s.content)
      (runStepWithRetry (production loop)
        (validate (production loop) fails goal modifiers (execute plan))) := by
  refine Keeps.retry (keeps_quiet_batch fun c => quiet_feedbackCalls _ ?_) _
  show (runFeedback (production loop) goal modifiers (execute plan)).success = true
  rw [runFeedback_of_completes loop hcompletes]
  rfl

theorem keeps_quiet_reflect (modifiers : Fields) (signal : FeedbackSignal T) :
    Keeps (fun s : World => Quiet T s.content)
      (runStepWithRetry (production loop)
        (reflectStep (production loop) fails goal modifiers plan (execute plan) signal)) := by
  have hbatch : Keeps (fun s : World => Quiet T s.content)
      (batchStep (raisedBy fails) (performCall (production loop))
        (fun c => persistCalls (production loop) goal modifiers plan (execute plan) signal
          ((production loop).now (stored c)))
        (fun _ => reflection (production loop) (execute plan))) :=
    keeps_quiet_batch fun _ =>
      quiet_persistCalls (production loop) hcompletes modifiers signal _
  exact keeps_reflect hbatch (keeps_quiet_selfImprovement loop fails)

omit hcompletes

/-- **A run keeps a memory of successes**, whether it returns or raises. -/
theorem keeps_quiet_runWhole (goal : String) (injected : List RuntimeAdaptation) :
    Keeps (fun s : World => Quiet T s.content)
      (runWhole (production loop) fails goal injected) := by
  intro s h
  rw [runWhole]
  split
  · exact h
  split
  · exact h
  · rename_i hgoal _
    have hinjected : Keeps (fun s : World => Quiet T s.content) (writeAll (raisedBy fails)
        (performCall (production loop)) (injectedCalls (production loop) (strip goal) injected)) :=
      keeps_quiet_writes (quiet_injectedCalls (production loop) injected)
    refine ends_bind.2 ((hinjected s h).mono (fun _ s₁ h₁ => ?_) fun _ _ h => h)
    refine ends_bind.2 ((planGoal_ends hgoal s₁).mono ?_ ?_)
    · rintro plan s₂ ⟨hcompletes, rfl⟩
      have hvalidate := keeps_quiet_validate loop fails hcompletes
        (appliedModifiers (production loop) injected) s₂ h₁
      refine ends_bind.2 (hvalidate.mono (fun signal s₃ h₃ => ?_) fun _ _ h => h)
      have hreflect := keeps_quiet_reflect loop fails hcompletes
        (appliedModifiers (production loop) injected) signal s₃ h₃
      exact ends_bind.2 (hreflect.mono (fun _ _ h₄ => h₄) fun _ _ h => h)
    · rintro _ s₂ rfl
      exact h₁

structure Succeeds (goal : String) (result : AgentResult T) : Prop where
  completes : Completes (strip goal) result.plan
  execution : result.execution = execute result.plan
  status : result.status = .success
  feedback : result.feedback.success = true ∧ result.feedback.improvementSuggestions = []
  adaptation : result.adaptation = []

theorem succeeds_of_runWhole {s w : World} {result : AgentResult T}
    (h : runWhole (production loop) fails goal injected s = .ok result w) : Succeeds goal result := by
  rw [runWhole] at h
  split at h
  · cases h
  split at h
  · cases h
  · rename_i hgoal hinjected
    obtain ⟨plan, hcompletes, hrun⟩ := runWholeGoal_eq_ok hgoal h
    have hwhole : run (production loop) fails ⟨goal, injected, plan, execute plan⟩ s
        = .ok result w := by
      rw [run, if_neg hgoal, if_neg hinjected]
      exact hrun
    obtain ⟨hexecution, -, hproposes⟩ := Adaptation.run_proposes hwhole
    have houtcome : outcome result.execution = .clean := by
      rw [hexecution]
      exact outcome_of_completes hcompletes
    have hfeedback := hproposes.feedback
    have hadaptation := hproposes.adaptation
    rw [houtcome] at hfeedback hadaptation
    obtain ⟨_, _, _, hvalidated⟩ := bind_eq_ok hrun
    obtain ⟨_, _, _, hreflected⟩ := bind_eq_ok hvalidated
    obtain ⟨_, _, _, hresult⟩ := bind_eq_ok hreflected
    cases hresult
    refine ⟨hcompletes, rfl, ?_, ?_, hadaptation⟩
    · show classify (execute plan) = .success
      rw [hcompletes.executed]
      rfl
    · exact ⟨congrArg Feedback.success hfeedback, congrArg Feedback.improvementSuggestions hfeedback⟩

/-- **On a memory of successes the loop fails no goal**: of the jobs that are given to it, one after the
other, those that return have succeeded and propose nothing, and afterwards the memory is one of
successes again, which the self-improvement engine finds nothing to improve on. -/
theorem runJobs_spec (jobs : List Job) {w : World} (h : Quiet T w.content) :
    (∃ returned, returned.Sublist jobs
        ∧ List.Forall₂ (fun job result => Succeeds job.goal result) returned
          (runJobs (production loop) fails jobs w).1)
      ∧ Quiet T (runJobs (production loop) fails jobs w).2.content
      ∧ ∀ now : T, SelfImprovement.SelfImprovementEngine.run now
          (runJobs (production loop) fails jobs w).2.content = [] := by
  suffices hruns : (∃ returned, returned.Sublist jobs
      ∧ List.Forall₂ (fun job result => Succeeds job.goal result) returned
        (runJobs (production loop) fails jobs w).1)
      ∧ Quiet T (runJobs (production loop) fails jobs w).2.content from
    ⟨hruns.1, hruns.2, SelfImprovement.run_of_quiet hruns.2⟩
  induction jobs generalizing w with
  | nil => exact ⟨⟨[], .slnil, .nil⟩, h⟩
  | cons job jobs ih =>
      have hkeeps := keeps_quiet_runWhole loop fails job.goal job.injected w h
      rcases hrun : runWhole (production loop) fails job.goal job.injected w with
        ⟨result, w'⟩ | ⟨error, w'⟩
      · obtain ⟨⟨returned, hsublist, hreturned⟩, hquiet⟩ := ih ((ends_of_ok hrun).1 hkeeps)
        rw [runJobs, hrun]
        exact ⟨⟨job :: returned, hsublist.cons_cons job,
          .cons (succeeds_of_runWhole loop fails hrun) hreturned⟩, hquiet⟩
      · obtain ⟨⟨returned, hsublist, hreturned⟩, hquiet⟩ := ih ((ends_of_error hrun).1 hkeeps)
        rw [runJobs, hrun]
        exact ⟨⟨returned, hsublist.cons job, hreturned⟩, hquiet⟩

end Runs

/-! ### Two goals on an empty memory -/

open Memory.MemoryService (Midnight)

def midnightLoop : AgentLoop Midnight where
  maxAttempts := 3
  wallClock _ := .utc
  now _ := .utc
  digest _ := "0123456789abcdef"
  quotient _ _ := .float 1 0
  evaluate := Adaptation.Evaluator.evaluate
  generateFeedback := Adaptation.FeedbackEngine.generateFeedback
  processFeedback _ := []
  applyInjected _ := some (0, [])
  approve _ := .ok []

def twoJobs : List Job := [⟨"Deploy", []⟩, ⟨" Deploy again ", []⟩]

theorem length_runJobs : (runJobs (T := Midnight) (production midnightLoop) (fun _ => none) twoJobs
    ⟨fun _ => [], 0⟩).1.length = 2 := by
  decide +kernel

theorem quiet_empty : Quiet Midnight fun _ => [] := fun _ _ hmem => absurd hmem List.not_mem_nil

theorem runJobs_spec_two : ∃ first second : AgentResult Midnight,
    (runJobs (production midnightLoop) (fun _ => none) twoJobs ⟨fun _ => [], 0⟩).1 = [first, second]
      ∧ Succeeds "Deploy" first ∧ Succeeds " Deploy again " second := by
  obtain ⟨⟨returned, hsublist, hreturned⟩, -, -⟩ :=
    runJobs_spec midnightLoop (fun _ => none) twoJobs (w := ⟨fun _ => [], 0⟩) quiet_empty
  have hlength := hreturned.length_eq.trans length_runJobs
  obtain rfl := hsublist.eq_of_length hlength
  generalize (runJobs (production midnightLoop) (fun _ => none) twoJobs ⟨fun _ => [], 0⟩).1 = results
    at hreturned
  cases hreturned with
  | cons hfirst hrest =>
      cases hrest with
      | cons hsecond hnil =>
          cases hnil
          exact ⟨_, _, rfl, hfirst, hsecond⟩

end PersonalDevin.Loop
