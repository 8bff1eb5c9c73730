import PersonalDevin.Orchestration.Stages

/-!
# Terminal states and coherent histories

A run ends in a terminal state unless an engine answers `None` or the run raises: `None` is also what a
phase gives when it fails, and the run then stops without having moved to FAILED. In every run that ends
in a terminal state the transitions, the traces and the calls fit together, and so do the counts of the
report, unless someone has changed it or its validation has let a negative count through.
-/

namespace PersonalDevin.Orchestration

open Lib
open Execution (ExecutionStatus ExecutionTask)

variable {σ T P H R A : Type}

/-! ### Runs that end in a terminal state -/

/-- **A run ends in a terminal state exactly if no engine answers `None`, what its operations raise has a
text, and the status of the report can be read in the end.** -/
theorem run_terminal_iff (controller : OrchestrationController σ T P H R A)
    (request : OrchestrationRequest H) (world : σ) :
    (∃ result s, run controller request world = .ok result s ∧ result.state.IsTerminal)
      ↔ ¬ AnswersNone controller request world ∧ EachSpeaks controller request world
        ∧ StatusReadable controller request world := by
  rw [← run_returns_iff, ← lifecycle_eq_none_iff]
  have hend := run_lifecycle controller request world
  generalize lifecycle controller request ⟨world, []⟩ = outcome at hend
  generalize run controller request world = ran at hend
  cases hend with
  | failed _ hended => exact iff_of_true ⟨_, _, rfl, hended.terminal⟩ ⟨nofun, _, _, rfl⟩
  | silent => exact iff_of_false (by rintro ⟨_, _, ⟨⟩, _⟩) (by rintro ⟨_, _, _, ⟨⟩⟩)
  | @answeredNone s plan text hstate =>
      refine iff_of_false ?_ fun h => h.1 ⟨_, rfl⟩
      rintro ⟨_, _, ⟨⟩, hterminal⟩
      replace hterminal : s.machine.state.IsTerminal := hterminal
      rcases hstate with hstate | hstate <;> rw [hstate] at hterminal <;> revert hterminal <;> decide
  | finished _ hended => exact iff_of_true ⟨_, _, rfl, hended.terminal⟩ ⟨nofun, _, _, rfl⟩
  | unreadable => exact iff_of_false (by rintro ⟨_, _, ⟨⟩, _⟩) (by rintro ⟨_, _, _, ⟨⟩⟩)

def sampleRequest : OrchestrationRequest Unit where
  runId := "run-1"
  goal := "goal"
  tasks := []
  handlers := ()
  runIdNonEmpty := by decide
  goalNonEmpty := by decide

def sampleMemory : MemoryService Unit Unit Unit where
  write _ := pure (.ok (.str "execution-000001"))
  getRecent _ := pure (.ok 1)
  storeImprovements _ := pure { items := [], broken := none }

/-- A completed report of so many tasks, whose counts are what they are set to. -/
def sampleReports (tasks : List ExecutionTask) (completed failed : ℤ) : Reports σ Unit where
  status _ _ := .ok .completed
  tasks _ _ := .ok tasks
  totalTasks _ _ := .ok tasks.length
  completedTasks _ _ := .ok completed
  failedTasks _ _ := .ok failed
  skippedTasks _ _ := .ok 0

def sampleController (reports : Reports Unit Unit) (plan : Option Unit) :
    OrchestrationController Unit Unit Unit Unit Unit Unit where
  planningEngine _ := pure plan
  executionEngine _ _ _ := pure (some ())
  reports := reports
  memoryService := sampleMemory
  selfImprovementRunner := pure (some { adaptationsApproved := .ok () })
  stopOnFailure := true
  reflectionLimit := 25

/-- A planning engine that answers `None` leaves the run in PLANNING. -/
theorem run_stays_planning : ∃ result s,
    run (sampleController (sampleReports [] 0 0) none) sampleRequest () = .ok result s
      ∧ result.state = .planning ∧ ¬ result.state.IsTerminal :=
  ⟨_, _, rfl, rfl, by decide⟩

/-! ### Coherent histories -/

/-- The counts of the report, as they are read in the world, are those of a report without failures. -/
def Reports.CountsRight (reports : Reports σ R) (report : R) (world : σ) : Prop :=
  ∃ tasks total completed skipped, reports.tasks report world = .ok tasks
    ∧ reports.totalTasks report world = .ok total
    ∧ reports.completedTasks report world = .ok completed
    ∧ reports.failedTasks report world = .ok 0
    ∧ reports.skippedTasks report world = .ok skipped
    ∧ completed + 0 + skipped = total ∧ total = tasks.length

/-- The result of a run and what the run has left fit together. -/
structure Coherent (reports : Reports σ R) (result : OrchestrationResult P R A) (s : RunState σ) :
    Prop where
  numbered : result.stateSnapshot.transitions.map StateTransition.index
    = List.range' 1 result.stateSnapshot.transitions.length
  /-- The first transition starts in INITIALIZED, each other one where the one before it has ended,
  and the last one ends in the state of the result. -/
  chained : result.stateSnapshot.transitions.map StateTransition.fromState ++ [result.state]
    = SystemState.initialized :: result.stateSnapshot.transitions.map StateTransition.toState
  terminal : result.state.IsTerminal
  phases : result.phaseTraces.map OrchestrationPhaseTrace.phase <+: Phase.all
  /-- The run has visited the states of the traced phases and then its terminal state. -/
  visited : result.stateSnapshot.transitions.map StateTransition.toState
    = (result.phaseTraces.map fun trace => trace.phase.targetState) ++ [result.state]
  states : result.phaseTraces.map OrchestrationPhaseTrace.state
    = result.phaseTraces.map fun trace => trace.phase.targetState
  completed : ∀ trace ∈ result.phaseTraces.dropLast, trace.status = .completed
  /-- The last trace is a failure exactly if the run has failed before all phases completed. -/
  failed : (∃ trace ∈ result.phaseTraces.getLast?, trace.status = .failed)
    ↔ result.state = .failed
      ∧ result.phaseTraces.countP (·.status = .completed) < Phase.all.length
  inOrder : InOrder s.events
  counts : result.state = .completed → ∃ report,
    result.executionReport = some report ∧ reports.CountsRight report s.shared.world

theorem Ended.coherent_iff {reports : Reports σ R} {s : RunState σ} (h : Ended s)
    {request : OrchestrationRequest H} {plan : Option P} {report : Option R}
    {validation reflection : Option Fields} {improvement : Option (AdaptationResult A)}
    {error : String} :
    Coherent reports
        (buildResult request s plan report validation reflection improvement error) s
      ↔ (s.machine.state = .completed → ∃ value, report = some value
        ∧ reports.CountsRight value s.shared.world) := by
  constructor
  · exact fun hcoherent => hcoherent.counts
  · exact fun hcounts => {
      numbered := h.wellFormed.numbered
      chained := h.wellFormed.chained
      terminal := h.terminal
      phases := h.phases
      visited := h.states ▸ h.visited
      states := h.states
      completed := h.completed
      failed := h.failed
      inOrder := h.inOrder
      counts := hcounts }

/-- In the end the status of the report can be read, and unless it is FAILED the counts are right. -/
def Reports.EndsRight (reports : Reports σ R) (report : R) (world : σ) : Prop :=
  ∃ status, reports.status report world = .ok status
    ∧ (status = .failed ∨ reports.CountsRight report world)

/-- A report whose status can be read ends right if its counts are right wherever the run completes. -/
theorem Reports.endsRight_iff_of_status {reports : Reports σ R} {report : R} {world : σ}
    {status : ExecutionStatus} (hstatus : reports.status report world = .ok status) :
    reports.EndsRight report world
      ↔ (terminalState status = .completed →
        ∃ value, some report = some value ∧ reports.CountsRight value world) := by
  unfold terminalState
  constructor
  · rintro ⟨status', hread, hright⟩ hcompleted
    cases hread.symm.trans hstatus
    refine ⟨report, rfl, hright.resolve_left fun hfailed => ?_⟩
    rw [if_pos hfailed] at hcompleted
    cases hcompleted
  · intro hcounts
    by_cases hfailed : status = .failed
    · exact ⟨status, hstatus, .inl hfailed⟩
    · obtain ⟨_, ⟨⟩, hcounts⟩ := hcounts (if_neg hfailed)
      exact ⟨status, hstatus, .inr hcounts⟩

structure Reports.ReadsAlike (reports : Reports σ R) (report : R) (world world' : σ) : Prop where
  status : reports.status report world = reports.status report world'
  tasks : reports.tasks report world = reports.tasks report world'
  totalTasks : reports.totalTasks report world = reports.totalTasks report world'
  completedTasks : reports.completedTasks report world = reports.completedTasks report world'
  failedTasks : reports.failedTasks report world = reports.failedTasks report world'
  skippedTasks : reports.skippedTasks report world = reports.skippedTasks report world'

def Reports.FewerThanNone (reports : Reports σ R) (report : R) (world : σ) : Prop :=
  ∃ failed status, reports.failedTasks report world = .ok failed ∧ failed < 0
    ∧ reports.status report world = .ok status ∧ status ≠ .failed

theorem Reports.endsRight_iff {reports : Reports σ R} {report : R} {world world' : σ}
    (hvalid : ∃ summary, reports.validateExecutionReport report world = .ok summary)
    (halike : reports.ReadsAlike report world world') :
    reports.EndsRight report world' ↔ ¬ reports.FewerThanNone report world := by
  obtain ⟨tasks, total, completed, failed, skipped, status, htasks, htotal, hcompleted, hfailed,
    hskipped, hstatus, hlength, hsum, hfail, -⟩ := Reports.accepts_iff.1 hvalid
  unfold EndsRight CountsRight
  rw [← halike.status, ← halike.tasks, ← halike.totalTasks, ← halike.completedTasks,
    ← halike.failedTasks, ← halike.skippedTasks]
  constructor
  · rintro ⟨status', hread, hright⟩ ⟨failed', _, hnegative, hlt, hread', hne⟩
    cases hread.symm.trans hread'
    obtain ⟨_, _, _, _, _, _, _, hzero, _⟩ := hright.resolve_left hne
    cases hzero.symm.trans hnegative
    exact absurd hlt (by decide)
  · intro hnot
    refine ⟨status, hstatus, ?_⟩
    by_cases hstate : status = .failed
    · exact .inl hstate
    · have hnonneg : ¬ failed < 0 := fun hlt => hnot ⟨failed, status, hfailed, hlt, hstatus, hstate⟩
      have hnonpos : ¬ 0 < failed := fun hpos => hstate (hfail hpos)
      obtain rfl : failed = 0 := by omega
      exact .inr ⟨tasks, total, completed, skipped, htasks, htotal, hcompleted, hfailed, hskipped,
        hsum, hlength.symm⟩

theorem Executed.unique {controller : OrchestrationController σ T P H R A}
    {request : OrchestrationRequest H} {world : σ} {report report' : R} {world₂ world₂' : σ}
    (h : Executed controller request world report world₂)
    (h' : Executed controller request world report' world₂') : report = report' ∧ world₂ = world₂' := by
  obtain ⟨plan, world₁, hplan, hcalls⟩ := h
  obtain ⟨plan', world₁', hplan', hcalls'⟩ := h'
  cases hplan.symm.trans hplan'
  cases hcalls.symm.trans hcalls'
  exact ⟨rfl, rfl⟩

/-- **A run in which no engine answers `None` returns with a coherent history exactly if what its
operations raise has a text and its report ends right**; a report that nothing changes after its
validation ends right unless it counts fewer failures than none. -/
theorem run_coherent_iff (controller : OrchestrationController σ T P H R A)
    (request : OrchestrationRequest H) (world : σ) (hnone : ¬ AnswersNone controller request world) :
    ((∃ result s, run controller request world = .ok result s
          ∧ Coherent controller.reports result s)
        ↔ EachSpeaks controller request world
          ∧ ∀ report shared, Improved controller request world report shared →
            controller.reports.EndsRight report shared.world)
      ∧ ∀ report world₂ shared, Executed controller request world report world₂ →
        Improved controller request world report shared →
        controller.reports.ReadsAlike report world₂ shared.world →
          (controller.reports.EndsRight report shared.world
            ↔ ¬ controller.reports.FewerThanNone report world₂) := by
  constructor
  · have hend := run_lifecycle controller request world
    simp only [← lifecycle_speaks_iff, ← lifecycle_eq_some_iff]
    rw [← lifecycle_eq_none_iff] at hnone
    unfold Speaks Ends
    generalize lifecycle controller request ⟨world, []⟩ = outcome at hend hnone
    generalize run controller request world = ran at hend
    cases hend with
    | failed htext hended hfailed =>
        refine iff_of_true ⟨_, _, rfl, hended.coherent_iff.2 fun hcompleted => ?_⟩ ⟨htext, ?_⟩
        · rw [hfailed] at hcompleted
          cases hcompleted
        · rintro _ _ ⟨⟩
    | silent hsilent =>
        refine iff_of_false (by rintro ⟨_, _, ⟨⟩, _⟩) ?_
        rintro ⟨⟨text, htext⟩, _⟩
        cases htext.symm.trans hsilent
    | answeredNone => exact absurd ⟨_, rfl⟩ hnone
    | @finished report status _ _ s _ _ hstatus hended hstate =>
        have hright := Reports.endsRight_iff_of_status hstatus
        rw [← hstate] at hright
        constructor
        · rintro ⟨_, _, ⟨⟩, hcoherent⟩
          refine ⟨trivial, ?_⟩
          rintro _ _ ⟨⟩
          exact hright.2 (hended.coherent_iff.1 hcoherent)
        · rintro ⟨_, hends⟩
          exact ⟨_, _, rfl, hended.coherent_iff.2 (hright.1 (hends _ _ rfl))⟩
    | unreadable hstatus =>
        refine iff_of_false (by rintro ⟨_, _, ⟨⟩, _⟩) ?_
        rintro ⟨_, hends⟩
        obtain ⟨status, hread, _⟩ := hends _ _ rfl
        cases hread.symm.trans hstatus
  · rintro report world₂ shared hexecuted ⟨_, ⟨_, ⟨hexecuted', hvalid⟩, _⟩, _⟩ halike
    obtain ⟨-, rfl⟩ := hexecuted.unique hexecuted'
    exact Reports.endsRight_iff hvalid halike

def emptyController : OrchestrationController Unit Unit Unit Unit Unit Unit :=
  sampleController (sampleReports [] 0 0) (some ())

theorem not_answersNone_sample (reports : Reports Unit Unit) :
    ¬ AnswersNone (sampleController reports (some ())) sampleRequest () := by
  rintro (⟨_, hnone⟩ | ⟨_, _, _, _, hnone⟩)
  · cases hnone
  · cases hnone

theorem empty_run_coherent : ∃ result s,
    run emptyController sampleRequest () = .ok result s
      ∧ Coherent emptyController.reports result s := by
  have hlifecycle : lifecycle emptyController sampleRequest ⟨(), []⟩ = .ok (some ()) _ := rfl
  refine (run_coherent_iff emptyController sampleRequest () (not_answersNone_sample _)).1.2 ⟨?_, ?_⟩
  · exact (lifecycle_speaks_iff _ _ _).1 ((ends_of_ok hlifecycle).2 trivial)
  · exact fun _ _ _ => ⟨.completed, rfl, .inr ⟨[], 0, 0, 0, rfl, rfl, rfl, rfl, rfl, rfl, rfl⟩⟩

/-- One task, of which two are completed and -1 failed: the counts add up. -/
def overcounting : OrchestrationController Unit Unit Unit Unit Unit Unit :=
  sampleController (sampleReports [⟨"a", "step", [], .completed, none, none, none⟩] 2 (-1)) (some ())

theorem run_counts_fewer_than_none :
    ¬ AnswersNone overcounting sampleRequest ()
      ∧ ∃ result s, run overcounting sampleRequest () = .ok result s ∧ result.state = .completed
        ∧ ¬ Coherent overcounting.reports result s := by
  refine ⟨not_answersNone_sample _, _, _, rfl, rfl, fun hcoherent => ?_⟩
  obtain ⟨_, _, _, _, _, _, _, _, _, hzero, _⟩ := hcoherent.counts rfl
  cases hzero

end PersonalDevin.Orchestration
