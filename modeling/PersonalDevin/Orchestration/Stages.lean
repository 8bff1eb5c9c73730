import PersonalDevin.Orchestration.Lifecycle

/-!
# How far a run comes

What the collaborators answer decides which operation of a run is the last one, and how it ends.
-/

namespace PersonalDevin.Orchestration

open Lib

variable {σ T P H R A α : Type}

/-! ### Operations that have completed -/

section Stages

variable (controller : OrchestrationController σ T P H R A) (request : OrchestrationRequest H)
  (world : σ)

def Planned (plan : P) (world₁ : σ) : Prop :=
  controller.planningEngine (defaultTasks request) world = .ok (some plan) world₁

/-- The execution engine, called again if it fails with a transient failure, answers with the report. -/
def Executed (report : R) (world₂ : σ) : Prop :=
  ∃ plan world₁, Planned controller request world plan world₁
    ∧ executionCalls controller request plan world₁ = .ok (some report) world₂

def Validated (report : R) (world₂ : σ) : Prop :=
  Executed controller request world report world₂
    ∧ ∃ summary, controller.reports.validateExecutionReport report world₂ = .ok summary

def Reflected (report : R) (shared : Shared σ) : Prop :=
  ∃ world₂, Validated controller request world report world₂
    ∧ ∃ reflection, reflect controller request report ⟨world₂, []⟩ = .ok reflection shared

/-- The operation of every phase has completed. -/
def Improved (report : R) (shared : Shared σ) : Prop :=
  ∃ before, Reflected controller request world report before
    ∧ ∃ improvement, improve controller before = .ok improvement shared

/-- The planning engine answers `None`, or it answers with a plan and the execution engine, called again
if it fails with a transient failure, answers `None`. -/
def AnswersNone : Prop :=
  (∃ world', controller.planningEngine (defaultTasks request) world = .ok none world')
    ∨ ∃ plan world', controller.planningEngine (defaultTasks request) world = .ok (some plan) world'
      ∧ ∃ world'', executionCalls controller request plan world' = .ok none world''

/-- What the computation raises has a text. -/
def Speaks (x : EStateM Raised α P) (s : α) : Prop :=
  Ends (fun _ _ => True) (fun error _ => error.HasText) x s

/-- What the operation of a phase raises has a text, for each phase that the run comes to. -/
structure EachSpeaks : Prop where
  planning : Speaks (controller.planningEngine (defaultTasks request)) world
  executing : ∀ plan world₁, Planned controller request world plan world₁ →
    Speaks (executionCalls controller request plan) world₁
  validating : ∀ report world₂, Executed controller request world report world₂ →
    ∀ error, controller.reports.validateExecutionReport report world₂ = .error error → error.HasText
  reflecting : ∀ report world₂, Validated controller request world report world₂ →
    Speaks (reflect controller request report) ⟨world₂, []⟩
  improving : ∀ report shared, Reflected controller request world report shared →
    Speaks (improve controller) shared

/-- The status of the report can be read once every phase has completed. -/
def StatusReadable : Prop :=
  ∀ report shared, Improved controller request world report shared →
    ∃ status, controller.reports.status report shared.world = .ok status

/-- **What the lifecycle comes to**, by the operation that it ends with. -/
inductive LifecycleCase : EStateM.Result Raised (Shared σ) (Option R) → Prop
  | planningRaised {error : Raised} {world₁ : σ}
      (h : controller.planningEngine (defaultTasks request) world = .error error world₁) :
      LifecycleCase (.error error ⟨world₁, []⟩)
  | executingRaised {plan : P} {world₁ world₂ : σ} {error : Raised}
      (hplanned : Planned controller request world plan world₁)
      (h : executionCalls controller request plan world₁ = .error error world₂) :
      LifecycleCase (.error error ⟨world₂, []⟩)
  | answeredNone {shared : Shared σ} (h : AnswersNone controller request world) :
      LifecycleCase (.ok none shared)
  | validatingRaised {report : R} {world₂ : σ} {error : Raised}
      (hexecuted : Executed controller request world report world₂)
      (h : controller.reports.validateExecutionReport report world₂ = .error error) :
      LifecycleCase (.error error ⟨world₂, []⟩)
  | reflectingRaised {report : R} {world₂ : σ} {error : Raised} {shared : Shared σ}
      (hvalidated : Validated controller request world report world₂)
      (h : reflect controller request report ⟨world₂, []⟩ = .error error shared) :
      LifecycleCase (.error error shared)
  | improvingRaised {report : R} {before shared : Shared σ} {error : Raised}
      (hreflected : Reflected controller request world report before)
      (h : improve controller before = .error error shared) :
      LifecycleCase (.error error shared)
  | improved {report : R} {shared : Shared σ} (h : Improved controller request world report shared) :
      LifecycleCase (.ok (some report) shared)

end Stages

variable {controller : OrchestrationController σ T P H R A} {request : OrchestrationRequest H}
  {world : σ}

theorem ends_onWorld {ret : α → Shared σ → Prop} {exc : Raised → Shared σ → Prop}
    {call : EStateM Raised σ α} {shared : Shared σ} :
    Ends ret exc (onWorld call) shared
      ↔ Ends (fun value world => ret value { shared with world })
          (fun error world => exc error { shared with world }) call shared.world := by
  rcases hcall : call shared.world with ⟨value, world⟩ | ⟨error, world⟩
  · rw [ends_of_ok hcall, ends_of_ok (onWorld_of_ok hcall)]
  · rw [ends_of_error hcall, ends_of_error (onWorld_of_error hcall)]

theorem observing_of_ok {read : σ → Attribute α} {shared : Shared σ} {value : α}
    (h : read shared.world = .ok value) : observing read shared = .ok value shared := by
  simp only [observing, h]

theorem observing_of_error {read : σ → Attribute α} {shared : Shared σ} {error : Raised}
    (h : read shared.world = .error error) : observing read shared = .error error shared := by
  simp only [observing, h]

/-! ### The lifecycle from a stage on -/

theorem Planned.lifecycle_eq {plan : P} {world₁ : σ}
    (h : Planned controller request world plan world₁) :
    lifecycle controller request ⟨world, []⟩
      = lifecycleAfterPlanning controller request plan ⟨world₁, []⟩ := by
  unfold Planned at h
  rw [lifecycle, bind_of_ok (onWorld_of_ok h)]

theorem Executed.lifecycle_eq {report : R} {world₂ : σ}
    (h : Executed controller request world report world₂) :
    lifecycle controller request ⟨world, []⟩
      = lifecycleAfterExecuting controller request report ⟨world₂, []⟩ := by
  obtain ⟨plan, world₁, hplanned, hcalls⟩ := h
  rw [hplanned.lifecycle_eq, lifecycleAfterPlanning, bind_of_ok (onWorld_of_ok hcalls)]

theorem Validated.lifecycle_eq {report : R} {world₂ : σ}
    (h : Validated controller request world report world₂) :
    lifecycle controller request ⟨world, []⟩ = (do
      let _ ← reflect controller request report
      let _ ← improve controller
      return some report) ⟨world₂, []⟩ := by
  obtain ⟨hexecuted, summary, hvalid⟩ := h
  rw [hexecuted.lifecycle_eq, lifecycleAfterExecuting, bind_of_ok (observing_of_ok hvalid)]

theorem Reflected.lifecycle_eq {report : R} {shared : Shared σ}
    (h : Reflected controller request world report shared) :
    lifecycle controller request ⟨world, []⟩ = (do
      let _ ← improve controller
      return some report) shared := by
  obtain ⟨world₂, hvalidated, reflection, hreflect⟩ := h
  rw [hvalidated.lifecycle_eq, bind_of_ok hreflect]

theorem Improved.lifecycle_eq {report : R} {shared : Shared σ}
    (h : Improved controller request world report shared) :
    lifecycle controller request ⟨world, []⟩ = .ok (some report) shared := by
  obtain ⟨before, hreflected, improvement, himprove⟩ := h
  rw [hreflected.lifecycle_eq, bind_of_ok himprove]
  rfl

theorem lifecycle_cases (controller : OrchestrationController σ T P H R A)
    (request : OrchestrationRequest H) (world : σ) :
    LifecycleCase controller request world (lifecycle controller request ⟨world, []⟩) := by
  rcases hplan : controller.planningEngine (defaultTasks request) world with
    ⟨_ | plan, world₁⟩ | ⟨error, world₁⟩
  · rw [lifecycle, bind_of_ok (onWorld_of_ok hplan)]
    exact .answeredNone (.inl ⟨world₁, hplan⟩)
  rotate_left
  · rw [lifecycle, bind_of_error (onWorld_of_error hplan)]
    exact .planningRaised hplan
  have hplanned : Planned controller request world plan world₁ := hplan
  rcases hcalls : executionCalls controller request plan world₁ with
    ⟨_ | report, world₂⟩ | ⟨error, world₂⟩
  · rw [hplanned.lifecycle_eq, lifecycleAfterPlanning, bind_of_ok (onWorld_of_ok hcalls)]
    exact .answeredNone (.inr ⟨plan, world₁, hplan, world₂, hcalls⟩)
  rotate_left
  · rw [hplanned.lifecycle_eq, lifecycleAfterPlanning, bind_of_error (onWorld_of_error hcalls)]
    exact .executingRaised hplanned hcalls
  have hexecuted : Executed controller request world report world₂ :=
    ⟨plan, world₁, hplanned, hcalls⟩
  rcases hvalid : controller.reports.validateExecutionReport report world₂ with error | summary
  · rw [hexecuted.lifecycle_eq, lifecycleAfterExecuting, bind_of_error (observing_of_error hvalid)]
    exact .validatingRaised hexecuted hvalid
  have hvalidated : Validated controller request world report world₂ := ⟨hexecuted, summary, hvalid⟩
  rcases hreflect : reflect controller request report ⟨world₂, []⟩ with
    ⟨reflection, before⟩ | ⟨error, before⟩
  rotate_left
  · rw [hvalidated.lifecycle_eq, bind_of_error hreflect]
    exact .reflectingRaised hvalidated hreflect
  have hreflected : Reflected controller request world report before :=
    ⟨world₂, hvalidated, reflection, hreflect⟩
  rcases himprove : improve controller before with ⟨improvement, shared⟩ | ⟨error, shared⟩
  · have himproved : Improved controller request world report shared :=
      ⟨before, hreflected, improvement, himprove⟩
    exact himproved.lifecycle_eq ▸ .improved himproved
  · rw [hreflected.lifecycle_eq, bind_of_error himprove]
    exact .improvingRaised hreflected himprove

/-! ### The three ends -/

theorem lifecycle_eq_none_iff (controller : OrchestrationController σ T P H R A)
    (request : OrchestrationRequest H) (world : σ) :
    (∃ shared, lifecycle controller request ⟨world, []⟩ = .ok none shared)
      ↔ AnswersNone controller request world := by
  constructor
  · rintro ⟨shared, hnone⟩
    have hcase := lifecycle_cases controller request world
    rw [hnone] at hcase
    cases hcase with
    | answeredNone h => exact h
  · rintro (⟨world₁, hplan⟩ | ⟨plan, world₁, hplan, world₂, hcalls⟩)
    · rw [lifecycle, bind_of_ok (onWorld_of_ok hplan)]
      exact ⟨_, rfl⟩
    · have hplanned : Planned controller request world plan world₁ := hplan
      rw [hplanned.lifecycle_eq, lifecycleAfterPlanning, bind_of_ok (onWorld_of_ok hcalls)]
      exact ⟨_, rfl⟩

theorem lifecycle_eq_some_iff {report : R} {shared : Shared σ} :
    lifecycle controller request ⟨world, []⟩ = .ok (some report) shared
      ↔ Improved controller request world report shared := by
  constructor
  · intro hsome
    have hcase := lifecycle_cases controller request world
    rw [hsome] at hcase
    cases hcase with
    | improved h => exact h
  · exact fun h => h.lifecycle_eq

theorem speaks_of_bind {β : Type} {x : EStateM Raised σ α} {f : α → EStateM Raised σ β} {s : σ}
    (h : Speaks (x >>= f) s) : Speaks x s :=
  (ends_bind.1 h).mono (fun _ _ _ => trivial) fun _ _ htext => htext

theorem lifecycle_speaks_iff (controller : OrchestrationController σ T P H R A)
    (request : OrchestrationRequest H) (world : σ) :
    Speaks (lifecycle controller request) ⟨world, []⟩ ↔ EachSpeaks controller request world := by
  constructor
  · intro h
    exact {
      planning := ends_onWorld.1 (speaks_of_bind h)
      executing := fun plan world₁ hplanned =>
        ends_onWorld.1 (speaks_of_bind ((ends_congr hplanned.lifecycle_eq).1 h))
      validating := fun report world₂ hexecuted error hraised =>
        (ends_of_error (observing_of_error hraised)).1
          (speaks_of_bind ((ends_congr hexecuted.lifecycle_eq).1 h))
      reflecting := fun report world₂ hvalidated =>
        speaks_of_bind ((ends_congr hvalidated.lifecycle_eq).1 h)
      improving := fun report shared hreflected =>
        speaks_of_bind ((ends_congr hreflected.lifecycle_eq).1 h) }
  · intro h
    have hcase := lifecycle_cases controller request world
    unfold Speaks Ends
    generalize lifecycle controller request ⟨world, []⟩ = outcome at hcase
    cases hcase with
    | planningRaised hraised => exact (ends_of_error hraised).1 h.planning
    | executingRaised hplanned hraised =>
        exact (ends_of_error hraised).1 (h.executing _ _ hplanned)
    | answeredNone => exact trivial
    | validatingRaised hexecuted hraised => exact h.validating _ _ hexecuted _ hraised
    | reflectingRaised hvalidated hraised =>
        exact (ends_of_error hraised).1 (h.reflecting _ _ hvalidated)
    | improvingRaised hreflected hraised =>
        exact (ends_of_error hraised).1 (h.improving _ _ hreflected)
    | improved => exact trivial

/-- **A run returns exactly if what its operations raise has a text and the status of its report can be
read in the end.** -/
theorem run_returns_iff (controller : OrchestrationController σ T P H R A)
    (request : OrchestrationRequest H) (world : σ) :
    (∃ result s, run controller request world = .ok result s)
      ↔ EachSpeaks controller request world ∧ StatusReadable controller request world := by
  have hend := run_lifecycle controller request world
  simp only [← lifecycle_speaks_iff, StatusReadable, ← lifecycle_eq_some_iff]
  unfold Speaks Ends
  generalize lifecycle controller request ⟨world, []⟩ = outcome at hend
  generalize run controller request world = ran at hend
  cases hend with
  | failed htext => exact iff_of_true ⟨_, _, rfl⟩ ⟨htext, by rintro _ _ ⟨⟩⟩
  | silent hsilent =>
      refine iff_of_false (by rintro ⟨_, _, ⟨⟩⟩) ?_
      rintro ⟨⟨text, htext⟩, _⟩
      cases htext.symm.trans hsilent
  | answeredNone => exact iff_of_true ⟨_, _, rfl⟩ ⟨trivial, by rintro _ _ ⟨⟩⟩
  | finished hstatus => exact iff_of_true ⟨_, _, rfl⟩ ⟨trivial, by rintro _ _ ⟨⟩; exact ⟨_, hstatus⟩⟩
  | unreadable hstatus =>
      refine iff_of_false (by rintro ⟨_, _, ⟨⟩⟩) ?_
      rintro ⟨_, hreadable⟩
      obtain ⟨status, hread⟩ := hreadable _ _ rfl
      cases hread.symm.trans hstatus

end PersonalDevin.Orchestration
