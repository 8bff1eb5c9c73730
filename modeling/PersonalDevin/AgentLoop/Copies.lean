import PersonalDevin.AgentLoop.Loop

/-!
# Copies of a record

A step of the loop makes several writes, and a transient failure of one of them runs the whole step
again, so what the attempt has written before stays as a second copy. A run that returns leaves the
records of a run without faults exactly if every failed attempt has failed at its first write and no
improvement was lost.
-/

namespace PersonalDevin.Loop

open Lib
open Execution (ExecutionReport ExecutionTask)
open Memory (Instant MemoryType ServiceCall StoredPayload Streams Timestamp tally tally_congr tally_push)

variable {T : Type} [Timestamp T] {loop : AgentLoop T}

/-! ### Counting records -/

/-- A record of another kind than an approved improvement. -/
def isPlain (payload : StoredPayload) : Bool :=
  match payload.dataField "decision" with
  | some (.str decision) => decision ≠ "improvement_action"
  | _ => true

def plainRecords (streams : Streams) : ℕ := tally isPlain streams

def allRecords (streams : Streams) : ℕ := tally (fun _ => true) streams

def PlainCall (call : ServiceCall T) : Prop := call.decision ≠ some "improvement_action"

theorem performCall_ok {call : ServiceCall T} {c c' : Streams}
    (h : performCall loop call c = .ok c') :
    ∃ payload, c' = c.push call.type payload
      ∧ payload.dataField "decision" = call.decision.map .str := by
  unfold performCall at h
  split at h
  · rename_i hperform
    cases h
    exact Memory.dataField_decision hperform
  · cases h

/-- Where a call raises without a fault, it is not tried again. -/
theorem performCall_refused {call : ServiceCall T} {c : Streams} {error : Raised}
    (h : performCall loop call c = .error error) : ¬ isTransient error = true := by
  unfold performCall at h
  split at h
  · cases h
  · cases h
    decide

theorem plainRecords_of_ok {call : ServiceCall T} (hplain : PlainCall call) {c c' : Streams}
    (h : performCall loop call c = .ok c') : plainRecords c' = plainRecords c + 1 := by
  obtain ⟨payload, rfl, hdecision⟩ := performCall_ok h
  have hpayload : isPlain payload = true := by
    rw [isPlain, hdecision]
    rcases hcall : call.decision with _ | decision
    · rfl
    · exact decide_eq_true fun heq => hplain (heq ▸ hcall)
  rw [plainRecords, plainRecords, tally_push, hpayload, if_pos rfl]

theorem allRecords_of_ok {call : ServiceCall T} {c c' : Streams}
    (h : performCall loop call c = .ok c') : allRecords c' = allRecords c + 1 := by
  obtain ⟨payload, rfl, _⟩ := performCall_ok h
  rw [allRecords, allRecords, tally_push, if_pos rfl]

theorem plainRecords_of_improvement {action : Improvement} {c c' : Streams}
    (h : performCall loop (improvementCall action) c = .ok c') :
    plainRecords c' = plainRecords c := by
  obtain ⟨payload, rfl, hdecision⟩ := performCall_ok h
  have hpayload : isPlain payload = false := by
    rw [isPlain, hdecision,
      show (improvementCall action : ServiceCall T).decision = some "improvement_action" from rfl]
    rfl
  rw [plainRecords, plainRecords, tally_push, hpayload]
  rfl

/-! ### The calls of a run -/

variable (loop)

omit [Timestamp T] in
theorem plain_injectedCalls (goal : String) (injected : List RuntimeAdaptation) :
    ∀ call ∈ injectedCalls loop goal injected, PlainCall call := by
  unfold injectedCalls
  split
  · exact nofun
  · intro call hmem
    rw [List.mem_singleton.1 hmem]
    simp [PlainCall, ServiceCall.decision]

theorem plain_feedbackCalls (signal : FeedbackSignal T) :
    ∀ call ∈ feedbackCalls loop signal, PlainCall call := by
  intro call hmem
  rcases List.mem_cons.1 hmem with rfl | hmem
  · simp [PlainCall, ServiceCall.decision]
  · rw [Option.mem_toList, Option.map_eq_some_iff] at hmem
    obtain ⟨failureType, _, rfl⟩ := hmem
    simp [PlainCall, ServiceCall.decision]

omit [Timestamp T] in
theorem plain_taskCalls (goal : String) (task : ExecutionTask) :
    ∀ call ∈ taskCalls (T := T) goal task, PlainCall call := by
  intro call hmem
  rcases List.mem_cons.1 hmem with rfl | hmem
  · simp [PlainCall, ServiceCall.decision]
  · split at hmem
    · rw [List.mem_singleton.1 hmem]
      simp [PlainCall, ServiceCall.decision]
    · cases hmem

theorem plain_persistCalls (goal : String) (modifiers : Fields) (plan : Planning.ExecutionPlan)
    (report : ExecutionReport) (signal : FeedbackSignal T) (time : T) :
    ∀ call ∈ persistCalls loop goal modifiers plan report signal time, PlainCall call := by
  intro call hmem
  rcases List.mem_append.1 hmem with hmem | hmem
  · rcases List.mem_append.1 hmem with hmem | hmem
    · rcases List.mem_cons.1 hmem with rfl | hmem
      · simp [PlainCall, ServiceCall.decision]
      · rw [List.mem_singleton.1 hmem]
        simp [PlainCall, ServiceCall.decision, executionLogCall]
    · obtain ⟨task, _, hmem⟩ := List.mem_flatMap.1 hmem
      exact plain_taskCalls goal task call hmem
  · rw [List.mem_singleton.1 hmem]
    cases hstatus : classify report <;>
      simp [PlainCall, ServiceCall.decision, decisionCall, hstatus, RunStatus.text]

/-- How many writes a validation makes. -/
def validateWrites (goal : String) (modifiers : Fields) (report : ExecutionReport) : ℕ :=
  1 + (feedbackFailure (runFeedback loop goal modifiers report)).toList.length

/-- How many writes a reflection makes before the self-improvement. -/
def reflectWrites (report : ExecutionReport) : ℕ :=
  3 + report.tasks.length + (report.tasks.filter taskFailed).length

variable {loop}

theorem length_feedbackCalls (goal : String) (modifiers : Fields) (report : ExecutionReport)
    (streams : Streams) :
    (feedbackCalls loop (signalAt loop (runFeedback loop goal modifiers report) streams)).length
      = validateWrites loop goal modifiers report := by
  rw [feedbackCalls, List.length_cons, validateWrites, Nat.add_comm 1]
  congr 1
  show ((feedbackFailure (runFeedback loop goal modifiers report)).map _).toList.length = _
  cases feedbackFailure (runFeedback loop goal modifiers report) <;> rfl

theorem length_persistCalls (goal : String) (modifiers : Fields) (plan : Planning.ExecutionPlan)
    (report : ExecutionReport) (signal : FeedbackSignal T) (time : T) :
    (persistCalls loop goal modifiers plan report signal time).length = reflectWrites report := by
  have htasks : ∀ tasks : List ExecutionTask, (tasks.flatMap (taskCalls (T := T) goal)).length
      = tasks.length + (tasks.filter taskFailed).length := by
    intro tasks
    induction tasks with
    | nil => rfl
    | cons task rest ih =>
        rw [List.flatMap_cons, List.length_append, ih, List.filter_cons, taskCalls]
        by_cases hfailed : taskFailed task = true <;> simp [hfailed] <;> omega
  rw [persistCalls, List.length_append, List.length_append, htasks, reflectWrites]
  simp only [List.length_cons, List.length_nil]
  omega

/-! ### A run without faults -/

section Run

variable (loop) (goal : String) (input : RunInput)

/-- The writes of the three batches of a run, one after the other. -/
def beforeImprovement (streams : Streams) : Except Raised Streams := do
  let modifiers := appliedModifiers loop input.injected
  let feedback := runFeedback loop goal modifiers input.report
  let validating ← performAll (performCall loop) (injectedCalls loop goal input.injected) streams
  let signal := signalAt loop feedback validating
  let reflecting ← performAll (performCall loop) (feedbackCalls loop signal) validating
  performAll (performCall loop) (persistCalls loop goal modifiers input.plan input.report signal
    (loop.now (stored reflecting))) reflecting

/-- How many improvements the self-improvement can write. -/
def improvementsWritten (streams : Streams) : ℕ :=
  match loop.approve streams with
  | .error _ => 0
  | .ok approved => written (performCall loop) (approved.map improvementCall) streams

/-- The store after them. -/
def improved (streams : Streams) : Streams :=
  match loop.approve streams with
  | .error _ => streams
  | .ok approved => performWhile (performCall loop) (approved.map improvementCall) streams

/-- The store that a run leaves, whether it returns or raises. -/
def finalStore {α : Type} : EStateM.Result Raised World α → Streams
  | .ok _ s => s.content
  | .error _ s => s.content

end Run

variable {goal : String} {input : RunInput} {fails : ℕ → Option Fault}

/-- The self-improvement reads the store, and may raise what is not transient; the writes it makes end
wherever they end. -/
theorem ends_runSelfImprovement {Q : World → Prop} {R : Raised → World → Prop} {s : World}
    (hraised : ∀ error, loop.approve s.content = .error error →
      Q s ∧ (¬ isTransient error = true → R error s))
    (hwritten : ∀ approved, loop.approve s.content = .ok approved →
      Ends (fun _ => Q) (fun _ => Q)
        (writeAll (raisedBy fails) (performCall loop) (approved.map improvementCall)) s) :
    Ends (fun _ => Q) R (runSelfImprovement loop fails) s := by
  rcases happrove : loop.approve s.content with error | approved
  · by_cases htransient : isTransient error = true
    · have hrun : runSelfImprovement loop fails s = .ok ⟨⟩ s := by
        simp only [runSelfImprovement, happrove, htransient, if_true]
      exact (ends_of_ok hrun).2 (hraised error happrove).1
    · have hrun : runSelfImprovement loop fails s = .error error s := by
        simp only [runSelfImprovement, happrove, htransient, if_false, Bool.false_eq_true]
      exact (ends_of_error hrun).2 ((hraised error happrove).2 htransient)
  · have hbatch := hwritten approved happrove
    rcases hx : writeAll (raisedBy fails) (performCall loop) (approved.map improvementCall) s with
      ⟨_, s'⟩ | ⟨error, s'⟩
    · have hrun : runSelfImprovement loop fails s = .ok ⟨⟩ s' := by
        simp only [runSelfImprovement, happrove, hx]
      exact (ends_of_ok hrun).2 ((ends_of_ok hx).1 hbatch)
    · have hrun : runSelfImprovement loop fails s = .ok ⟨⟩ s' := by
        simp only [runSelfImprovement, happrove, hx]
      exact (ends_of_ok hrun).2 ((ends_of_error hx).1 hbatch)

/-- **What the self-improvement leaves**: all that it can write if there was no fault among those writes,
and less if there was. -/
theorem runSelfImprovement_ends (s : World) :
    Ends (fun _ s' => (NoFault (raisedBy fails) s.attempts (improvementsWritten loop s.content)
          ∧ s'.content = improved loop s.content)
        ∨ (¬ NoFault (raisedBy fails) s.attempts (improvementsWritten loop s.content)
          ∧ allRecords s'.content < allRecords (improved loop s.content)))
      (fun error s' => ¬ isTransient error = true ∧ s'.content = improved loop s.content)
      (runSelfImprovement loop fails) s := by
  apply ends_runSelfImprovement
  · intro error happrove
    have hwritten : improvementsWritten loop s.content = 0 := by rw [improvementsWritten, happrove]
    have himproved : improved loop s.content = s.content := by rw [improved, happrove]
    rw [hwritten, himproved]
    exact ⟨.inl ⟨nofun, rfl⟩, fun hfinal => ⟨hfinal, rfl⟩⟩
  · intro approved happrove
    have hwritten : improvementsWritten loop s.content
        = written (performCall loop) (approved.map improvementCall) s.content := by
      rw [improvementsWritten, happrove]
    have himproved : improved loop s.content
        = performWhile (performCall loop) (approved.map improvementCall) s.content := by
      rw [improved, happrove]
    rw [hwritten, himproved]
    exact writeAll_while (raisedBy fails) allRecords (fun _ _ _ _ => allRecords_of_ok) s

theorem runSelfImprovement_plain (s : World) :
    Ends (fun _ s' => plainRecords s'.content = plainRecords s.content)
      (fun _ s' => plainRecords s'.content = plainRecords s.content)
      (runSelfImprovement loop fails) s := by
  apply ends_runSelfImprovement
  · exact fun _ _ => ⟨rfl, fun _ => rfl⟩
  · intro approved _
    refine keeps_writeAll (fun c => plainRecords c = plainRecords s.content) ?_ s rfl
    intro call hmem c c' hc hperform
    obtain ⟨action, _, rfl⟩ := List.mem_map.1 hmem
    exact (plainRecords_of_improvement hperform).trans hc

/-- What the self-improvement raises is not tried again. -/
theorem runSelfImprovement_final {s s' : World} {error : Raised}
    (h : runSelfImprovement loop fails s = .error error s') : ¬ isTransient error = true :=
  ((ends_of_error h).1 (runSelfImprovement_ends s)).1

/-- A reflection is a batch that is tried again, and then the self-improvement, which is not. -/
theorem retry_reflectStep (modifiers : Fields) (plan : Planning.ExecutionPlan)
    (report : ExecutionReport) (signal : FeedbackSignal T) (s : World) :
    runStepWithRetry loop (reflectStep loop fails goal modifiers plan report signal) s
      = (runStepWithRetry loop (batchStep (raisedBy fails) (performCall loop)
          (fun streams => persistCalls loop goal modifiers plan report signal
            (loop.now (stored streams))) (fun _ => reflection loop report))
        >>= fun reflection => do
          runSelfImprovement loop fails
          return reflection) s := by
  apply retry_bind
  intro _ s' error s'' h
  rcases hx : runSelfImprovement loop fails s' with ⟨_, s₁⟩ | ⟨error', s₁⟩
  · cases (bind_of_ok hx).symm.trans h
  · cases (bind_of_error hx).symm.trans h
    exact runSelfImprovement_final hx

theorem finalStore_bind_pure {α β : Type} (x : EStateM Raised World α) (f : α → β) (s : World) :
    finalStore ((x >>= fun a => pure (f a)) s) = finalStore (x s) := by
  rcases hx : x s with ⟨a, s'⟩ | ⟨error, s'⟩
  · rw [bind_of_ok hx]
    rfl
  · rw [bind_of_error hx]
    rfl

/-- The first two batches of a run and the store before the third. -/
theorem beforeImprovement_eq_ok {streams c : Streams}
    (h : beforeImprovement loop goal input streams = .ok c) :
    ∃ validating reflecting,
      performAll (performCall loop) (injectedCalls loop goal input.injected) streams = .ok validating
      ∧ performAll (performCall loop) (feedbackCalls loop (signalAt loop
          (runFeedback loop goal (appliedModifiers loop input.injected) input.report) validating))
          validating = .ok reflecting
      ∧ performAll (performCall loop) (persistCalls loop goal (appliedModifiers loop input.injected)
          input.plan input.report (signalAt loop
            (runFeedback loop goal (appliedModifiers loop input.injected) input.report) validating)
          (loop.now (stored reflecting))) reflecting = .ok c := by
  simp only [beforeImprovement, bind, Except.bind] at h
  split at h
  · cases h
  · rename_i validating hinjected
    split at h
    · cases h
    · rename_i reflecting hvalidate
      exact ⟨validating, reflecting, hinjected, hvalidate, h⟩

theorem step_faultFree {α : Type} (batch : Streams → List (ServiceCall T)) (value : Streams → α)
    {c c' : Streams} (h : performAll (performCall loop) (batch c) c = .ok c') (attempts : ℕ) :
    ∃ attempts', runStepWithRetry loop
        (batchStep (raisedBy fun _ => none) (performCall loop) batch value) ⟨c, attempts⟩
      = .ok (value c) ⟨c', attempts'⟩ :=
  ⟨_, retry_of_ok _ (batchStep_of_ok value (writeAll_of_ok (fun _ _ => rfl) h))⟩

/-- **A run without faults** makes the writes of its batches and then those of the self-improvement. -/
theorem finalStore_of_before {streams c : Streams}
    (h : beforeImprovement loop goal input streams = .ok c) :
    finalStore (runGoal loop (fun _ => none) goal input ⟨streams, 0⟩) = improved loop c := by
  obtain ⟨validating, reflecting, hinjected, hvalidate, hreflect⟩ := beforeImprovement_eq_ok h
  have hwrite : writeAll (raisedBy fun _ => none) (performCall loop)
      (injectedCalls loop goal input.injected) ⟨streams, 0⟩ = .ok ⟨⟩ ⟨validating, 0 + _⟩ :=
    writeAll_of_ok (fun _ _ => rfl) hinjected
  obtain ⟨attempts₁, hvalidated⟩ := step_faultFree (fun c => feedbackCalls loop (signalAt loop
      (runFeedback loop goal (appliedModifiers loop input.injected) input.report) c))
    (signalAt loop (runFeedback loop goal (appliedModifiers loop input.injected) input.report))
    hvalidate (0 + (injectedCalls loop goal input.injected).length)
  obtain ⟨attempts₂, hreflected⟩ := step_faultFree
    (fun c => persistCalls loop goal (appliedModifiers loop input.injected) input.plan input.report
      (signalAt loop (runFeedback loop goal (appliedModifiers loop input.injected) input.report)
        validating) (loop.now (stored c)))
    (fun _ => reflection loop input.report) hreflect attempts₁
  rw [runGoal, bind_of_ok hwrite, validate, bind_of_ok hvalidated, finalStore_bind_pure,
    retry_reflectStep, bind_of_ok hreflected, finalStore_bind_pure]
  have hends : Ends _ _ (runSelfImprovement loop fun _ => none) (⟨c, attempts₂⟩ : World) :=
    runSelfImprovement_ends _
  rcases hx : runSelfImprovement loop (fun _ => none) (⟨c, attempts₂⟩ : World) with
    ⟨_, s'⟩ | ⟨error, s'⟩
  · rcases (ends_of_ok hx).1 hends with ⟨_, hcontent⟩ | ⟨hfault, _⟩
    · exact hcontent
    · exact absurd (fun _ _ => rfl) hfault
  · exact ((ends_of_error hx).1 hends).2

theorem plain_injection (loop : AgentLoop T) (goal : String) (injected : List RuntimeAdaptation) :
    ∀ call ∈ injectedCalls loop goal injected,
    ∀ c c', performCall loop call c = .ok c' → plainRecords c' = plainRecords c + 1 :=
  fun call hmem _ _ => plainRecords_of_ok (plain_injectedCalls loop goal injected call hmem)

theorem plain_validation (modifiers : Fields) (report : ExecutionReport) (content : Streams) :
    ∀ call ∈ feedbackCalls loop (signalAt loop (runFeedback loop goal modifiers report) content),
    ∀ c c', performCall loop call c = .ok c' → plainRecords c' = plainRecords c + 1 :=
  fun call hmem _ _ => plainRecords_of_ok (plain_feedbackCalls loop _ call hmem)

theorem plain_reflection (modifiers : Fields) (plan : Planning.ExecutionPlan)
    (report : ExecutionReport) (signal : FeedbackSignal T) (content : Streams) :
    ∀ call ∈ persistCalls loop goal modifiers plan report signal (loop.now (stored content)),
    ∀ c c', performCall loop call c = .ok c' → plainRecords c' = plainRecords c + 1 :=
  fun call hmem _ _ => plainRecords_of_ok (plain_persistCalls loop goal _ _ _ _ _ call hmem)

theorem validate_faultFree (modifiers : Fields) (report : ExecutionReport) (s : World) :
    Ends
      (fun _ s' => plainRecords s'.content
        ≤ plainRecords s.content + validateWrites loop goal modifiers report)
      (fun _ s' => plainRecords s'.content
        ≤ plainRecords s.content + validateWrites loop goal modifiers report)
      (runStepWithRetry loop (validate loop (fun _ => none) goal modifiers report)) s := by
  rw [← length_feedbackCalls goal modifiers report s.content]
  exact (retry_batch_faultFree _ (fun _ => rfl) (fun _ _ _ => performCall_refused) plainRecords
    (plain_validation modifiers report) _ s).mono (fun _ _ h => Nat.le_of_eq h.2.2) fun _ _ h => h.2

theorem reflect_faultFree (modifiers : Fields) (plan : Planning.ExecutionPlan)
    (report : ExecutionReport) (signal : FeedbackSignal T) (s : World) :
    Ends
      (fun _ s' => plainRecords s'.content ≤ plainRecords s.content + reflectWrites report)
      (fun _ s' => plainRecords s'.content ≤ plainRecords s.content + reflectWrites report)
      (runStepWithRetry loop (reflectStep loop (fun _ => none) goal modifiers plan report signal))
      s := by
  rw [ends_congr (retry_reflectStep _ _ _ _ _),
    ← length_persistCalls goal modifiers plan report signal (loop.now (stored s.content))]
  refine ends_bind.2 ((retry_batch_faultFree _ (fun _ => rfl) (fun _ _ _ => performCall_refused)
    plainRecords (plain_reflection modifiers plan report signal) _ s).mono ?_ fun _ _ h => h.2)
  rintro _ s' ⟨_, _, hcount⟩
  refine ends_bind.2 ((runSelfImprovement_plain s').mono ?_ ?_)
  · exact fun _ s'' hplain => Nat.le_of_eq (hplain.trans hcount)
  · exact fun _ s'' hplain => Nat.le_of_eq (hplain.trans hcount)

variable (loop goal input) in
/-- How many records a run leaves if there is one copy of each, improvements aside. -/
def onceRecords (streams : Streams) : ℕ :=
  plainRecords streams + (injectedCalls loop goal input.injected).length
    + validateWrites loop goal (appliedModifiers loop input.injected) input.report
    + reflectWrites input.report

/-- A run without faults makes no more writes than its batches have. -/
theorem plainRecords_faultFree_le (streams : Streams) :
    plainRecords (finalStore (runGoal loop (fun _ => none) goal input ⟨streams, 0⟩))
      ≤ onceRecords loop goal input streams := by
  have hends : Ends (fun _ s => plainRecords s.content ≤ onceRecords loop goal input streams)
      (fun _ s => plainRecords s.content ≤ onceRecords loop goal input streams)
      (runGoal loop (fun _ => none) goal input) ⟨streams, 0⟩ := by
    have hinjected := writeAll_ends (raisedBy fun _ => none) plainRecords
      (plain_injection loop goal input.injected) ⟨streams, 0⟩
    simp only [onceRecords]
    refine ends_bind.2 (hinjected.mono ?_ ?_)
    · rintro _ s₁ ⟨_, _, _, hcount₁⟩
      refine ends_bind.2 ((validate_faultFree _ _ s₁).mono ?_ ?_)
      · intro signal s₂ hcount₂
        refine ends_bind.2 ((reflect_faultFree _ _ _ signal s₂).mono ?_ ?_)
        · intro _ s₃ hcount₃
          show plainRecords s₃.content ≤ _
          dsimp only at hcount₁
          omega
        · intro _ s₃ hcount₃
          dsimp only at hcount₁
          omega
      · intro _ s₂ hcount₂
        dsimp only at hcount₁
        omega
    · rintro _ s₁ ⟨j, hj, _, hcount₁, _⟩
      dsimp only at hcount₁
      omega
  rcases hx : runGoal loop (fun _ => none) goal input ⟨streams, 0⟩ with ⟨_, s⟩ | ⟨_, s⟩
  · exact (ends_of_ok hx).1 hends
  · exact (ends_of_error hx).1 hends

/-! ### A run that returns -/

theorem validate_returned {modifiers : Fields} {report : ExecutionReport} {s s' : World}
    {signal : FeedbackSignal T}
    (h : runStepWithRetry loop (validate loop fails goal modifiers report) s = .ok signal s') :
    plainRecords s.content + validateWrites loop goal modifiers report ≤ plainRecords s'.content
      ∧ (plainRecords s'.content
            = plainRecords s.content + validateWrites loop goal modifiers report →
          FailsFirst (raisedBy fails) s.attempts (validateWrites loop goal modifiers report)
              s'.attempts
            ∧ performAll (performCall loop) (feedbackCalls loop (signalAt loop
                (runFeedback loop goal modifiers report) s.content)) s.content = .ok s'.content
            ∧ signal = signalAt loop (runFeedback loop goal modifiers report) s.content)
      ∧ ((∃ attempts, FailsFirst (raisedBy fails) s.attempts
            (validateWrites loop goal modifiers report) attempts) →
          plainRecords s'.content
            = plainRecords s.content + validateWrites loop goal modifiers report) :=
  retry_batch_returns (length_feedbackCalls goal modifiers report) plainRecords
    (plain_validation modifiers report) (fun _ _ _ => performCall_refused) h

theorem persist_returned {modifiers : Fields} {plan : Planning.ExecutionPlan}
    {report : ExecutionReport} {signal : FeedbackSignal T} {result : ReflectionResult}
    {s s' : World}
    (h : runStepWithRetry loop (batchStep (raisedBy fails) (performCall loop)
      (fun streams => persistCalls loop goal modifiers plan report signal
        (loop.now (stored streams))) (fun _ => reflection loop report)) s = .ok result s') :
    plainRecords s.content + reflectWrites report ≤ plainRecords s'.content
      ∧ (plainRecords s'.content = plainRecords s.content + reflectWrites report →
          FailsFirst (raisedBy fails) s.attempts (reflectWrites report) s'.attempts
            ∧ performAll (performCall loop) (persistCalls loop goal modifiers plan report signal
                (loop.now (stored s.content))) s.content = .ok s'.content)
      ∧ ((∃ attempts, FailsFirst (raisedBy fails) s.attempts (reflectWrites report) attempts) →
          plainRecords s'.content = plainRecords s.content + reflectWrites report) := by
  obtain ⟨hle, hexact, hfirst⟩ := retry_batch_returns
    (fun content => length_persistCalls goal modifiers plan report signal
      (loop.now (stored content))) plainRecords (plain_reflection modifiers plan report signal)
    (fun _ _ _ => performCall_refused) h
  exact ⟨hle, fun hsize => ⟨(hexact hsize).1, (hexact hsize).2.1⟩, hfirst⟩

/-- A run that returns, in its three batches and the self-improvement. -/
theorem runGoal_eq_ok {s w : World} {result : AgentResult T}
    (h : runGoal loop fails goal input s = .ok result w) :
    ∃ s₁ signal s₂ reflected s₃,
      writeAll (raisedBy fails) (performCall loop) (injectedCalls loop goal input.injected) s
        = .ok ⟨⟩ s₁
      ∧ runStepWithRetry loop (validate loop fails goal (appliedModifiers loop input.injected)
          input.report) s₁ = .ok signal s₂
      ∧ runStepWithRetry loop (batchStep (raisedBy fails) (performCall loop)
          (fun streams => persistCalls loop goal (appliedModifiers loop input.injected) input.plan
            input.report signal (loop.now (stored streams)))
          (fun _ => reflection loop input.report)) s₂ = .ok reflected s₃
      ∧ runSelfImprovement loop fails s₃ = .ok ⟨⟩ w := by
  obtain ⟨_, s₁, hinjected, h⟩ := bind_eq_ok h
  obtain ⟨signal, s₂, hvalidate, h⟩ := bind_eq_ok h
  obtain ⟨_, _, hreflect, h⟩ := bind_eq_ok h
  rw [retry_reflectStep] at hreflect
  obtain ⟨_, s₃, hpersist, hreflect⟩ := bind_eq_ok hreflect
  obtain ⟨_, _, hself, hreflect⟩ := bind_eq_ok hreflect
  cases hreflect
  cases h
  exact ⟨s₁, signal, s₂, _, s₃, hinjected, hvalidate, hpersist, hself⟩

/-- **What a run that returns has written before its self-improvement**: at least one copy of each
record, and exactly one if and only if each failed attempt of the two steps has failed at its first
write. -/
theorem runGoal_returned {streams : Streams} {w : World} {result : AgentResult T}
    (h : runGoal loop fails goal input ⟨streams, 0⟩ = .ok result w) :
    ∃ s, runSelfImprovement loop fails s = .ok ⟨⟩ w
      ∧ onceRecords loop goal input streams ≤ plainRecords s.content
      ∧ (plainRecords s.content = onceRecords loop goal input streams →
        beforeImprovement loop goal input streams = .ok s.content
          ∧ ∃ n, FailsFirst (raisedBy fails) (injectedCalls loop goal input.injected).length
              (validateWrites loop goal (appliedModifiers loop input.injected) input.report) n
            ∧ FailsFirst (raisedBy fails) n (reflectWrites input.report) s.attempts)
      ∧ ∀ n n', FailsFirst (raisedBy fails) (injectedCalls loop goal input.injected).length
            (validateWrites loop goal (appliedModifiers loop input.injected) input.report) n →
          FailsFirst (raisedBy fails) n (reflectWrites input.report) n' →
          plainRecords s.content = onceRecords loop goal input streams ∧ n' = s.attempts := by
  obtain ⟨s₁, signal, s₂, _, s, hinjected, hvalidate, hpersist, hself⟩ := runGoal_eq_ok h
  refine ⟨s, hself, ?_⟩
  have hwrites := (ends_of_ok hinjected).1 (writeAll_ends (raisedBy fails) plainRecords
    (plain_injection loop goal input.injected) ⟨streams, 0⟩)
  obtain ⟨_, hperform₁, hattempts₁, hcount₁⟩ := hwrites
  obtain ⟨hle₂, hexact₂, hfirst₂⟩ := validate_returned hvalidate
  obtain ⟨hle₃, hexact₃, hfirst₃⟩ := persist_returned hpersist
  dsimp only at hattempts₁ hcount₁ hperform₁
  rw [Nat.zero_add] at hattempts₁
  rw [hattempts₁] at hexact₂ hfirst₂
  simp only [onceRecords]
  refine ⟨by omega, fun hsize => ?_, fun n n' hn hn' => ?_⟩
  · obtain ⟨hn, hperform₂, rfl⟩ := hexact₂ (by omega)
    obtain ⟨hn', hperform₃⟩ := hexact₃ (by omega)
    refine ⟨?_, s₂.attempts, hn, hn'⟩
    simp only [beforeImprovement, hperform₁, bind, Except.bind, hperform₂, hperform₃]
  · have hcount₂ := hfirst₂ ⟨n, hn⟩
    have hattempts₂ : n = s₂.attempts :=
      failsFirst_unique (Nat.add_pos_left Nat.one_pos _) hn (hexact₂ hcount₂).1
    have hcount₃ := hfirst₃ ⟨n', hattempts₂ ▸ hn'⟩
    refine ⟨by omega, failsFirst_unique ?_ (hattempts₂ ▸ hn') (hexact₃ hcount₃).1⟩
    rw [reflectWrites]
    omega

/-- Each failed attempt of the two steps has failed at its first write, and no write of an improvement
was faulty. -/
def OneCopy (loop : AgentLoop T) (fails : ℕ → Option Fault) (goal : String) (input : RunInput)
    (streams : Streams) : Prop :=
  ∃ n n', FailsFirst (raisedBy fails) (injectedCalls loop goal input.injected).length
      (validateWrites loop goal (appliedModifiers loop input.injected) input.report) n
    ∧ FailsFirst (raisedBy fails) n (reflectWrites input.report) n'
    ∧ ∀ content, beforeImprovement loop goal input streams = .ok content →
        NoFault (raisedBy fails) n' (improvementsWritten loop content)

theorem runGoal_records_iff {streams : Streams} {w : World} {result : AgentResult T}
    (h : runGoal loop fails goal input ⟨streams, 0⟩ = .ok result w) :
    (∀ type, (w.content type).Perm
        (finalStore (runGoal loop (fun _ => none) goal input ⟨streams, 0⟩) type))
      ↔ OneCopy loop fails goal input streams := by
  obtain ⟨s, hself, hle, hexact, hfirst⟩ := runGoal_returned h
  have hplain : plainRecords w.content = plainRecords s.content :=
    (ends_of_ok hself).1 (runSelfImprovement_plain s)
  have himproved := (ends_of_ok hself).1 (runSelfImprovement_ends s)
  constructor
  · intro hperm
    have hsame : plainRecords w.content = _ := tally_congr hperm
    have hmost : plainRecords (finalStore (runGoal loop (fun _ => none) goal input ⟨streams, 0⟩)) ≤ _ :=
      plainRecords_faultFree_le streams
    obtain ⟨hbefore, n, hn, hn'⟩ := hexact (Nat.le_antisymm (by rw [← hplain, hsame]; exact hmost) hle)
    refine ⟨n, s.attempts, hn, hn', fun content hcontent => ?_⟩
    cases hbefore.symm.trans hcontent
    rcases himproved with ⟨hclean, _⟩ | ⟨_, hless⟩
    · exact hclean
    · rw [← finalStore_of_before hbefore] at hless
      exact absurd (tally_congr hperm) (Nat.ne_of_lt hless)
  · rintro ⟨n, n', hn, hn', hclean⟩
    obtain ⟨hsize, rfl⟩ := hfirst n n' hn hn'
    obtain ⟨hbefore, _⟩ := hexact hsize
    rcases himproved with ⟨_, hcontent⟩ | ⟨hfault, _⟩
    · intro type
      rw [hcontent, finalStore_of_before hbefore]
    · exact absurd (hclean _ hbefore) hfault

/-- **A run that returns leaves the records of the run without faults if and only if nothing was
written twice and no improvement was lost.** -/
theorem run_records_iff (loop : AgentLoop T) (fails : ℕ → Option Fault) (input : RunInput)
    (streams : Streams) {w : World} {result : AgentResult T}
    (h : run loop fails input ⟨streams, 0⟩ = .ok result w) :
    (∀ type, (w.content type).Perm
        (finalStore (run loop (fun _ => none) input ⟨streams, 0⟩) type))
      ↔ OneCopy loop fails (strip input.goal) input streams := by
  unfold run at h ⊢
  split at h
  · cases h
  · rename_i hgoal
    split at h
    · cases h
    · rename_i hinjected
      rw [if_neg hgoal, if_neg hinjected]
      exact runGoal_records_iff h

/-! ### Two runs of one loop -/

def sampleLoop : AgentLoop Instant where
  maxAttempts := 3
  wallClock _ := .mk
  now _ := .mk
  digest _ := "0123456789ab"
  quotient _ _ := .float 1 0
  evaluate evaluation :=
    { taskId := evaluation.taskId, success := true, score := .float 1 0, feedback := "Exact match",
      metrics := [] }
  generateFeedback _ evaluation :=
    { executionId := evaluation.taskId, score := evaluation.score, success := evaluation.success,
      failureType := none, improvementSuggestions := [], confidence := .float 1 0 }
  processFeedback _ := []
  applyInjected _ := some (0, [])
  approve _ := .ok []

/-- The plan of the goal and the report of its execution. -/
def sampleInput : RunInput where
  goal := "goal"
  injected := []
  plan :=
    { orderedTasks := [⟨"task-1", "goal", [], []⟩]
      executionGroups := [⟨0, ["task-1"]⟩]
      metadata := ⟨1, false⟩ }
  report :=
    { tasks := [⟨"task-1", "goal", [], .completed, some "", none, none⟩]
      status := .completed
      totalTasks := 1
      completedTasks := 1
      failedTasks := 0
      skippedTasks := 0 }

/-- The third write fails, which is the second of the reflection. -/
def thirdFails (attempts : ℕ) : Option Fault := if attempts = 2 then some .osError else none

theorem thirdFails_returns : ∃ result w,
    run sampleLoop thirdFails sampleInput ⟨fun _ => [], 0⟩ = .ok result w
      ∧ (w.content .execution).length = 3 :=
  ends_never_raises.1 (by decide +kernel)

theorem length_faultFree : (finalStore
    (run sampleLoop (fun _ => none) sampleInput ⟨fun _ => [], 0⟩) .execution).length = 2 := by
  decide +kernel

theorem run_records_iff_sample : ∃ result w,
    run sampleLoop thirdFails sampleInput ⟨fun _ => [], 0⟩ = .ok result w
      ∧ ((∀ type, (w.content type).Perm
          (finalStore (run sampleLoop (fun _ => none) sampleInput ⟨fun _ => [], 0⟩) type))
        ↔ OneCopy sampleLoop thirdFails (strip sampleInput.goal) sampleInput fun _ => []) :=
  thirdFails_returns.imp fun _ => Exists.imp fun _ hrun =>
    ⟨hrun.1, run_records_iff sampleLoop thirdFails sampleInput (fun _ => []) hrun.1⟩

/-- The execution record of the first attempt stays beside that of the second. -/
theorem run_duplicates_execution : ∃ result w,
    run sampleLoop thirdFails sampleInput ⟨fun _ => [], 0⟩ = .ok result w
      ∧ ¬ ∀ type, (w.content type).Perm
        (finalStore (run sampleLoop (fun _ => none) sampleInput ⟨fun _ => [], 0⟩) type) := by
  refine thirdFails_returns.imp fun result => Exists.imp fun w hrun => ⟨hrun.1, fun hperm => ?_⟩
  have hlength : 3 = 2 := hrun.2.symm.trans ((hperm .execution).length_eq.trans length_faultFree)
  cases hlength

end PersonalDevin.Loop
