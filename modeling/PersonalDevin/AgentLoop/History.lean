import PersonalDevin.AgentLoop.Copies
import PersonalDevin.Memory.History

/-!
# The history of the runs

What the service gives back as the history of runs without faults on a store that was empty before. The
reflection of a run writes two records to the execution stream, one with `record_execution` and one with
`log_execution`, and the history has one `ExecutionRecord` for each of them.
-/

namespace PersonalDevin.Loop

open Lib
open Execution (ExecutionReport)
open Memory (ExecutionRecord Instant MemoryType ServiceCall Streams Timestamp getRecentHistory
  newestFirst)

variable {T : Type} [Timestamp T]

/-! ### Execution records -/

section Calls

variable {loop : AgentLoop T}

def isExecution (call : ServiceCall T) : Bool := call.type = .execution

theorem length_execution_of_ok {call : ServiceCall T} {c c' : Streams}
    (h : performCall loop call c = .ok c') :
    (c' .execution).length = (c .execution).length + if isExecution call then 1 else 0 := by
  obtain ⟨payload, rfl, _⟩ := performCall_ok h
  by_cases htype : call.type = .execution
  · rw [isExecution, htype, Streams.push, Function.update_self, List.length_append]
    rfl
  · rw [isExecution, Streams.push, Function.update_of_ne (Ne.symm htype)]
    simp only [htype, decide_false, Bool.false_eq_true, if_false, Nat.add_zero]

theorem length_execution_of_all {calls : List (ServiceCall T)} {c c' : Streams}
    (h : performAll (performCall loop) calls c = .ok c') :
    (c' .execution).length = (c .execution).length + calls.countP isExecution := by
  induction calls generalizing c with
  | nil =>
      cases h
      rfl
  | cons call rest ih =>
      rw [performAll] at h
      split at h
      · rename_i c₁ hcall
        rw [ih h, length_execution_of_ok hcall, List.countP_cons]
        omega
      · cases h

variable (loop)

omit [Timestamp T] in
theorem countP_injectedCalls (goal : String) (injected : List RuntimeAdaptation) :
    (injectedCalls loop goal injected).countP isExecution = 0 := by
  rw [injectedCalls]
  split <;> rfl

theorem countP_feedbackCalls (signal : FeedbackSignal T) :
    (feedbackCalls loop signal).countP isExecution = 0 := by
  rw [feedbackCalls, List.countP_cons]
  cases feedbackFailure signal.toFeedback <;> rfl

/-- **A reflection writes two execution records.** -/
theorem countP_persistCalls (goal : String) (modifiers : Fields) (plan : Planning.ExecutionPlan)
    (report : ExecutionReport) (signal : FeedbackSignal T) (time : T) :
    (persistCalls loop goal modifiers plan report signal time).countP isExecution = 2 := by
  have htasks : (report.tasks.flatMap (taskCalls (T := T) goal)).countP isExecution = 0 := by
    rw [List.countP_eq_zero]
    intro call hmem
    obtain ⟨task, _, hmem⟩ := List.mem_flatMap.1 hmem
    rcases List.mem_cons.1 hmem with rfl | hmem
    · exact Bool.false_ne_true
    · split at hmem
      · rw [List.mem_singleton.1 hmem]
        exact Bool.false_ne_true
      · cases hmem
  rw [persistCalls, List.countP_append, List.countP_append, htasks]
  rfl

variable {loop}

theorem runSelfImprovement_execution {fails : ℕ → Option Fault} (s : World) :
    Ends (fun _ s' => (s'.content .execution).length = (s.content .execution).length)
      (fun _ s' => (s'.content .execution).length = (s.content .execution).length)
      (runSelfImprovement loop fails) s := by
  apply ends_runSelfImprovement
  · exact fun _ _ => ⟨rfl, fun _ => rfl⟩
  · intro approved _
    refine keeps_writeAll (fun c => (c .execution).length = (s.content .execution).length) ?_ s rfl
    intro call hmem c c' hc hperform
    obtain ⟨action, _, rfl⟩ := List.mem_map.1 hmem
    exact (length_execution_of_ok hperform).trans hc

/-- **A run without faults that returns has written two execution records.** -/
theorem runGoal_execution {goal : String} {input : RunInput} {s w : World} {result : AgentResult T}
    (h : runGoal loop (fun _ => none) goal input s = .ok result w) :
    (w.content .execution).length = (s.content .execution).length + 2 := by
  obtain ⟨s₁, signal, s₂, _, s₃, hinjected, hvalidate, hpersist, hself⟩ := runGoal_eq_ok h
  have hall : ∀ calls : List (ServiceCall T), ∀ call ∈ calls, ∀ c c',
      performCall loop call c = .ok c' → allRecords c' = allRecords c + 1 :=
    fun _ _ _ _ _ => allRecords_of_ok
  have hfirst := ((ends_of_ok hinjected).1 (writeAll_ends _ allRecords (hall _) s)).2.1
  have hsecond := ((ends_of_ok hvalidate).1 (retry_batch_faultFree _ (fun _ => rfl)
    (fun _ _ _ => performCall_refused) allRecords (fun _ => hall _) _ s₁)).2.1
  have hthird := ((ends_of_ok hpersist).1 (retry_batch_faultFree _ (fun _ => rfl)
    (fun _ _ _ => performCall_refused) allRecords (fun _ => hall _) _ s₂)).2.1
  have hlast := (ends_of_ok hself).1 (runSelfImprovement_execution s₃)
  rw [hlast, length_execution_of_all hthird, length_execution_of_all hsecond,
    length_execution_of_all hfirst, countP_injectedCalls, countP_feedbackCalls, countP_persistCalls]

end Calls

/-! ### Runs -/

section Runs

variable (loop : AgentLoop T)

/-- One run after the other, without faults. -/
def runs : List RunInput → EStateM Raised World (List (AgentResult T))
  | [] => pure []
  | input :: rest => do
      let result ← run loop (fun _ => none) input
      let results ← runs rest
      return result :: results

variable {loop}

theorem runs_execution {inputs : List RunInput} {s w : World} {results : List (AgentResult T)}
    (h : runs loop inputs s = .ok results w) :
    (w.content .execution).length = (s.content .execution).length + 2 * inputs.length := by
  induction inputs generalizing s results with
  | nil =>
      cases h
      rfl
  | cons input rest ih =>
      obtain ⟨result, s₁, hrun, h⟩ := bind_eq_ok h
      obtain ⟨_, s₂, hrest, h⟩ := bind_eq_ok h
      cases h
      have hone : (s₁.content .execution).length = (s.content .execution).length + 2 := by
        unfold run at hrun
        split at hrun
        · cases hrun
        · split at hrun
          · cases hrun
          · exact runGoal_execution hrun
      rw [ih hrest, hone, List.length_cons]
      omega

/-- The history has exactly one record for each run, with its task id, its success and its errors. -/
def OneRecordPerRun (loop : AgentLoop T) (inputs : List RunInput)
    (history : List (ExecutionRecord T)) : Prop :=
  (history.map fun record => (record.taskId.val, record.success, record.errors)).Perm
    (inputs.map fun input => (iterationId loop (strip input.goal),
      decide (classify input.report = .success), taskErrors input.report))

variable [LE T] [DecidableLE T]

theorem length_history {inputs : List RunInput} {w : World} {results : List (AgentResult T)}
    (h : runs loop inputs ⟨fun _ => [], 0⟩ = .ok results w) {limit : ℤ}
    (hlimit : 2 * inputs.length ≤ limit) {now : T} {history : List (ExecutionRecord T)}
    (hhistory : getRecentHistory now w.content limit = some history) :
    history.length = 2 * inputs.length := by
  have hstream := runs_execution h
  rw [Memory.length_getRecentHistory hhistory, hstream]
  simp only [List.length_nil]
  omega

theorem not_oneRecordPerRun {inputs : List RunInput} {w : World} {results : List (AgentResult T)}
    (h : runs loop inputs ⟨fun _ => [], 0⟩ = .ok results w) {limit : ℤ}
    (hlimit : 2 * inputs.length ≤ limit) {now : T} {history : List (ExecutionRecord T)}
    (hhistory : getRecentHistory now w.content limit = some history) (hne : inputs ≠ []) :
    ¬ OneRecordPerRun loop inputs history := by
  intro hone
  have hlength := hone.length_eq
  rw [List.length_map, List.length_map, length_history h hlimit hhistory] at hlength
  have hpos := List.length_pos_iff.2 hne
  omega

/-- **The history counts each run once only if there was no run.** -/
theorem recentHistory_oneRecord_iff (loop : AgentLoop T) (inputs : List RunInput) (limit : ℤ)
    (now : T) {w : World} {results : List (AgentResult T)}
    (h : runs loop inputs ⟨fun _ => [], 0⟩ = .ok results w)
    (hlimit : 2 * inputs.length ≤ limit) :
    (∃ history, getRecentHistory now w.content limit = some history
        ∧ OneRecordPerRun loop inputs history)
      ↔ inputs = [] := by
  constructor
  · rintro ⟨history, hhistory, hone⟩
    by_contra hne
    exact not_oneRecordPerRun h hlimit hhistory hne hone
  · rintro rfl
    cases h
    refine ⟨[], ?_, List.Perm.nil⟩
    show ((newestFirst _ []).take limit.toNat).mapM _ = some []
    rw [newestFirst, List.insertionSort_nil, List.take_nil]
    rfl

end Runs

/-- One run, of whose two records the second has the id of the stored record for its task id. -/
theorem sample_history : ∃ results w, runs sampleLoop [sampleInput] ⟨fun _ => [], 0⟩ = .ok results w
    ∧ (getRecentHistory Instant.mk w.content 2).map
        (List.map fun record => (record.taskId.val, record.success))
      = some [("execution-000002", true), ("iter-0123456789ab", true)] :=
  ends_never_raises.1 (by decide +kernel)

theorem recentHistory_oneRecord_sample : ∃ results w,
    runs sampleLoop [sampleInput] ⟨fun _ => [], 0⟩ = .ok results w
      ∧ ((∃ history, getRecentHistory Instant.mk w.content 2 = some history
          ∧ OneRecordPerRun sampleLoop [sampleInput] history) ↔ [sampleInput] = []) :=
  sample_history.imp fun _ => Exists.imp fun _ hruns =>
    ⟨hruns.1, recentHistory_oneRecord_iff sampleLoop [sampleInput] 2 Instant.mk hruns.1 (by decide)⟩

/-- One run has two records in the history. -/
theorem history_counts_twice : ∃ results w,
    runs sampleLoop [sampleInput] ⟨fun _ => [], 0⟩ = .ok results w
      ∧ ¬ ∃ history, getRecentHistory Instant.mk w.content 2 = some history
        ∧ OneRecordPerRun sampleLoop [sampleInput] history := by
  refine sample_history.imp fun results => Exists.imp fun w hruns => ⟨hruns.1, ?_⟩
  rintro ⟨history, hhistory, hone⟩
  exact not_oneRecordPerRun hruns.1 (by decide) hhistory (List.cons_ne_nil _ _) hone

end PersonalDevin.Loop
