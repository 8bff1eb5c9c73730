import PersonalDevin.Orchestration.Served

/-!
# Runs on the memory that the controller keeps

Run after run, `OrchestrationController()` either rejects the tasks of the request or completes every
phase. What it then writes is the report of the runner, and what it learns are the failures of its runs.
-/

namespace PersonalDevin.Orchestration

open Lib
open Execution (ExecutionReport ExecutionTask HandlerOutcome runAnswering)
open Memory (ServiceCall Timestamp Zoned)
open Memory.MemoryService (Midnight SameZone readsNewest_iff stamp)
open Planning (ExecutionPlan PlanError)
open SelfImprovement (SelfImprovementLoop reported reportedError)
open SelfImprovement.Patterns (SelfImprovementAdaptation)

namespace Setting

variable {T : Type} [Timestamp T] [Zoned T] {setting : Setting T}

/-! ### The phases of a run -/

section Phases

variable {history : List (T × ServiceCall T)} {memory : ServedMemory}
  {s : Shared ServedMemory}

theorem Kept.sameZone (h : Kept history memory) : SameZone (history.map stamp) := by
  have haware : ∀ time ∈ history.map stamp, Zoned.aware time = true := List.forall_mem_map.2 h.aware
  exact fun a ha b hb => (haware a ha).trans (haware b hb).symm

/-- The records that are read for the reflection are counted up to the limit. -/
theorem getRecent_of_kept (hkept : Kept history memory) (limit : ℕ) :
    setting.memoryService.getRecent limit memory = .ok (.ok (min limit history.length)) memory := by
  have hreads := (readsNewest_iff hkept.written (setting.clock memory.readings) limit).2
    ⟨hkept.sameZone, .inl (Int.natCast_nonneg _)⟩
  obtain ⟨stored, newest, hstored, hrecent, hnewest⟩ := hreads.recent
  obtain ⟨written, hwritten⟩ := SelfImprovement.exists_writtenBy hkept.written
  obtain rfl := Option.some.inj (hstored.symm.trans (hwritten.allRecords_eq _))
  have hlength := hnewest.length
  rw [hwritten.length_records] at hlength
  have hcount : newest.length = min limit history.length := by omega
  simp only [memoryService, read, hrecent, Option.bind_eq_bind, Option.bind_some, Option.pure_def,
    hcount]

def reportCalls (request : OrchestrationRequest Handlers) (report : ExecutionReport) :
    List (ServiceCall T) :=
  executionCall request report :: report.tasks.map taskCall
    ++ if report.status = .failed then [failureCall request report.tasks] else []

/-- The calls of the reflection on a memory with so many records. -/
def reflectionCalls (request : OrchestrationRequest Handlers) (report : ExecutionReport)
    (stored : ℕ) : List (ServiceCall T) :=
  let logged : List (ServiceCall T) := reportCalls request report
  logged ++ [reflectionCall request (min 25 (stored + logged.length))]

/-- `_reflect` from the count of the recent records on. -/
theorem exists_reflectionSummary (request : OrchestrationRequest Handlers)
    (hkept : Kept history s.world) :
    ∃ summary s' history', (do
        let recent ← onWorld (setting.memoryService.getRecent 25)
        let recentCount ← reading recent
        let reflectionId ← remember setting.memoryService (reflectionCall request recentCount)
        let s ← get
        return ([("recent_record_count", .int recentCount),
          ("memory_record_count", .int s.memoryRecordIds.length),
          ("reflection_record_id", reflectionId)] : Fields)) s = .ok summary s'
      ∧ Recorded history [reflectionCall request (min 25 history.length)] history' s s' := by
  obtain ⟨id, s', history', hremember, hrecorded⟩ := exists_remember hkept
    (loggable_reflection request (min 25 history.length))
  refine ⟨[("recent_record_count", .int (min 25 history.length : ℕ)),
    ("memory_record_count", .int s'.memoryRecordIds.length), ("reflection_record_id", id)],
    s', history', ?_, hrecorded⟩
  have hread : onWorld (setting.memoryService.getRecent 25) s
      = .ok (.ok (min 25 history.length)) s := onWorld_of_ok (getRecent_of_kept hkept 25)
  rw [bind_of_ok hread]
  show (remember setting.memoryService (reflectionCall request (min 25 history.length)) >>= _) s = _
  rw [bind_of_ok hremember]
  rfl

variable (setting) in
/-- The failure of a report is logged before the rest goes on. -/
theorem exists_rememberFailure (request : OrchestrationRequest Handlers) (report : ExecutionReport)
    (hkept : Kept history s.world) :
    ∃ s' history', (∀ rest : EStateM Raised (Shared ServedMemory) Fields,
        (if report.status = .failed then do
            let _ ← remember setting.memoryService (failureCall request report.tasks)
            rest
          else rest) s = rest s')
      ∧ Recorded history (if report.status = .failed then [failureCall request report.tasks] else [])
        history' s s' := by
  split
  · obtain ⟨_, s', history', hfailure, hrecorded⟩ :=
      exists_remember hkept (loggable_failure request report.tasks)
    exact ⟨s', history', fun _ => bind_of_ok hfailure, hrecorded⟩
  · exact ⟨s, history, fun _ => rfl, hkept.wrote, rfl⟩

/-- **What the reflection writes.** -/
theorem exists_reflect (request : OrchestrationRequest Handlers) (hkept : Kept history s.world)
    {plan : ExecutionPlan} {report : ExecutionReport} (hreport : Execution.Consistent plan report) :
    ∃ reflection s' history', reflect setting.controller request report s = .ok reflection s'
      ∧ Recorded history (reflectionCalls request report history.length) history' s s' := by
  obtain ⟨_, s₁, history₁, hexecution, hrecorded₁⟩ :=
    exists_remember hkept (loggable_execution request hreport)
  obtain ⟨s₂, history₂, htasks, hrecorded₂⟩ := exists_rememberAll taskCall report.tasks
    (fun task _ => loggable_task task) hrecorded₁.wrote.kept
  obtain ⟨s₃, history₃, hfailure, hrecorded₃⟩ :=
    exists_rememberFailure setting request report hrecorded₂.wrote.kept
  obtain ⟨summary, s', history', hsummary, hrecorded⟩ :=
    exists_reflectionSummary request hrecorded₃.wrote.kept
  have hlogged : Recorded history (reportCalls request report) history₃ s s₃ :=
    (hrecorded₁.trans hrecorded₂).trans hrecorded₃
  rw [hlogged.wrote.length_eq] at hrecorded
  refine ⟨summary, s', history', ?_, hlogged.trans hrecorded⟩
  exact (bind_of_ok hexecution).trans ((bind_of_ok htasks).trans ((hfailure _).trans hsummary))

end Phases

/-! ### The improvements -/

section Improvements

open SelfImprovement.AdaptationPolicy (splits_validate)
open SelfImprovement.Patterns (adapt generate)

variable {py : SelfImprovement.Patterns.Interpreter}
  {executions : List SelfImprovement.Patterns.ExecutionRecord}
  {failures : List SelfImprovement.Patterns.FailureRecord}

theorem storable_of_adapt {pattern : SelfImprovement.Patterns.Pattern}
    {adaptations : List SelfImprovementAdaptation} (h : adapt py pattern = .ok adaptations) :
    ∀ a ∈ adaptations, a.value.jsonRoundTrip.isSome = true := by
  rw [adapt] at h
  cases hkind : pattern.kind <;> rw [hkind] at h
  · cases h
    intro a ha
    rcases List.mem_pair.1 ha with rfl | rfl <;> rfl
  · obtain ⟨value, -, h⟩ := except_bind_eq_ok_iff.1 h
    cases h
    intro a ha
    rw [List.mem_singleton.1 ha]
    rfl
  · cases h
    intro a ha
    rcases List.mem_pair.1 ha with rfl | rfl <;> rfl

theorem storable_of_generate {patterns : List SelfImprovement.Patterns.Pattern}
    {adaptations : List SelfImprovementAdaptation} (h : generate py patterns = .ok adaptations) :
    ∀ a ∈ adaptations, a.value.jsonRoundTrip.isSome = true := by
  obtain ⟨lists, hlists, h⟩ := except_bind_eq_ok_iff.1 h
  cases h
  intro a ha
  obtain ⟨made, hmade, ha⟩ := List.mem_flatten.1 ((List.mem_insertionSort _).1 ha)
  obtain ⟨pattern, -, hadapt⟩ := exists_of_mem_right (mapM_eq_ok_iff.1 hlists) hmade
  exact storable_of_adapt hadapt a ha

/-- What is approved was generated, and its value is a JSON value. -/
theorem approved_of_improve {result : SelfImprovement.AdaptationResult}
    (h : SelfImprovementLoop.default.improve py executions failures = .ok result) :
    ∀ a ∈ result.adaptationsApproved,
      a ∈ result.adaptationsGenerated ∧ a.value.jsonRoundTrip.isSome = true := by
  obtain ⟨patterns, hdetect, h⟩ := except_bind_eq_ok_iff.1 h
  obtain ⟨adaptations, hgenerate, h⟩ := except_bind_eq_ok_iff.1 h
  cases h
  intro a ha
  have hmem := ((splits_validate _ adaptations).best a ha).mem
  exact ⟨hmem, storable_of_generate hgenerate a hmem⟩

end Improvements

/-- What the loop approves on a memory: one adaptation for the target of a rule, and as long as the memory
is read whole those for the failures that were reported. -/
structure Learned (history : List (T × ServiceCall T)) (approved : List SelfImprovementAdaptation) :
    Prop where
  rules : ∀ a ∈ approved, ∃ rule : SelfImprovement.Patterns.Rule, a.target = rule.target
  oneEach : (approved.map (·.target)).Nodup
  timeout : ∀ a ∈ approved, a.target ≠ "timeout"
  retry : history.length ≤ 200 → ((∃ a ∈ approved, a.target = "retry_limit")
    ↔ ∃ error, 2 ≤ (reported history).count error)
  guard : history.length ≤ 200 → ((∃ a ∈ approved, a.target = "policy_gate")
    ↔ ∃ error, 3 ≤ (reported history).count error)

omit [Timestamp T] [Zoned T] in
theorem Learned.length_le {history : List (T × ServiceCall T)}
    {approved : List SelfImprovementAdaptation} (h : Learned history approved) :
    approved.length ≤ 5 := by
  have htargets : approved.map (·.target) ⊆
      [.retry, .guard, .timeout, .strategy, .policy].map SelfImprovement.Patterns.Rule.target := by
    intro target hmem
    obtain ⟨a, ha, rfl⟩ := List.mem_map.1 hmem
    obtain ⟨rule, htarget⟩ := h.rules a ha
    rw [htarget]
    exact List.mem_map_of_mem (by cases rule <;> decide)
  simpa using (h.oneEach.subperm htargets).length_le

section Improving

variable {history : List (T × ServiceCall T)} {memory : ServedMemory}
  {s : Shared ServedMemory}

variable (setting) in
theorem exists_selfImprovement (hkept : Kept history memory) :
    ∃ approved, setting.controller.selfImprovementRunner memory
        = .ok (some ⟨.ok approved⟩) memory
      ∧ Learned history approved ∧ ∀ a ∈ approved, a.value.jsonRoundTrip.isSome = true := by
  obtain ⟨executions, result, hresult, himprove, htimeout⟩ :=
    SelfImprovementLoop.exists_run setting.py setting.std (setting.clock memory.readings)
      (setting.clock memory.readings) hkept.written hkept.counted
  have happroved := approved_of_improve himprove
  have happroves := SelfImprovementLoop.approves_of_improve himprove
  obtain ⟨written, hwritten⟩ := SelfImprovement.exists_writtenBy hkept.written
  obtain ⟨_, newest, _, hrecent, _⟩ :=
    ((readsNewest_iff hkept.written (setting.clock memory.readings) 200).2
    ⟨hkept.sameZone, .inl (Int.natCast_nonneg 200)⟩).recent
  have hperm := SelfImprovement.errorsOf_loadFailures hwritten setting.std
    (setting.clock memory.readings) (Option.isSome_iff_exists.2 ⟨newest, hrecent⟩)
  have hretry := happroves.evidence .retry
  have hguard := happroves.evidence .guard
  refine ⟨result.adaptationsApproved, ?_, ⟨fun a ha => ?_, happroves.oneEach,
    fun a ha => htimeout a (happroved a ha).1, fun hfew => ?_, fun hfew => ?_⟩,
    fun a ha => (happroved a ha).2⟩
  · simp only [controller, read, hresult, Option.bind_eq_bind, Option.bind_some, Option.pure_def]
  · obtain ⟨rule, _, _, hrule⟩ := happroves.approved a ha
    exact ⟨rule, congrArg Prod.snd hrule.key_eq⟩
  · simp only [SelfImprovement.Patterns.Evidence, (hperm hfew).count_eq] at hretry
    exact hretry
  · simp only [SelfImprovement.Patterns.Evidence, (hperm hfew).count_eq] at hguard
    exact hguard

/-- **What the improvement writes.** -/
theorem exists_improve (hkept : Kept history s.world) :
    ∃ approved improvement s' history', improve setting.controller s = .ok improvement s'
      ∧ Learned history approved
      ∧ Recorded history (approved.map setting.adaptationCall) history' s s' := by
  obtain ⟨approved, hrunner, hlearned, hstorable⟩ := exists_selfImprovement setting hkept
  obtain ⟨ids, memory', history', hwrites, hlength, hwrote⟩ := exists_writeAll
    setting.adaptationCall approved (fun a ha => loggable_adaptation setting (hstorable a ha)) hkept
  have hstored : setting.memoryService.storeImprovements approved s.world
      = .ok ⟨ids, none⟩ memory' := bind_of_ok hwrites
  refine ⟨approved, ⟨.ok approved⟩, ⟨memory', s.memoryRecordIds ++ ids⟩, history', ?_, hlearned,
    hwrote, ?_⟩
  · exact (bind_of_ok (onWorld_of_ok hrunner)).trans (bind_of_ok (onWorld_of_ok hstored))
  · rw [List.length_append, hlength, List.length_map]

end Improving

end Setting

/-! ### Runs -/

variable {T : Type} [Timestamp T] [Zoned T]

abbrev ProductionResult :=
  OrchestrationResult ExecutionPlan ExecutionReport (List SelfImprovementAdaptation)

/-- What a run comes to on a memory, and the calls that have written the memory after it. -/
inductive Serves (setting : Setting T) (request : OrchestrationRequest Handlers)
    (history : List (T × ServiceCall T)) (result : ProductionResult) :
    List (T × ServiceCall T) → Prop
  | rejected {error : PlanError} (hplan : Setting.requestedPlan request = .error error)
      (hstate : result.state = .failed) (hids : result.memoryRecordIds = []) :
      Serves setting request history result history
  | finished {plan : ExecutionPlan} {report : ExecutionReport}
      {approved : List SelfImprovementAdaptation} {written improved : List (T × ServiceCall T)}
      (hplan : Setting.requestedPlan request = .ok plan)
      (hreport : (runAnswering true request.handlers plan).report = report)
      (hresult : result.executionReport = some report)
      (hstate : result.state = terminalState report.status)
      (hwritten : written.map Prod.snd = Setting.reflectionCalls request report history.length)
      (hlearned : Setting.Learned (history ++ written) approved)
      (himproved : improved.map Prod.snd = approved.map setting.adaptationCall)
      (hids : result.memoryRecordIds.length = written.length + improved.length) :
      Serves setting request history result (history ++ written ++ improved)

def failureOf (request : OrchestrationRequest Handlers) : Option String :=
  match Setting.requestedPlan request with
  | .error _ => none
  | .ok plan =>
      let report := (runAnswering true request.handlers plan).report
      if report.status = .failed then some (strip (failureReason report.tasks)) else none

/-- What the runs for several requests come to. -/
inductive ServesAll (setting : Setting T) :
    List (OrchestrationRequest Handlers) → List (T × ServiceCall T) → List ProductionResult →
      List (T × ServiceCall T) → Prop
  | nil {history : List (T × ServiceCall T)} : ServesAll setting [] history [] history
  | cons {request : OrchestrationRequest Handlers} {rest : List (OrchestrationRequest Handlers)}
      {result : ProductionResult} {results : List ProductionResult}
      {history history' history'' : List (T × ServiceCall T)}
      (hfirst : Serves setting request history result history')
      (hrest : ServesAll setting rest history' results history'') :
      ServesAll setting (request :: rest) history (result :: results) history''

namespace Setting

variable (setting : Setting T)

/-- A run of the controller, with the memory that it leaves. -/
def serve (request : OrchestrationRequest Handlers) :
    EStateM Raised ServedMemory ProductionResult := fun memory =>
  match run setting.controller request memory with
  | .ok result s => .ok result s.shared.world
  | .error error s => .error error s.shared.world

/-- The runs for the requests, one after the other. -/
def serveAll (requests : List (OrchestrationRequest Handlers)) :
    EStateM Raised ServedMemory (List ProductionResult) :=
  requests.mapM setting.serve

section Served

variable {setting} {history : List (T × ServiceCall T)} {memory : ServedMemory}
  {request : OrchestrationRequest Handlers}

omit [Timestamp T] [Zoned T] in
theorem reported_append (history new : List (T × ServiceCall T)) :
    reported (history ++ new) = reported history ++ (new.map Prod.snd).filterMap reportedError := by
  rw [reported, List.filterMap_append, List.filterMap_map]
  rfl

omit [Timestamp T] [Zoned T] in
theorem reported_reflectionCalls (request : OrchestrationRequest Handlers) (report : ExecutionReport)
    (stored : ℕ) :
    (reflectionCalls request report stored : List (ServiceCall T)).filterMap reportedError
      = (if report.status = .failed then some (strip (failureReason report.tasks)) else none).toList := by
  have htasks : (report.tasks.map taskCall : List (ServiceCall T)).filterMap reportedError = [] :=
    List.filterMap_eq_nil_iff.2 (List.forall_mem_map.2 fun _ _ => rfl)
  have hexecution : reportedError (executionCall request report : ServiceCall T) = none := rfl
  have hreflection : ∀ n, reportedError (reflectionCall request n : ServiceCall T) = none :=
    fun _ => rfl
  rw [reflectionCalls, reportCalls, List.filterMap_append, List.filterMap_append,
    List.filterMap_cons_none hexecution, htasks, List.filterMap_cons_none (hreflection _)]
  split <;> rfl

omit [Timestamp T] in
theorem reported_adaptationCalls {improved : List (T × ServiceCall T)}
    {approved : List SelfImprovementAdaptation}
    (h : improved.map Prod.snd = approved.map setting.adaptationCall) :
    reported (history ++ improved) = reported history := by
  have hadaptations : (approved.map setting.adaptationCall).filterMap reportedError = [] :=
    List.filterMap_eq_nil_iff.2 (List.forall_mem_map.2 fun _ _ => rfl)
  rw [reported_append, h, hadaptations, List.append_nil]

omit [Timestamp T] in
/-- **The failures that a memory holds are those of the runs.** -/
theorem reported_of_serves {result : ProductionResult} {history' : List (T × ServiceCall T)}
    (h : Serves setting request history result history') :
    reported history' = reported history ++ (failureOf request).toList := by
  cases h with
  | rejected hplan => rw [failureOf, hplan, Option.toList_none, List.append_nil]
  | finished hplan hreport _ _ hwritten _ himproved =>
      rw [reported_adaptationCalls himproved, reported_append, hwritten, reported_reflectionCalls,
        failureOf, hplan]
      subst hreport
      rfl

omit [Timestamp T] in
/-- A run adds the tasks of its plan, and eight other records at most. -/
theorem length_le_of_serves {result : ProductionResult} {history' : List (T × ServiceCall T)}
    (h : Serves setting request history result history') {tasks : ℕ}
    (htasks : ∀ plan, requestedPlan request = .ok plan → plan.orderedTasks.length ≤ tasks) :
    history'.length ≤ history.length + (tasks + 8) := by
  cases h with
  | rejected => exact Nat.le_add_right _ _
  | @finished plan report approved written improved hplan hreport _ _ hwritten hlearned himproved =>
      have hconsistent : Execution.Consistent plan report :=
        hreport ▸ Execution.runAnswering_consistent true request.handlers plan
      have hreported : report.tasks.length ≤ tasks := by
        have hlength := congrArg List.length hconsistent.tasks
        rw [List.length_map, List.length_map] at hlength
        exact hlength ▸ htasks plan hplan
      have hfailure : (if report.status = .failed then [failureCall request report.tasks]
          else [] : List (ServiceCall T)).length ≤ 1 := by
        split
        · exact le_refl 1
        · exact zero_le_one
      have hwrites := congrArg List.length hwritten
      simp only [reflectionCalls, reportCalls, List.length_append, List.length_cons, List.length_map,
        List.length_nil] at hwrites hfailure
      have himprovements := congrArg List.length himproved
      rw [List.length_map, List.length_map] at himprovements
      have happroved := hlearned.length_le
      simp only [List.length_append]
      omega

omit [Timestamp T] in
/-- While the memory has at most 200 records, a run stores a retry limit once a failure recurs. -/
theorem stores_retry_of_serves {result : ProductionResult} {history' : List (T × ServiceCall T)}
    (h : Serves setting request history result history') {plan : ExecutionPlan}
    (hplan : requestedPlan request = .ok plan) (hfew : history'.length ≤ 200) {error : String}
    (hrecurs : 2 ≤ (reported history').count error) :
    ∃ a : SelfImprovementAdaptation,
      a.target = "retry_limit" ∧ setting.adaptationCall a ∈ history'.map Prod.snd := by
  cases h with
  | rejected hrejected => cases hrejected.symm.trans hplan
  | finished _ _ _ _ _ hlearned himproved =>
      rw [List.length_append] at hfew
      rw [reported_adaptationCalls himproved] at hrecurs
      obtain ⟨a, ha, htarget⟩ :=
        (hlearned.retry (le_of_add_le_left hfew)).2 ⟨error, hrecurs⟩
      refine ⟨a, htarget, ?_⟩
      rw [List.map_append, himproved]
      exact List.mem_append_right _ (List.mem_map_of_mem ha)

theorem lifecycle_of_rejected {error : PlanError} (hplan : Setting.requestedPlan request = .error error)
    (memory : ServedMemory) :
    lifecycle setting.controller request ⟨memory, []⟩
      = .error (.other (setting.planFailure error)) ⟨memory, []⟩ := by
  exact bind_of_error (onWorld_of_error (planningEngine_of_error hplan memory))

theorem exists_lifecycle (hkept : Kept history memory) {plan : ExecutionPlan}
    (hplan : Setting.requestedPlan request = .ok plan) {report : ExecutionReport}
    (hreport : (runAnswering true request.handlers plan).report = report) :
    ∃ approved s₁ s₂ history₁ history₂,
      lifecycle setting.controller request ⟨memory, []⟩ = .ok (some report) s₂
        ∧ Recorded history (reflectionCalls request report history.length) history₁ ⟨memory, []⟩ s₁
        ∧ Learned history₁ approved
        ∧ Recorded history₁ (approved.map setting.adaptationCall) history₂ s₁ s₂ := by
  have hconsistent : Execution.Consistent plan report :=
    hreport ▸ Execution.runAnswering_consistent true request.handlers plan
  obtain ⟨summary, hvalid⟩ := validateExecutionReport_of_consistent hconsistent memory
  have hexecutes : executionCalls setting.controller request plan memory
      = .ok (some report) memory := by
    refine retry_of_ok _ ?_
    rw [← hreport]
    rfl
  have hvalidates : observing (Reports.own.validateExecutionReport report) ⟨memory, []⟩
      = .ok summary ⟨memory, []⟩ := observing_of_ok hvalid
  obtain ⟨_, s₁, history₁, hreflect, hrecorded⟩ :=
    exists_reflect (s := ⟨memory, []⟩) request hkept hconsistent
  obtain ⟨approved, _, s₂, history₂, himprove, hlearned, himproved⟩ :=
    exists_improve hrecorded.wrote.kept
  refine ⟨approved, s₁, s₂, history₁, history₂, ?_, hrecorded, hlearned, himproved⟩
  refine (bind_of_ok (onWorld_of_ok (planningEngine_of_ok hplan memory))).trans
    ((bind_of_ok (onWorld_of_ok hexecutes)).trans ?_)
  exact (bind_of_ok hvalidates).trans ((bind_of_ok hreflect).trans (bind_of_ok himprove))

/-- **One run**: either the planner rejects the tasks and nothing is written, or every phase completes. -/
theorem exists_serves (request : OrchestrationRequest Handlers) (hkept : Kept history memory) :
    ∃ result memory' history', setting.serve request memory = .ok result memory'
      ∧ Serves setting request history result history' ∧ Kept history' memory' := by
  have hend := run_lifecycle setting.controller request memory
  generalize hlife : lifecycle setting.controller request ⟨memory, []⟩ = outcome at hend
  generalize hrun : run setting.controller request memory = ran at hend
  -- Only the planner can fail a run, so each plan leaves one of the ends of a lifecycle.
  rcases hplan : Setting.requestedPlan request with error | plan
  · have hrejected := (lifecycle_of_rejected hplan memory).symm.trans hlife
    cases hend with
    | @failed _ s _ _ _ _ _ _ hended hfailed =>
        obtain ⟨-, hshared⟩ := EStateM.Result.error.inj hrejected
        refine ⟨_, s.shared.world, history, by rw [serve, hrun], .rejected hplan hfailed ?_, ?_⟩
        · exact congrArg Shared.memoryRecordIds hshared.symm
        · exact hshared ▸ hkept
    | silent hsilent =>
        obtain ⟨rfl, -⟩ := EStateM.Result.error.inj hrejected
        cases hsilent
    | answeredNone => cases hrejected
    | finished => cases hrejected
    | unreadable => cases hrejected
  · obtain ⟨approved, s₁, s₂, history₁, history₂, hlifecycle, hrecorded, hlearned, himproved⟩ :=
      exists_lifecycle hkept hplan rfl
    have hfinished := hlifecycle.symm.trans hlife
    cases hend with
    | failed => cases hfinished
    | silent => cases hfinished
    | answeredNone => cases hfinished
    | @finished _ _ _ _ s _ _ hstatus hended hstate =>
        obtain ⟨hvalue, hshared⟩ := EStateM.Result.ok.inj hfinished
        cases hvalue
        cases hstatus
        obtain ⟨written, rfl, hwritten⟩ := hrecorded.wrote.appended
        obtain ⟨improved, rfl, himprovements⟩ := himproved.wrote.appended
        refine ⟨_, s.shared.world, _, by rw [serve, hrun],
          .finished hplan rfl rfl hstate hwritten hlearned himprovements ?_,
          hshared ▸ himproved.wrote.kept⟩
        show s.shared.memoryRecordIds.length = _
        rw [← hshared, himproved.ids, hrecorded.ids, ← hwritten, ← himprovements, List.length_map,
          List.length_map]
        exact congrArg (· + _) (Nat.zero_add _)
    | unreadable hstatus => cases hstatus

omit [Timestamp T] in
theorem length_le_of_servesAll {requests : List (OrchestrationRequest Handlers)}
    {results : List ProductionResult} {history' : List (T × ServiceCall T)}
    (h : ServesAll setting requests history results history') {tasks : ℕ}
    (htasks : ∀ request ∈ requests, ∀ plan, requestedPlan request = .ok plan →
      plan.orderedTasks.length ≤ tasks) :
    history'.length ≤ history.length + requests.length * (tasks + 8) := by
  induction h with
  | nil => exact Nat.le_add_right _ _
  | cons hfirst _ ih =>
      obtain ⟨hhead, hrest⟩ := List.forall_mem_cons.1 htasks
      have hgrown := length_le_of_serves hfirst hhead
      have hgrow := ih hrest
      rw [List.length_cons, Nat.succ_mul]
      omega

/-- **Every run of the controller on the memory that it keeps**, and the failures that the memory then
holds. -/
theorem serveAll_serves (requests : List (OrchestrationRequest Handlers))
    (hkept : Kept history memory) :
    ∃ results memory' history', setting.serveAll requests memory = .ok results memory'
      ∧ ServesAll setting requests history results history' ∧ Kept history' memory'
      ∧ reported history' = reported history ++ requests.filterMap failureOf := by
  induction requests generalizing history memory with
  | nil => exact ⟨[], memory, history, rfl, .nil, hkept, (List.append_nil _).symm⟩
  | cons request rest ih =>
      obtain ⟨result, memory₁, history₁, hserve, hserves, hkept₁⟩ := exists_serves request hkept
      obtain ⟨results, memory', history', hserveAll, hservesAll, hkept', hreported⟩ := ih hkept₁
      refine ⟨result :: results, memory', history', ?_, .cons hserves hservesAll, hkept', ?_⟩
      · rw [serveAll] at hserveAll
        rw [serveAll, List.mapM_cons, bind_of_ok hserve, bind_of_ok hserveAll]
        rfl
      · rw [hreported, reported_of_serves hserves, List.append_assoc, List.filterMap_cons]
        cases failureOf request <;> rfl

end Served

/-! ### Runs that fail -/

def utcSetting : Setting Midnight where
  clock _ := .utc
  aware _ := rfl
  py := SelfImprovement.Patterns.asciiInterpreter
  std := SelfImprovement.Analyzer.utcInterpreter
  decimal _ := (0, 0)
  planFailure _ := "Cycle detected in task dependencies"
  memoryFailure := .other "can't compare offset-naive and offset-aware datetimes"

/-- A request without tasks of its own, whose only task has a handler with the outcome. -/
def requestEnding (outcome : HandlerOutcome) : OrchestrationRequest Handlers where
  runId := "run-default"
  goal := "a goal"
  tasks := []
  handlers _ := Dict.empty.set "task-1" fun _ => outcome
  runIdNonEmpty := by decide
  goalNonEmpty := by decide

/-- Two runs fail, the second one with a space before the text, and the third one succeeds. -/
def failingRequests : List (OrchestrationRequest Handlers) :=
  [.raised (.ok "boom"), .raised (.ok " boom"), .returned (.str "done")].map requestEnding

theorem requestedPlan_ending (outcome : HandlerOutcome) :
    requestedPlan (requestEnding outcome)
      = .ok ⟨[⟨"task-1", "a goal", [], []⟩], [⟨0, ["task-1"]⟩], ⟨1, false⟩⟩ := by
  rfl

theorem serveAll_failingRequests : ∃ results memory history,
    utcSetting.serveAll failingRequests ⟨fun _ => [], 0⟩ = .ok results memory
      ∧ ServesAll utcSetting failingRequests [] results history ∧ Kept history memory
      ∧ reported history = ["boom", "boom"]
      ∧ ∃ a : SelfImprovementAdaptation,
        a.target = "retry_limit" ∧ utcSetting.adaptationCall a ∈ history.map Prod.snd := by
  have hempty : Kept ([] : List (Midnight × ServiceCall Midnight)) ⟨fun _ => [], 0⟩ :=
    ⟨rfl, nofun, nofun⟩
  obtain ⟨results, memory, history, hserved, hserves, hkept, hreported⟩ :=
    serveAll_serves failingRequests hempty
  have hboom : reported history = ["boom", "boom"] := hreported.trans (by decide)
  refine ⟨results, memory, history, hserved, hserves, hkept, hboom, ?_⟩
  have hfew : history.length ≤ 200 := by
    refine (length_le_of_servesAll hserves (List.forall_mem_map.2 fun outcome _ plan hplan => ?_)).trans
      (by decide : 0 + 3 * (1 + 8) ≤ 200)
    cases (requestedPlan_ending outcome).symm.trans hplan
    exact le_refl 1
  have hrecurs : 2 ≤ (reported history).count "boom" := by
    rw [hboom]
    decide
  cases hserves with
  | cons _ hrest => cases hrest with
    | cons _ hlast => cases hlast with
      | cons hlast hnil =>
          cases hnil
          exact stores_retry_of_serves hlast (requestedPlan_ending _) hfew hrecurs

end Setting

end PersonalDevin.Orchestration
