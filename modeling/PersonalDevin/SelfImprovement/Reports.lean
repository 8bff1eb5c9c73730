import PersonalDevin.SelfImprovement.Loop

/-!
# What the loop learns from the service

A memory that calls of the service have written. No call writes a latency, so the loop never adapts the
timeout; the errors that it counts are those of the failures that were logged.
-/

namespace PersonalDevin.SelfImprovement

open Lib
open Memory
open Memory.MemoryService (allRecords getRecent sliceTo)
open Patterns

variable {T : Type} [Timestamp T]

/-! ### A memory that the service has written -/

structure Stores (call : T × ServiceCall T) (written : StoredRecord T) : Prop where
  type : written.record.type = call.2.type
  data : ∃ data, call.2.data = some data ∧ Value.jsonEntries data = some written.record.data

theorem stores_of_perform {call : T × ServiceCall T} {streams streams' : Streams}
    {record : MemoryRecord T} (h : perform call.1 call.2 streams = some (record, streams')) :
    ∃ written, Stores call written ∧ streams' = streams.push call.2.type written.payload := by
  obtain ⟨data, payload, hdata, rfl, hpayload, rfl⟩ := perform_eq_some h
  obtain ⟨stored, ⟨storedData, hentries, rfl⟩, hread⟩ := fromDict_toDict hpayload
  exact ⟨⟨payload, _, hread⟩, ⟨rfl, data, hdata, hentries⟩, rfl⟩

/-- What the calls have written, in the streams of their types. -/
structure WrittenBy (history : List (T × ServiceCall T)) (streams : Streams)
    (written : MemoryType → List (StoredRecord T)) : Prop where
  stores : ∀ type, List.Forall₂ Stores (history.filter fun call => call.2.type = type) (written type)
  stream : ∀ type, streams type = (written type).map StoredRecord.payload

theorem exists_writtenBy {history : List (T × ServiceCall T)} {streams : Streams}
    (h : performAll history (fun _ => []) = some streams) :
    ∃ written, WrittenBy history streams written := by
  have hwritten : ∀ type, ∃ written : List (StoredRecord T),
      List.Forall₂ Stores (history.filter fun call => call.2.type = type) written
        ∧ streams type = written.map StoredRecord.payload := by
    intro type
    refine written_of_performAll (fun call streams record streams' hperform htype => ?_) h
    exact htype ▸ stores_of_perform hperform
  choose written hwritten using hwritten
  exact ⟨written, fun type => (hwritten type).1, fun type => (hwritten type).2⟩

namespace WrittenBy

variable {history : List (T × ServiceCall T)} {streams : Streams}
  {written : MemoryType → List (StoredRecord T)}

def records (written : MemoryType → List (StoredRecord T)) : List (MemoryRecord T) :=
  MemoryType.all.flatMap fun type => (written type).map StoredRecord.record

theorem allRecords_eq (h : WrittenBy history streams written) (now : T) :
    allRecords now streams = some (records written) := by
  have hlists : MemoryType.all.mapM (getAll now streams)
      = some (MemoryType.all.map fun type => (written type).map StoredRecord.record) := by
    rw [mapM_eq_some_iff, List.forall₂_map_right_iff, List.forall₂_same]
    exact fun type _ => getAll_of_wrote (h.stream type) now
  rw [allRecords, hlists, Option.map_some, records, List.flatMap]

/-- What is read is a part of the records in some order. -/
theorem exists_perm_of_getRecent [Zoned T] (h : WrittenBy history streams written) {now : T}
    {limit : ℤ} {newest : List (MemoryRecord T)} (hrecent : getRecent now streams limit = some newest) :
    ∃ ordered, ordered.Perm (records written) ∧ newest = sliceTo limit ordered := by
  obtain ⟨stored, ordered, hstored, hperm, rfl⟩ := MemoryService.getRecent_eq_some hrecent
  obtain rfl := Option.some.inj (hstored.symm.trans (h.allRecords_eq now))
  exact ⟨ordered, hperm, rfl⟩

theorem exists_call (h : WrittenBy history streams written) {record : MemoryRecord T}
    (hmem : record ∈ records written) :
    ∃ call ∈ history, ∃ stored : StoredRecord T, Stores call stored ∧ stored.record = record := by
  obtain ⟨type, -, hmem⟩ := List.mem_flatMap.1 hmem
  obtain ⟨stored, hstored, rfl⟩ := List.mem_map.1 hmem
  obtain ⟨call, hcall, hstores⟩ := exists_of_mem_right (h.stores type) hstored
  exact ⟨call, List.mem_of_mem_filter hcall, stored, hstores, rfl⟩

theorem length_records (h : WrittenBy history streams written) :
    (records written).length = history.length := by
  have hlengths : (records written).length
      = (MemoryType.all.map fun type => (history.filter fun call => call.2.type = type).length).sum := by
    simp only [records, List.length_flatMap, List.length_map, (h.stores _).length_eq]
  rw [hlengths]
  clear h hlengths
  induction history with
  | nil => rfl
  | cons call rest ih =>
      rw [List.length_cons, ← ih]
      cases htype : call.2.type <;> simp [MemoryType.all, List.filter_cons, htype] <;> omega

/-- The records of a type are those in its stream. -/
theorem filter_records (h : WrittenBy history streams written) (type : MemoryType) :
    (records written).filter (fun record => record.type = type)
      = (written type).map StoredRecord.record := by
  have htypes : ∀ other, ((written other).map StoredRecord.record).filter (fun r => r.type = type)
      = if other = type then (written other).map StoredRecord.record else [] := by
    intro other
    have hall : ∀ record ∈ (written other).map StoredRecord.record, record.type = other := by
      intro record hmem
      obtain ⟨stored, hstored, rfl⟩ := List.mem_map.1 hmem
      obtain ⟨call, hcall, hstores⟩ := exists_of_mem_right (h.stores other) hstored
      exact hstores.type.trans (of_decide_eq_true (List.mem_filter.1 hcall).2)
    split
    · rename_i heq
      exact List.filter_eq_self.2 fun record hmem => decide_eq_true ((hall record hmem).trans heq)
    · rename_i hne
      refine List.filter_eq_nil_iff.2 fun record hmem heq => hne ?_
      exact (hall record hmem).symm.trans (of_decide_eq_true heq)
  simp only [records, MemoryType.all, List.flatMap_cons, List.flatMap_nil, List.filter_append,
    htypes, List.append_nil]
  cases type <;> simp

end WrittenBy

/-! ### What is loaded of it -/

/-- Of the tasks of an execution no more have failed than there are. -/
def Counted : ServiceCall T → Prop
  | .logExecution _ totalTasks _ failedTasks _ _ => 0 ≤ failedTasks ∧ failedTasks ≤ totalTasks
  | .recordExecution args => ∀ totalTasks failedTasks, args.count "total_tasks" = some totalTasks →
      args.count "failed_tasks" = some failedTasks → 0 ≤ failedTasks ∧ failedTasks ≤ totalTasks
  | _ => True

/-- What the loop reads of an execution that a call has recorded. -/
structure Plain (execution : Patterns.ExecutionRecord) : Prop where
  latency : execution.latency = 0
  nonneg : 0 ≤ execution.failedTasks
  le : execution.failedTasks ≤ execution.totalTasks

theorem loadExecution_of_stores (std : Analyzer.Interpreter T) {call : T × ServiceCall T}
    {stored : StoredRecord T} (h : Stores call stored) (htype : call.2.type = .execution)
    (hcounted : Counted call.2) :
    ∃ loaded, Analyzer.loadExecution std stored.record = some loaded
      ∧ Plain loaded.toExecutionRecord := by
  obtain ⟨now, call⟩ := call
  obtain ⟨data, hdata, hentries⟩ := h.data
  have hget := Value.get?_jsonEntries hentries
  have hread : ∀ key (n : ℤ), data.get? key = some (.int n) →
      intField stored.record.data key = some n := by
    intro key n hfield
    rw [intField, hget, hfield]
    rfl
  have hloads : ∀ failedTasks totalTasks : ℤ, data.get? "latency" = none →
      data.get? "failed_tasks" = some (.int failedTasks) →
      data.get? "total_tasks" = some (.int totalTasks) → 0 ≤ failedTasks → failedTasks ≤ totalTasks →
      ∃ loaded, Analyzer.loadExecution std stored.record = some loaded
        ∧ Plain loaded.toExecutionRecord := by
    intro failedTasks totalTasks hlatency hfailed htotal hnonneg hle
    have hzero : Analyzer.latency std stored.record.data = some 0 := by
      rw [Analyzer.latency, hget, hlatency]
      rfl
    rw [Analyzer.loadExecution, hzero, hread _ _ hfailed, hread _ _ htotal]
    exact ⟨_, rfl, rfl, hnonneg, hle⟩
  cases call with
  | logExecution =>
      obtain rfl := Option.some.inj hdata
      exact hloads _ _ rfl rfl rfl hcounted.1 hcounted.2
  | logTask => cases htype
  | logFailure => cases htype
  | logDecision => cases htype
  | recordExecution args =>
      simp only [ServiceCall.data, ExecutionArgs.data, Option.bind_eq_bind, Option.bind_eq_some_iff,
        Option.pure_def, Option.some.injEq] at hdata
      obtain ⟨_, _, totalTasks, htotal, failedTasks, hfailed, _, _, _, _, rfl⟩ := hdata
      have hcounts := hcounted totalTasks failedTasks htotal hfailed
      exact hloads _ _ rfl rfl rfl hcounts.1 hcounts.2

/-- The error of a failure that is logged, without white space around it. -/
def reportedError : ServiceCall T → Option String
  | .logFailure _ error _ => some (strip error)
  | _ => none

def reported (history : List (T × ServiceCall T)) : List String :=
  history.filterMap fun call => reportedError call.2

theorem error_of_stores (std : Analyzer.Interpreter T) {call : T × ServiceCall T}
    {stored : StoredRecord T} (h : Stores call stored) (htype : call.2.type = .failure) :
    reportedError call.2 = some (strip (Analyzer.loadFailure std stored.record).error) := by
  obtain ⟨now, call⟩ := call
  obtain ⟨data, hdata, hentries⟩ := h.data
  have hget := Value.get?_jsonEntries hentries
  cases call with
  | logFailure source error context =>
      obtain rfl := Option.some.inj hdata
      have herror : stored.record.data.get? "error" = some (.str error) := hget "error"
      rw [reportedError, Analyzer.loadFailure, textField, herror]
      rfl
  | logExecution => cases htype
  | logTask => cases htype
  | logDecision => cases htype
  | recordExecution => cases htype

namespace WrittenBy

variable {history : List (T × ServiceCall T)} {streams : Streams}
  {written : MemoryType → List (StoredRecord T)}

theorem reported_eq (h : WrittenBy history streams written) (std : Analyzer.Interpreter T) :
    reported history
      = (written .failure).map fun stored => strip (Analyzer.loadFailure std stored.record).error := by
  have honly : reported history
      = (history.filter fun call => call.2.type = .failure).filterMap
        fun call => reportedError call.2 := by
    rw [reported, List.filterMap_filter]
    refine List.filterMap_congr fun call _ => ?_
    split
    · rfl
    · rename_i hother
      cases hcall : call.2 <;> simp_all [reportedError, ServiceCall.type]
  rw [honly]
  have hstores := h.stores .failure
  have htypes : ∀ call ∈ history.filter fun call => call.2.type = .failure,
      call.2.type = .failure := fun call hmem => of_decide_eq_true (List.mem_filter.1 hmem).2
  generalize (history.filter fun call => call.2.type = .failure) = calls at hstores htypes
  generalize written .failure = stored at hstores
  induction hstores with
  | nil => rfl
  | cons hfirst _ ih =>
      rw [List.filterMap_cons, error_of_stores std hfirst (htypes _ List.mem_cons_self), List.map_cons,
        ih fun call hmem => htypes call (List.mem_cons_of_mem _ hmem)]

end WrittenBy

section Loaded

variable [Zoned T] {history : List (T × ServiceCall T)} {streams : Streams}
  {written : MemoryType → List (StoredRecord T)} (h : WrittenBy history streams written)
  (std : Analyzer.Interpreter T) (now : T)

include h

/-- Nothing that a call has written stops the loading. -/
theorem exists_loadExecutions (hcounted : ∀ call ∈ history, Counted call.2) (limit : ℤ) :
    ∃ executions, Analyzer.loadExecutions std now streams limit = some executions
      ∧ ∀ execution ∈ executions, Plain execution.toExecutionRecord := by
  have hload : ∀ record ∈ ((getRecent now streams limit).getD []).filter (·.type = .execution),
      ∃ loaded, Analyzer.loadExecution std record = some loaded
        ∧ Plain loaded.toExecutionRecord := by
    intro record hmem
    obtain ⟨hmem, htype⟩ := List.mem_filter.1 hmem
    rcases hrecent : getRecent now streams limit with _ | newest
    · rw [hrecent] at hmem
      cases hmem
    · rw [hrecent, Option.getD_some] at hmem
      obtain ⟨ordered, hperm, rfl⟩ := h.exists_perm_of_getRecent hrecent
      obtain ⟨call, hcall, written, hstores, rfl⟩ :=
        h.exists_call (hperm.subset (MemoryService.sliceTo_subset _ _ hmem))
      exact loadExecution_of_stores std hstores (hstores.type.symm.trans (of_decide_eq_true htype))
        (hcounted call hcall)
  obtain ⟨executions, hexecutions⟩ := Option.isSome_iff_exists.1 (mapM_isSome_iff.2 fun record hmem =>
    Option.isSome_iff_exists.2 ((hload record hmem).imp fun _ hloaded => hloaded.1))
  refine ⟨executions, hexecutions, fun execution hmem => ?_⟩
  obtain ⟨record, hrecord, hloaded⟩ := exists_of_mem_right (mapM_eq_some_iff.1 hexecutions) hmem
  obtain ⟨loaded, hloads, hplain⟩ := hload record hrecord
  obtain rfl := Option.some.inj (hloads.symm.trans hloaded)
  exact hplain

/-- Where the memory is read whole, the errors are those that were reported. -/
theorem errorsOf_loadFailures (hread : (getRecent now streams 200).isSome = true)
    (hfew : history.length ≤ 200) :
    (errorsOf ((Analyzer.loadFailures std now streams 200).map (·.toFailureRecord))).Perm
      (reported history) := by
  obtain ⟨newest, hnewest⟩ := Option.isSome_iff_exists.1 hread
  obtain ⟨ordered, hperm, rfl⟩ := h.exists_perm_of_getRecent hnewest
  have hall : sliceTo 200 ordered = ordered := by
    refine List.take_of_length_le ?_
    rw [hperm.length_eq, h.length_records]
    exact hfew
  have hfailures := hperm.filter fun record => record.type = .failure
  rw [h.filter_records] at hfailures
  rw [errorsOf, Analyzer.loadFailures, hnewest, hall, Option.getD_some, List.map_map, List.map_map,
    h.reported_eq std]
  have hmapped := hfailures.map fun record => strip (Analyzer.loadFailure std record).error
  rwa [List.map_map] at hmapped

end Loaded

/-! ### What the loop makes of it -/

section Improved

variable {py : Patterns.Interpreter} {executions : List Patterns.ExecutionRecord}
  {failures : List FailureRecord}

theorem slow_of_plain (h : ∀ execution ∈ executions, Plain execution) : slow executions = [] := by
  refine List.filter_eq_nil_iff.2 fun execution hmem => ?_
  rw [(h execution hmem).latency]
  decide +kernel

theorem exists_successRate {execution : Patterns.ExecutionRecord} (h : Plain execution) :
    ∃ rate, execution.successRate = .ok rate := by
  obtain ⟨failed, hfailed⟩ := Int.eq_ofNat_of_zero_le h.nonneg
  obtain ⟨total, htotal⟩ := Int.eq_ofNat_of_zero_le (h.nonneg.trans h.le)
  rw [Patterns.ExecutionRecord.successRate]
  split
  · exact ⟨_, rfl⟩
  · have hle : failed ≤ total := by
      have := h.le
      omega
    have hleft : execution.totalTasks - execution.failedTasks = ((total - failed : ℕ) : ℤ) := by omega
    rw [hleft, htotal]
    exact ⟨_, congrArg (Except.map _) (Analyzer.quotient_of_le (Nat.sub_le _ _))⟩

theorem exists_detect (py : Patterns.Interpreter) (failures : List FailureRecord)
    (h : ∀ execution ∈ executions, Plain execution) :
    ∃ patterns, detect py executions failures = .ok patterns
      ∧ ∀ pattern ∈ patterns, pattern.kind ≠ .highLatency := by
  obtain ⟨rates, hrates⟩ := exists_mapM_ok fun execution hmem => exists_successRate (h execution hmem)
  obtain ⟨low, hlow⟩ : ∃ low, lowSuccessRate py executions = .ok low := by
    unfold lowSuccessRate
    split
    · exact ⟨_, rfl⟩
    · rw [hrates]
      show ∃ low, (if (Binary64.ofRat (7 / 10)).atMost (average py rates) then _ else _) = Except.ok low
      split <;> exact ⟨_, rfl⟩
  obtain ⟨patterns, hdetect⟩ : ∃ patterns, detect py executions failures = .ok patterns :=
    ⟨_, except_bind_eq_ok_iff.2 ⟨low, hlow, rfl⟩⟩
  refine ⟨patterns, hdetect, fun pattern hmem hkind => ?_⟩
  obtain ⟨hslow, -⟩ := (exists_pattern_iff hdetect .highLatency pattern.confidence).1
    ⟨pattern, hmem, hkind, rfl⟩
  exact hslow (slow_of_plain h)

theorem exists_adapt {pattern : Pattern} (h : pattern.kind ≠ .highLatency) :
    ∃ adaptations, adapt py pattern = .ok adaptations := by
  rw [adapt]
  cases hkind : pattern.kind with
  | repeatedFailure => exact ⟨_, rfl⟩
  | highLatency => exact absurd hkind h
  | lowSuccessRate => exact ⟨_, rfl⟩

/-- On executions without latencies the loop does not raise, and it does not adapt the timeout. -/
theorem exists_improve (loop : SelfImprovementLoop) (py : Patterns.Interpreter)
    (failures : List FailureRecord) (h : ∀ execution ∈ executions, Plain execution) :
    ∃ result, loop.improve py executions failures = .ok result
      ∧ ∀ a ∈ result.adaptationsGenerated, a.target ≠ Rule.timeout.target := by
  obtain ⟨patterns, hdetect, hkinds⟩ := exists_detect py failures h
  obtain ⟨lists, hlists⟩ := exists_mapM_ok (f := adapt py) fun pattern hmem =>
    exists_adapt (hkinds pattern hmem)
  obtain ⟨adaptations, hgenerate⟩ : ∃ adaptations, generate py patterns = .ok adaptations :=
    ⟨_, except_bind_eq_ok_iff.2 ⟨lists, hlists, rfl⟩⟩
  refine ⟨_, except_bind_eq_ok_iff.2 ⟨patterns, hdetect,
    except_bind_eq_ok_iff.2 ⟨adaptations, hgenerate, rfl⟩⟩, ?_⟩
  intro a ha htarget
  obtain ⟨rule, pattern, hmem, hrule⟩ := (adapts_of_generate hgenerate).sound a ha
  obtain rfl : rule = .timeout :=
    Rule.target_injective ((congrArg Prod.snd hrule.key_eq).symm.trans htarget)
  exact hkinds pattern hmem hrule.kind

end Improved

namespace SelfImprovementLoop

variable [Zoned T] {history : List (T × ServiceCall T)} {streams : Streams}
  (py : Patterns.Interpreter) (std : Analyzer.Interpreter T) (now now' : T)

/-- What a run makes of the records that the calls have written. -/
theorem exists_run (hrun : performAll history (fun _ => []) = some streams)
    (hcounted : ∀ call ∈ history, Counted call.2) :
    ∃ executions result, default.run py std now now' streams = some result
      ∧ default.improve py executions
        ((Analyzer.loadFailures std now' streams 200).map (·.toFailureRecord)) = .ok result
      ∧ ∀ a ∈ result.adaptationsGenerated, a.target ≠ Rule.timeout.target := by
  obtain ⟨written, hwritten⟩ := exists_writtenBy hrun
  obtain ⟨executions, hexecutions, hplain⟩ := exists_loadExecutions hwritten std now hcounted 200
  obtain ⟨result, himprove, htimeout⟩ := exists_improve default py
    ((Analyzer.loadFailures std now' streams 200).map (·.toFailureRecord))
    (List.forall_mem_map.2 hplain)
  refine ⟨_, result, ?_, himprove, htimeout⟩
  show (Analyzer.loadExecutions std now streams 200).bind _ = _
  rw [hexecutions]
  exact congrArg Except.toOption himprove

/-- **What the loop learns from the service.** -/
theorem run_of_performAll (hrun : performAll history (fun _ => []) = some streams)
    (hcounted : ∀ call ∈ history, Counted call.2) :
    ∃ result, default.run py std now now' streams = some result
      ∧ (∀ a ∈ result.adaptationsGenerated, a.target ≠ "timeout")
      ∧ ((getRecent now' streams 200).isSome = true → history.length ≤ 200 →
        ((∃ a ∈ result.adaptationsApproved, a.target = "retry_limit")
            ↔ ∃ error, 2 ≤ (reported history).count error)
          ∧ ((∃ a ∈ result.adaptationsApproved, a.target = "policy_gate")
            ↔ ∃ error, 3 ≤ (reported history).count error)) := by
  obtain ⟨executions, result, hresult, himprove, htimeout⟩ :=
    exists_run py std now now' hrun hcounted
  refine ⟨result, hresult, htimeout, fun hread hfew => ?_⟩
  obtain ⟨written, hwritten⟩ := exists_writtenBy hrun
  have hperm := errorsOf_loadFailures hwritten std now' hread hfew
  have happroves := (approves_of_improve himprove).evidence
  have hretry := happroves .retry
  have hguard := happroves .guard
  simp only [Evidence, hperm.count_eq] at hretry hguard
  exact ⟨hretry, hguard⟩

/-! ### A failure that is logged three times -/

theorem counted_threeTimeouts : ∀ call ∈ threeTimeouts, Counted call.2 := by
  intro call hmem
  simp only [threeTimeouts, List.mem_cons, List.not_mem_nil, or_false] at hmem
  rcases hmem with rfl | rfl | rfl | rfl
  · trivial
  · exact ⟨le_rfl, Int.zero_le_ofNat 2⟩
  · trivial
  · trivial

theorem run_of_threeTimeouts : ∃ streams result,
    performAll threeTimeouts (fun _ => []) = some streams
      ∧ default.run asciiInterpreter Analyzer.utcInterpreter .utc .utc streams = some result
      ∧ (∀ a ∈ result.adaptationsGenerated, a.target ≠ "timeout")
      ∧ (∃ a ∈ result.adaptationsApproved, a.target = "retry_limit")
      ∧ ∃ a ∈ result.adaptationsApproved, a.target = "policy_gate" := by
  obtain ⟨streams, hrun, hread⟩ := Option.map_eq_some_iff.1 threeTimeouts_read
  obtain ⟨hread, -⟩ := Prod.mk.inj hread
  obtain ⟨result, hresult, htimeout, hlearned⟩ := run_of_performAll asciiInterpreter
    Analyzer.utcInterpreter .utc .utc hrun counted_threeTimeouts
  obtain ⟨hretry, hguard⟩ := hlearned hread (by decide)
  have hthree : 3 ≤ (reported threeTimeouts).count "timeout" := by decide
  exact ⟨streams, result, hrun, hresult, htimeout, hretry.2 ⟨_, (Nat.le_succ 2).trans hthree⟩,
    hguard.2 ⟨_, hthree⟩⟩

end SelfImprovementLoop

end PersonalDevin.SelfImprovement
