import PersonalDevin.AgentLoop.Loop
import PersonalDevin.Execution.Skips
import PersonalDevin.Memory.Identity
import PersonalDevin.Memory.Newest
import PersonalDevin.SelfImprovement.Patterns

/-!
# The success rate of an execution

`Analyzer.load_executions` reads the records of the memory service, and `ExecutionRecord.success_rate`
divides by the number of tasks what is left of them without the failed ones. `AgentLoop._reflect`
divides the completed ones.
-/

namespace PersonalDevin.SelfImprovement.Analyzer

open Lib
open Memory
open Execution (Consistent EachReady ExecutionReport TaskHandler roundsFrom runAnswering)
open Memory.MemoryService (allRecords getRecent)
open Planning (ExecutionPlan)

variable {T : Type} [Timestamp T]

/-! ### Loading -/

/-- What the standard library makes of a value and of a time. -/
structure Interpreter (T : Type) where
  /-- `float(x)`, or nothing where it raises. -/
  float : Value → Option Binary64
  /-- The time, in UTC if it has no time zone. -/
  inUtc : T → T

structure LoadedExecution (T : Type) extends Patterns.ExecutionRecord where
  recordId : String
  status : String
  errors : List String
  timestamp : T

def errors (data : Fields) : List String :=
  match data.get? "errors" with
  | none => []
  | some (.list items) => items.filterMap fun item =>
      match item with
      | .none => none
      | item => some item.pyStr
  | some _ =>
      match data.get? "error" with
      | some value => if value.truthy then [value.pyStr] else []
      | none => []

/-- `float(data.get("latency", 0.0))`, or nothing where it raises. -/
def latency (py : Interpreter T) (data : Fields) : Option Binary64 :=
  match data.get? "latency" with
  | none => some 0
  | some value => py.float value

/-- The record for an entry of the memory, or nothing where the conversion raises. -/
def loadExecution (py : Interpreter T) (memory : MemoryRecord T) : Option (LoadedExecution T) := do
  let latency ← latency py memory.data
  let failedTasks ← intField memory.data "failed_tasks"
  let totalTasks ← intField memory.data "total_tasks"
  return {
    recordId := memory.id
    status := textField memory.data "status" "unknown"
    latency, failedTasks, totalTasks
    errors := errors memory.data
    timestamp := py.inUtc memory.timestamp }

/-- `load_executions`, or nothing where it raises: where `get_recent` raises it finds no entries. -/
def loadExecutions [Zoned T] (py : Interpreter T) (now : T) (streams : Streams) (limit : ℤ) :
    Option (List (LoadedExecution T)) :=
  (((getRecent now streams limit).getD []).filter fun memory => memory.type = .execution).mapM
    (loadExecution py)

omit [Timestamp T] in
theorem counts_of_loadExecution {py : Interpreter T} {memory : MemoryRecord T}
    {loaded : LoadedExecution T} (h : loadExecution py memory = some loaded) :
    loaded.recordId = memory.id ∧ intField memory.data "failed_tasks" = some loaded.failedTasks
      ∧ intField memory.data "total_tasks" = some loaded.totalTasks := by
  simp only [loadExecution, Option.bind_eq_bind, Option.bind_eq_some_iff, Option.pure_def,
    Option.some.injEq] at h
  obtain ⟨_, _, failedTasks, hfailed, totalTasks, htotal, rfl⟩ := h
  exact ⟨rfl, hfailed, htotal⟩

theorem exists_of_mem_loadExecutions [Zoned T] {py : Interpreter T} {now : T} {streams : Streams}
    {limit : ℤ} {records : List (LoadedExecution T)}
    (h : loadExecutions py now streams limit = some records) {loaded : LoadedExecution T}
    (hmem : loaded ∈ records) :
    ∃ stored memory, allRecords now streams = some stored ∧ memory ∈ stored
      ∧ loadExecution py memory = some loaded := by
  obtain ⟨memory, hmemory, hload⟩ := exists_of_mem_right (mapM_eq_some_iff.1 h) hmem
  have hrecent := List.mem_of_mem_filter hmemory
  rcases hget : getRecent now streams limit with _ | newest
  · rw [hget] at hrecent
    cases hrecent
  · rw [hget, Option.getD_some] at hrecent
    simp only [getRecent, Option.bind_eq_bind, Option.bind_eq_some_iff, Option.pure_def,
      Option.some.injEq] at hget
    obtain ⟨stored, hstored, ordered, hordered, rfl⟩ := hget
    refine ⟨stored, memory, hstored, (sortReversed_perm hordered).subset ?_, hload⟩
    unfold MemoryService.sliceTo at hrecent
    split at hrecent
    · exact List.mem_of_mem_take hrecent
    · exact List.mem_of_mem_take hrecent

/-! ### The record of a call -/

/-- Each payload has the id of its place. -/
def Numbered (streams : Streams) : Prop :=
  ∀ type n payload, (streams type)[n]? = some payload →
    payload.fields.get? "id" = numberOf type n

theorem numbered_empty : Numbered fun _ => [] := nofun

theorem Numbered.perform {streams streams' : Streams} (h : Numbered streams) {now : T}
    {call : ServiceCall T} {record : MemoryRecord T}
    (hperform : perform now call streams = some (record, streams')) : Numbered streams' := by
  obtain ⟨data, payload, _, rfl, hpayload, rfl⟩ := perform_eq_some hperform
  intro type n other hother
  by_cases htype : type = call.type
  · subst htype
    rw [Streams.push, Function.update_self, List.getElem?_append] at hother
    split at hother
    · exact h _ n other hother
    · rename_i hlength
      obtain ⟨hn, rfl⟩ : n = (streams call.type).length ∧ payload = other := by
        rw [List.getElem?_singleton] at hother
        split at hother
        · exact ⟨by omega, Option.some.inj hother⟩
        · cases hother
      rw [get?_id_of_toDict hpayload, hn]
      rfl
  · rw [Streams.push, Function.update_of_ne htype] at hother
    exact h type n other hother

theorem Numbered.performAll {streams streams' : Streams} (h : Numbered streams)
    {history : List (T × ServiceCall T)} (hrun : performAll history streams = some streams') :
    Numbered streams' := by
  induction history generalizing streams with
  | nil => exact Option.some.inj hrun ▸ h
  | cons call rest ih =>
      obtain ⟨record, middle, hperform, hrest⟩ := performAll_cons_eq_some hrun
      exact ih (h.perform hperform) hrest

theorem prefix_of_performAll {history : List (T × ServiceCall T)} {streams streams' : Streams}
    (h : performAll history streams = some streams') (type : MemoryType) :
    streams type <+: streams' type := by
  obtain ⟨written, -, hmore⟩ := @written_of_performAll _ _ (fun _ _ => True) type
    (fun call streams record streams' hperform htype => by
      obtain ⟨_, payload, _, rfl, hpayload, rfl⟩ := perform_eq_some hperform
      obtain ⟨_, _, hread⟩ := fromDict_toDict hpayload
      exact ⟨⟨payload, _, hread⟩, trivial, htype ▸ rfl⟩) _ _ _ h
  exact ⟨_, hmore.symm⟩

/-- A call of the service has returned the record, and later calls have left the streams. -/
structure Returned (call : ServiceCall T) (record : MemoryRecord T) (streams : Streams) : Prop where
  run : ∃ (before after : List (T × ServiceCall T)) (now : T) (middle middle' : Streams),
    performAll before (fun _ => []) = some middle
      ∧ perform now call middle = some (record, middle') ∧ performAll after middle' = some streams

/-- **What is read under the id of a record that a call returned is that record.** -/
theorem Returned.storedAs {call : ServiceCall T} {record : MemoryRecord T} {streams : Streams}
    (h : Returned call record streams) {now : T} {stored : List (MemoryRecord T)}
    (hstored : allRecords now streams = some stored) {memory : MemoryRecord T}
    (hmem : memory ∈ stored) (hid : memory.id = record.id) :
    call.data = some record.data ∧ StoredAs record memory := by
  obtain ⟨before, after, time, middle, middle', hbefore, hperform, hafter⟩ := h.run
  have hnumbered := ((numbered_empty.performAll hbefore).perform hperform).performAll hafter
  obtain ⟨data, payload, hdata, rfl, hpayload, rfl⟩ := perform_eq_some hperform
  obtain ⟨lists, hlists, rfl⟩ := Option.map_eq_some_iff.1 hstored
  obtain ⟨list, hlist, hmemory⟩ := List.mem_flatten.1 hmem
  obtain ⟨type, _, hall⟩ := exists_of_mem_right (mapM_eq_some_iff.1 hlists) hlist
  obtain ⟨n, hn⟩ := List.mem_iff_getElem?.1 hmemory
  obtain ⟨other, hother, hread⟩ : ∃ other, (streams type)[n]? = some other
      ∧ fromDict now other.fields = some memory := by
    have hpaired := mapM_eq_some_iff.1 hall
    obtain ⟨hlt, hvalue⟩ := List.getElem?_eq_some_iff.1 hn
    have hlt' : n < (streams type).length := hpaired.length_eq ▸ hlt
    refine ⟨_, List.getElem?_eq_getElem hlt', ?_⟩
    have hget := hpaired.get hlt' hlt
    rwa [List.get_eq_getElem, List.get_eq_getElem, hvalue] at hget
  -- The id tells the stream and the place in it.
  obtain ⟨rfl, rfl⟩ : call.type = type ∧ (middle call.type).length = n := by
    have hnumber := (get?_id_of_fromDict hread).symm.trans (hnumbered type n other hother)
    exact nextId_injective (hid.symm.trans (idEntry_injective hnumber))
  obtain ⟨more, hmore⟩ := prefix_of_performAll hafter call.type
  rw [← hmore, Streams.push, Function.update_self, List.append_assoc,
    List.getElem?_append_right le_rfl, Nat.sub_self] at hother
  obtain rfl := Option.some.inj hother
  obtain ⟨memory', hstoredAs, hreads⟩ := fromDict_toDict hpayload
  obtain rfl := Option.some.inj ((hreads now).symm.trans hread)
  exact ⟨hdata, hstoredAs⟩

/-! ### The two rates -/

/-- The call of `log_execution` for a report. -/
def reportCall (status : String) (report : ExecutionReport) (metadata : Option Fields) :
    ServiceCall T :=
  .logExecution status report.totalTasks report.completedTasks report.failedTasks report.skippedTasks
    metadata

/-- The analyzer has loaded the record for a report that was logged. -/
structure LoadedFor [Zoned T] (py : Interpreter T) (report : ExecutionReport)
    (loaded : LoadedExecution T) : Prop where
  logged : ∃ (status : String) (metadata : Option Fields) (record : MemoryRecord T)
      (streams : Streams) (now : T) (limit : ℤ) (records : List (LoadedExecution T)),
    Returned (reportCall status report metadata) record streams
      ∧ loadExecutions py now streams limit = some records ∧ loaded ∈ records
      ∧ loaded.recordId = record.id

/-- The success rate of `_reflect`. -/
def reflectedRate (report : ExecutionReport) : Except Patterns.Fault Binary64 :=
  if 0 < report.totalTasks then Patterns.quotient report.completedTasks report.totalTasks else .ok 1

omit [Timestamp T] in
/-- The record has the rate of the reflection, rounded to four decimals, and what counts as successful
for either is the number of completed tasks. -/
structure SameRate (report : ExecutionReport) (loaded : Patterns.ExecutionRecord) : Prop where
  rate : loaded.successRate = Binary64.round 4 <$> reflectedRate report
  recorded : loaded.totalTasks - loaded.failedTasks = report.tasks.countP (·.status = .completed)
  reflected : report.completedTasks = report.tasks.countP (·.status = .completed)

/-- What the analyzer has read of the report. -/
theorem LoadedFor.counts [Zoned T] {py : Interpreter T} {report : ExecutionReport}
    {loaded : LoadedExecution T} (h : LoadedFor py report loaded) :
    loaded.failedTasks = report.failedTasks ∧ loaded.totalTasks = report.totalTasks := by
  obtain ⟨status, metadata, record, streams, now, limit, records, hreturned, hrecords, hmem, hid⟩ :=
    h.logged
  obtain ⟨stored, memory, hstored, hmemory, hload⟩ := exists_of_mem_loadExecutions hrecords hmem
  obtain ⟨hrecordId, hfailed, htotal⟩ := counts_of_loadExecution hload
  obtain ⟨hdata, data, hentries, rfl⟩ :=
    hreturned.storedAs hstored hmemory (Subtype.ext (hrecordId.symm.trans hid))
  obtain hfields := Option.some.inj hdata
  have hfield : ∀ key, Fields.get? data key = (record.data.get? key).bind Value.jsonRoundTrip :=
    fun key => Value.get?_jsonEntries hentries key
  have hread : ∀ key (n : ℤ), record.data.get? key = some (.int n) → intField data key = some n := by
    intro key n hget
    rw [intField, hfield, hget]
    rfl
  constructor
  · exact Option.some.inj (hfailed.symm.trans (hread "failed_tasks" _ (hfields ▸ rfl)))
  · exact Option.some.inj (htotal.symm.trans (hread "total_tasks" _ (hfields ▸ rfl)))

theorem round_one : Binary64.round 4 1 = 1 := by decide +kernel

section Rates

variable {plan : ExecutionPlan} {report : ExecutionReport} {loaded : Patterns.ExecutionRecord}

theorem sameRate_of_skipped_eq_zero (h : Consistent plan report)
    (hfailed : loaded.failedTasks = report.failedTasks)
    (htotal : loaded.totalTasks = report.totalTasks) (hskipped : report.skippedTasks = 0) :
    SameRate report loaded := by
  have hsum := h.sum
  have hcompleted : loaded.totalTasks - loaded.failedTasks = report.completedTasks := by omega
  refine ⟨?_, hcompleted.trans (by rw [h.completed]), h.completed⟩
  rw [Patterns.ExecutionRecord.successRate, reflectedRate, hcompleted, htotal]
  by_cases hpos : 0 < report.totalTasks
  · rw [if_neg (by omega), if_pos hpos]
  · rw [if_pos (by omega), if_neg hpos]
    exact congrArg Except.ok round_one.symm

/-- The quotient of two numbers of which the first is no greater. -/
theorem quotient_of_le {a b : ℕ} (h : a ≤ b) :
    Patterns.quotient a b = .ok (Binary64.ratio a b) := by
  obtain ⟨value, hvalue, hratio⟩ := Binary64.isFinite_ratio h
  rw [Binary64.ratio] at hratio
  unfold Patterns.quotient Binary64.ratio
  push_cast
  rw [hratio]

/-- Below 10000 tasks the rates alone tell whether a task was skipped. -/
theorem successRate_eq_iff (h : Consistent plan report)
    (hfailed : loaded.failedTasks = report.failedTasks)
    (htotal : loaded.totalTasks = report.totalTasks) (hfew : report.totalTasks < 10000) :
    loaded.successRate = Binary64.round 4 <$> reflectedRate report ↔ report.skippedTasks = 0 := by
  refine ⟨fun hrate => ?_, fun hskipped =>
    (sameRate_of_skipped_eq_zero h hfailed htotal hskipped).rate⟩
  by_contra hskipped
  have hsum := h.sum
  have hpos : 0 < report.totalTasks := by omega
  have hleft : loaded.totalTasks - loaded.failedTasks
      = ((report.completedTasks + report.skippedTasks : ℕ) : ℤ) := by omega
  rw [Patterns.ExecutionRecord.successRate, reflectedRate, if_neg (by omega), if_pos hpos, hleft,
    htotal, quotient_of_le (by omega), quotient_of_le (by omega)] at hrate
  have hn : (0 : ℚ) < report.totalTasks := by exact_mod_cast hpos
  have hunit : ∀ a : ℕ, a ≤ report.totalTasks → |(a : ℚ) / report.totalTasks| ≤ 1 := by
    intro a ha
    rw [abs_of_nonneg (by positivity)]
    exact div_le_one_of_le₀ (by exact_mod_cast ha) hn.le
  refine Binary64.round_ofRat_ne (by norm_num) (hunit _ (by omega)) (hunit _ (by omega)) ?_
    (Except.ok.inj hrate).symm
  have hone : (1 : ℚ) ≤ report.skippedTasks := by exact_mod_cast Nat.pos_of_ne_zero hskipped
  have hfew' : (report.totalTasks : ℚ) ≤ 9999 := by exact_mod_cast Nat.le_of_lt_succ hfew
  have hgap : (1 : ℚ) / 10 ^ 4 + 1 / 2 ^ 51 < 1 / 9999 := by norm_num
  have hshare : (1 : ℚ) / 9999 ≤ report.skippedTasks / report.totalTasks :=
    div_le_div₀ (by positivity) hone hn hfew'
  push_cast
  rw [add_div]
  linarith

end Rates

/-- **The record of a run that was logged has the rate of the reflection exactly if the run skips no
task.** Below 10000 tasks this also decides the rates alone. -/
theorem sameRate_iff [Zoned T] {py : Interpreter T} {stopOnFailure : Bool}
    {handlers : ℕ → Dict String TaskHandler} {plan : ExecutionPlan} {loaded : LoadedExecution T}
    (h : LoadedFor py (runAnswering stopOnFailure handlers plan).report loaded) :
    (SameRate (runAnswering stopOnFailure handlers plan).report loaded.toExecutionRecord
        ↔ EachReady stopOnFailure [] (roundsFrom handlers 0 plan.orderedTasks))
      ∧ (plan.orderedTasks.length < 10000 →
        (loaded.successRate
            = Binary64.round 4 <$> reflectedRate (runAnswering stopOnFailure handlers plan).report
          ↔ EachReady stopOnFailure [] (roundsFrom handlers 0 plan.orderedTasks))) := by
  have hconsistent := Execution.runAnswering_consistent stopOnFailure handlers plan
  obtain ⟨hfailed, htotal⟩ := h.counts
  rw [← Execution.runAnswering_skipped_iff]
  refine ⟨⟨fun hsame => ?_, sameRate_of_skipped_eq_zero hconsistent hfailed htotal⟩, fun hfew => ?_⟩
  · have hsum := hconsistent.sum
    have hrecorded := hsame.recorded
    have hreflected := hsame.reflected
    omega
  · exact successRate_eq_iff hconsistent hfailed htotal (hconsistent.total ▸ hfew)

/-! ### A run that halts -/

open Memory.MemoryService (Midnight)

def twoTasks : ExecutionPlan :=
  ⟨[⟨"a", "step", [], []⟩, ⟨"b", "step", [], []⟩], [⟨0, ["a", "b"]⟩], ⟨2, false⟩⟩

def firstFails : ℕ → Dict String TaskHandler :=
  fun _ => ⟨[("a", fun _ => .raised (.ok "boom"))], by decide⟩

/-- The first task fails, and the second is skipped. -/
def haltedReport : ExecutionReport := (runAnswering true firstFails twoTasks).report

def utcInterpreter : Interpreter Midnight where
  float _ := none
  inUtc _ := .utc

theorem haltedReport_read :
    (perform Midnight.utc (reportCall "failure" haltedReport none) fun _ => []).bind
      (fun logged => (loadExecutions utcInterpreter .utc logged.2 200).map fun records =>
        records.map fun loaded =>
          (decide (loaded.recordId = logged.1.id.val), loaded.failedTasks, loaded.totalTasks))
      = some [(true, 1, 2)] := by
  decide +kernel

theorem exists_loadedFor_haltedReport : ∃ loaded, LoadedFor utcInterpreter haltedReport loaded
    ∧ loaded.failedTasks = 1 ∧ loaded.totalTasks = 2 := by
  obtain ⟨⟨record, streams⟩, hperform, hread⟩ := Option.bind_eq_some_iff.1 haltedReport_read
  obtain ⟨records, hrecords, hmap⟩ := Option.map_eq_some_iff.1 hread
  obtain ⟨loaded, rfl, hloaded⟩ := List.map_eq_singleton_iff.1 hmap
  simp only [Prod.mk.injEq, decide_eq_true_eq] at hloaded
  obtain ⟨hid, hfailed, htotal⟩ := hloaded
  refine ⟨loaded, ⟨"failure", none, record, streams, .utc, 200, [loaded], ?_, hrecords,
    List.mem_cons_self, hid⟩, hfailed, htotal⟩
  exact ⟨[], [], .utc, _, _, rfl, hperform, rfl⟩

theorem haltedReport_sameRate_iff : ∃ loaded, LoadedFor utcInterpreter haltedReport loaded
    ∧ (SameRate haltedReport loaded.toExecutionRecord
        ↔ EachReady true [] (roundsFrom firstFails 0 twoTasks.orderedTasks))
    ∧ (twoTasks.orderedTasks.length < 10000 →
        (loaded.successRate = Binary64.round 4 <$> reflectedRate haltedReport
          ↔ EachReady true [] (roundsFrom firstFails 0 twoTasks.orderedTasks))) := by
  obtain ⟨loaded, hloaded, _⟩ := exists_loadedFor_haltedReport
  exact ⟨loaded, hloaded, sameRate_iff hloaded⟩

/-- No task is completed, and the record has a rate of a half. -/
theorem haltedReport_rates_differ : ∃ loaded, LoadedFor utcInterpreter haltedReport loaded
    ∧ loaded.successRate = .ok (Binary64.ofRat (1 / 2)) ∧ reflectedRate haltedReport = .ok 0
    ∧ loaded.successRate ≠ Binary64.round 4 <$> reflectedRate haltedReport := by
  have hrecorded : (⟨0, 1, 2⟩ : Patterns.ExecutionRecord).successRate
      = .ok (Binary64.ofRat (1 / 2)) := by decide +kernel
  have hreflected : reflectedRate haltedReport = .ok 0 := by decide +kernel
  have hdiffer : (.ok (Binary64.ofRat (1 / 2)) : Except Patterns.Fault Binary64)
      ≠ Binary64.round 4 <$> .ok 0 := by decide +kernel
  obtain ⟨loaded, hloaded, hfailed, htotal⟩ := exists_loadedFor_haltedReport
  have hrate : loaded.successRate = .ok (Binary64.ofRat (1 / 2)) := by
    rw [← hrecorded, Patterns.ExecutionRecord.successRate, Patterns.ExecutionRecord.successRate,
      hfailed, htotal]
  refine ⟨loaded, hloaded, hrate, hreflected, ?_⟩
  rw [hrate, hreflected]
  exact hdiffer

end PersonalDevin.SelfImprovement.Analyzer
