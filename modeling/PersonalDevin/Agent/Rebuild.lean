import PersonalDevin.Agent.Bookings
import PersonalDevin.Agent.Saves
import PersonalDevin.Memory.Contract

/-!
# Statistics rebuilt from memory

`_build_strategy_stats_from_context` replays the records of the store in the order of their timestamps,
`_update_strategy_stats` books an attempt when it is made. Both book every record once.
-/

namespace PersonalDevin.Agent

open Lib
open Memory (StoredPayload Streams Timestamp)

variable {F : Type}

/-! ### A record in the file -/

/-- The result of the record can be written as JSON. -/
def LoopRecord.Writable (record : LoopRecord) : Prop := (Value.dict record.result).jsonRoundTrip.isSome

instance (record : LoopRecord) : Decidable record.Writable :=
  inferInstanceAs (Decidable (_ = true))

variable {decimal : F → ℤ × ℤ} {goal : String} {record : LoopRecord}

theorem isSome_snapshot (decimal : F → ℤ × ℤ) (strategies : Strategies F) :
    (Value.list ((strategies.snapshot decimal).map .dict)).jsonRoundTrip.isSome := by
  rw [Value.jsonRoundTrip, Option.isSome_map, Value.isSome_jsonItems]
  intro item hitem
  obtain ⟨row, hrow, rfl⟩ := List.mem_map.1 hitem
  obtain ⟨byPattern, _, hrow⟩ := List.mem_flatMap.1 hrow
  obtain ⟨byDecision, _, rfl⟩ := List.mem_map.1 hrow
  rfl

theorem isSome_optionalStep (step : Option Step) : (optionalStep step).jsonRoundTrip.isSome := by
  cases step with
  | none => rfl
  | some step => exact Option.isSome_of_eq_some (Value.jsonRoundTrip_safePayload (.dict step.toFields))

/-- **A record can be saved exactly if its result can**: everything else is copied. -/
theorem isSome_storedRecord (strategies : Strategies F) :
    (storedRecord decimal record strategies).isSome ↔ record.Writable := by
  have hplan := Option.isSome_of_eq_some (Value.jsonRoundTrip_safePayload (.dict record.plan.toFields))
  have hstep :=
    Option.isSome_of_eq_some (Value.jsonRoundTrip_safePayload (.dict record.currentStep.toFields))
  rw [storedRecord, StoredPayload.isSome_ofFields, LoopRecord.Writable]
  simp only [LoopRecord.toFields, List.forall_mem_cons]
  constructor
  · rintro ⟨-, -, -, -, -, hresult, -⟩
    exact hresult
  · intro hresult
    exact ⟨rfl, rfl, rfl, hplan, hstep, hresult, rfl, rfl, rfl, rfl, rfl, isSome_snapshot _ _, rfl,
      isSome_optionalStep _, isSome_optionalStep _, fun _ hmem => absurd hmem List.not_mem_nil⟩

/-- What the file holds of an entry of a record. -/
theorem get?_storedRecord {strategies : Strategies F} {payload : StoredPayload}
    (h : storedRecord decimal record strategies = some payload) (key : String) :
    payload.fields.get? key = ((record.toFields (strategies.snapshot decimal)).get? key).bind
      Value.jsonRoundTrip :=
  Value.get?_jsonEntries (StoredPayload.ofFields_eq_some_iff.1 h) key

variable [ScoreArith F]

/-- Reading the value books what saving the record has booked. -/
def LearnsAs (F : Type) [ScoreArith F] (value : Value) (record : LoopRecord) : Prop :=
  ∀ strategies : Strategies F, learnRecord strategies value = strategies.learn record

theorem ofText_text (decision : Decision) : Decision.ofText decision.text = some decision := by
  cases decision <;> decide

theorem learnsAs_of_stored {strategies : Strategies F} {payload : StoredPayload}
    (hrecorded : Recorded goal record) (h : storedRecord decimal record strategies = some payload) :
    LearnsAs F (.dict payload.fields) record := by
  have hclassification : payload.fields.get? "classification"
      = some (.dict record.classification.toFields) := get?_storedRecord h _
  have hdecision : payload.fields.get? "decision" = some (.str record.decision.text) :=
    get?_storedRecord h _
  have hsuccess : payload.fields.get? "success" = some (.bool record.success) := get?_storedRecord h _
  have hpattern : (Fields.get? record.classification.toFields "error_type").getD (.str "none")
      = .str record.strategyPattern := hrecorded.pattern_eq ▸ rfl
  intro strategies
  simp only [learnRecord, hclassification, hdecision, hsuccess, hpattern, Option.getD_some,
    Value.pyStr, ofText_text]
  rfl

theorem booked_foldl_learnRecord {values : List Value} {records : List LoopRecord}
    (h : List.Forall₂ (LearnsAs F) values records)
    (hrecorded : ∀ record ∈ records, Recorded goal record) :
    Booked (values.foldl learnRecord (.empty : Strategies F)) records := by
  have hfold : ∀ {values records}, List.Forall₂ (LearnsAs F) values records →
      (∀ record ∈ records, Recorded goal record) → ∀ {strategies : Strategies F} {past},
        Booked strategies past → Booked (values.foldl learnRecord strategies) (past ++ records) := by
    intro values records h
    induction h with
    | nil => exact fun _ _ _ hbooked => by rwa [List.append_nil]
    | cons hfirst _ ih =>
        intro hrecorded strategies past hbooked
        obtain ⟨hhead, htail⟩ := List.forall_mem_cons.1 hrecorded
        rw [List.foldl_cons, hfirst, List.append_cons]
        exact ih htail (hbooked.learn hhead.success_eq)
  exact hfold h hrecorded booked_empty

/-! ### The rebuild -/

section Rebuild

variable (T : Type) [Timestamp T] [LE T] [DecidableLE T] {streams : Streams}

/-- The payload is what the file holds of the record. -/
structure HeldAs (decimal : F → ℤ × ℤ) (goal : String) (payload : StoredPayload)
    (record : LoopRecord) : Prop where
  recorded : Recorded goal record
  stored : ∃ strategies, storedRecord decimal record strategies = some payload

/-- What the rebuild reads of a held record. -/
structure ReadAs (F : Type) [ScoreArith F] (goal : String) (fields : Fields) (record : LoopRecord) :
    Prop where
  recorded : Recorded goal record
  goal_eq : textField fields "goal" "" = goal
  learns : LearnsAs F (.dict fields) record

theorem HeldAs.readAs {payload : StoredPayload} (h : HeldAs decimal goal payload record) :
    ReadAs F goal payload.fields record := by
  obtain ⟨strategies, hstored⟩ := h.stored
  refine ⟨h.recorded, ?_, learnsAs_of_stored h.recorded hstored⟩
  have hgoal : payload.fields.get? "goal" = some (.str record.goal) := get?_storedRecord hstored _
  rw [textField, hgoal]
  exact h.recorded.goal_eq

omit [ScoreArith F] in
theorem getRecent_perm (streams : Streams) :
    (Memory.newestFirst (Memory.MemoryStore.executionSortKey (T := T))
      ((streams .execution).map StoredPayload.fields)).Perm
        ((streams .execution).map StoredPayload.fields) :=
  List.perm_insertionSort _ _

/-- A copy of what was retrieved has the same statistics. -/
theorem buildStrategyStats_safeEntries (streams : Streams) (goal : String) :
    (buildStrategyStats (Value.safeEntries (FileMemoryStore.retrieve T streams goal)) : Strategies F)
      = buildStrategyStats (FileMemoryStore.retrieve T streams goal) := by
  obtain ⟨matching, hmatching⟩ : ∃ matching, matching
      = (Memory.MemoryStore.getRecent T streams 50).filter fun item => textField item "goal" "" = goal :=
    ⟨_, rfl⟩
  have hstable : ∀ item ∈ matching.map Value.dict, item.jsonRoundTrip = some item := by
    rw [List.forall_mem_map]
    intro fields hmem
    rw [hmatching] at hmem
    have hrecent := (getRecent_perm T streams).subset
      (List.mem_of_mem_take (List.mem_of_mem_filter hmem))
    obtain ⟨payload, _, rfl⟩ := List.mem_map.1 hrecent
    exact congrArg (Option.map Value.dict) payload.stable
  have hsafe := Value.safeItems_of_jsonItems (Value.jsonItems_of_stable hstable)
  simp only [buildStrategyStats, FileMemoryStore.retrieve, ← hmatching, Value.safeEntries,
    Value.safePayload, hsafe, Fields.get?, List.lookup_cons]
  rfl

/-- **The rebuild books the newest of the records**, which are all of them where there are no more
than 50. -/
theorem booked_rebuild {records : List LoopRecord}
    (hheld : List.Forall₂ (HeldAs decimal goal) (streams .execution) records) :
    ∃ recent : List LoopRecord, recent.Subperm records
      ∧ (records.length ≤ 50 → recent.Perm records)
      ∧ Booked (buildStrategyStats (FileMemoryStore.retrieve T streams goal) : Strategies F)
        recent := by
  have hread : List.Forall₂ (ReadAs F goal) ((streams .execution).map StoredPayload.fields) records :=
    List.forall₂_map_left_iff.2 (hheld.imp fun _ _ h => h.readAs)
  obtain ⟨newest, hnewest, hperm⟩ := List.perm_comp_forall₂ (getRecent_perm T streams) hread
  have hrecent : List.Forall₂ (ReadAs F goal) (Memory.MemoryStore.getRecent T streams 50)
      (newest.take 50) := List.forall₂_take 50 hnewest
  refine ⟨newest.take 50, (List.take_sublist 50 newest).subperm.trans hperm.subperm, fun hfew => ?_, ?_⟩
  · rwa [List.take_of_length_le (hperm.length_eq.trans_le hfew)]
  · have hmatching : (Memory.MemoryStore.getRecent T streams 50).filter
        (fun item => textField item "goal" "" = goal) = Memory.MemoryStore.getRecent T streams 50 := by
      refine List.filter_eq_self.2 fun item hmem => ?_
      obtain ⟨_, _, hitem⟩ := exists_of_mem_left hrecent hmem
      exact decide_eq_true hitem.goal_eq
    have hbooked := booked_foldl_learnRecord (F := F)
      (List.forall₂_map_left_iff.2 (hrecent.imp fun _ _ h => h.learns)) fun record hmem => by
        obtain ⟨_, _, hrecord⟩ := exists_of_mem_right hrecent hmem
        exact hrecord.recorded
    rw [← hmatching] at hbooked
    exact hbooked

end Rebuild

/-! ### The runs of a session -/

section Runs

variable {T : Type} [Timestamp T] [LE T] [DecidableLE T] {W : Type} {session : Session F}
  {records : List LoopRecord}

/-- The statistics book every record, and the store holds those that can be written. -/
structure Ledger (decimal : F → ℤ × ℤ) (goal : String) (session : Session F)
    (records : List LoopRecord) : Prop where
  booked : Booked session.strategies records
  held : List.Forall₂ (HeldAs decimal goal) (session.streams .execution)
    (records.filter fun record => record.Writable)

theorem ledger_start : Ledger decimal goal (.start : Session F) [] := ⟨booked_empty, .nil⟩

theorem Ledger.merged (h : Ledger decimal goal session records) :
    Ledger decimal goal (session.merged T goal) records := by
  obtain ⟨recent, hsome, -, hrebuilt⟩ := booked_rebuild T h.held
  refine ⟨?_, h.held⟩
  rw [← buildStrategyStats_safeEntries] at hrebuilt
  exact h.booked.merge hrebuilt (hsome.trans List.filter_sublist.subperm)

omit [ScoreArith F] in
/-- What a save leaves in the file. -/
theorem streams_save (decimal : F → ℤ × ℤ) (session : Session F) (record : LoopRecord)
    (strategies : Strategies F) :
    (session.save decimal record strategies).streams .execution
      = session.streams .execution ++ (storedRecord decimal record strategies).toList := by
  simp only [Session.save, Memory.Streams.append_eq, storedRecord]
  rcases StoredPayload.ofFields (record.toFields (strategies.snapshot decimal)) with _ | payload
  · exact (List.append_nil _).symm
  · exact Function.update_self _ _ session.streams

theorem Ledger.save (h : Ledger decimal goal session records) (hrecorded : Recorded goal record) :
    Ledger decimal goal (session.save decimal record (session.strategies.learn record))
      (records ++ [record]) := by
  refine ⟨h.booked.learn hrecorded.success_eq, ?_⟩
  have hiff : (storedRecord decimal record (session.strategies.learn record)).isSome
      ↔ record.Writable := isSome_storedRecord _
  rw [streams_save, List.filter_append]
  refine List.rel_append h.held ?_
  rcases hstored : storedRecord decimal record (session.strategies.learn record) with _ | payload
  · have hnot : ¬record.Writable := by
      rw [← hiff, hstored]
      exact Bool.false_ne_true
    rw [List.filter_singleton, decide_eq_false hnot]
    exact .nil
  · have hwritable : record.Writable := hiff.1 (hstored ▸ rfl)
    rw [List.filter_singleton, decide_eq_true hwritable]
    exact .cons ⟨hrecorded, _, hstored⟩ .nil

/-- **The statistics and the store go on together** over all runs. -/
theorem ledger_runs (controller : Controller W F) (worlds : List W)
    (h : Ledger controller.decimal goal session records) :
    Ledger controller.decimal goal (session.runs T controller goal worlds).2
        (records ++ savedRecords (session.runs T controller goal worlds).1)
      ∧ (savedRecords (session.runs T controller goal worlds).1).length
        ≤ (executorCalls (session.runs T controller goal worlds).1).length := by
  induction worlds generalizing session records with
  | nil => exact ⟨(List.append_nil records).symm ▸ h, Nat.le_refl _⟩
  | cons outside rest ih =>
      obtain ⟨hrun, hcalls⟩ := trace_induction controller goal session outside
        (fun later session => Ledger controller.decimal goal session (records ++ later))
        ((List.append_nil records).symm ▸ h.merged (T := T))
        (fun later session record hledger hrecorded => by
          rw [← List.append_assoc]
          exact hledger.save hrecorded)
      obtain ⟨hrest, hlater⟩ := ih hrun
      refine ⟨?_, ?_⟩
      · simpa only [Session.runs, Session.run, savedRecords_append, List.append_assoc] using hrest
      · simpa only [Session.runs, Session.run, savedRecords_append, executorCalls_append,
          List.length_append] using Nat.add_le_add hcalls hlater

/-- **A new controller resumes with what is rebuilt.** -/
theorem resumed_iff_rebuilt (goal : String) :
    session.Resumed T goal ↔ session.Rebuilt T goal := by
  simp only [Session.Resumed, Session.Rebuilt, Session.restarted, Session.merged,
    buildStrategyStats_safeEntries, Strategies.entry?_merge]
  rfl

/-- Each kind keeps its number exactly if nothing is filtered out. -/
theorem countP_filter_writable_iff (records : List LoopRecord) :
    (∀ pattern decision,
        (records.filter fun record => record.Writable).countP
            (fun record => record.books pattern decision)
          = records.countP fun record => record.books pattern decision)
      ↔ ∀ record ∈ records, record.Writable := by
  constructor
  · intro hcount record hmem
    let books (other : LoopRecord) : Bool := other.books record.strategyPattern record.decision
    have hall : (records.filter books).countP (fun other => other.Writable)
        = (records.filter books).length := by
      rw [← List.countP_eq_length_filter, ← hcount, List.countP_filter, List.countP_filter]
      exact List.countP_congr fun _ _ => by rw [Bool.and_comm]
    have hbooks : record ∈ records.filter books :=
      List.mem_filter.2 ⟨hmem, decide_eq_true ⟨rfl, rfl⟩⟩
    exact of_decide_eq_true (List.countP_eq_length.1 hall record hbooks)
  · intro hall pattern decision
    rw [List.filter_eq_self.2 fun record hmem => decide_eq_true (hall record hmem)]

/-- **What is learned can be resumed from memory exactly if every record was written.** -/
theorem resumes_iff (controller : Controller W F) (goal : String) (worlds : List W)
    (hfew : (executorCalls ((Session.start : Session F).runs T controller goal worlds).1).length
      ≤ 50) :
    let session := ((Session.start : Session F).runs T controller goal worlds).2
    session.Rebuilt T goal ∧ session.Resumed T goal
      ↔ ∀ record ∈ savedRecords ((Session.start : Session F).runs T controller goal worlds).1,
        record.Writable := by
  intro session
  have hstart : Ledger controller.decimal goal (.start : Session F) [] := ledger_start
  obtain ⟨hledger, hcalls⟩ := ledger_runs (T := T) controller worlds hstart
  rw [List.nil_append] at hledger
  obtain ⟨recent, -, hall, hrebuilt⟩ := booked_rebuild T hledger.held
  have hperm := hall ((List.length_filter_le _ _).trans (hcalls.trans hfew))
  have hiff : session.Rebuilt T goal ↔ _ :=
    ((hrebuilt.perm hperm).entry_eq_iff hledger.booked).trans (countP_filter_writable_iff _)
  rw [resumed_iff_rebuilt, and_self, hiff]

end Runs

/-! ### A result that cannot be written -/

/-- The decimal of a number of hundredths, without zeros at its end. -/
def hundredthsDecimal (x : ℚ) : ℤ × ℤ :=
  let units := (x * 100).num
  if units % 100 = 0 then (units / 100, 0)
  else if units % 10 = 0 then (units / 10, -1)
  else (units, -2)

def scriptedController : Controller (List Fields) ℚ where
  config := defaultConfig
  createPlan := (scriptedEnv twoSteps).createPlan
  repairStep := (scriptedEnv twoSteps).repairStep
  execute := (scriptedEnv twoSteps).execute
  clock := (scriptedEnv twoSteps).clock
  decimal := hundredthsDecimal

def sessionOf (scripts : List (List Fields)) : List (Event ℚ) × Session ℚ :=
  Session.start.runs Memory.Instant scriptedController "goal" scripts

theorem resumes_after_retries_iff :
    let scripts := [[failsWith "runtime_error", succeeds, succeeds], [succeeds, succeeds]]
    (sessionOf scripts).2.Rebuilt Memory.Instant "goal"
        ∧ (sessionOf scripts).2.Resumed Memory.Instant "goal"
      ↔ ∀ record ∈ savedRecords (sessionOf scripts).1, record.Writable :=
  resumes_iff scriptedController "goal" _ (by decide +kernel)

/-- A failure with the time at which it happened, as an object. -/
def failsAt : Fields :=
  failsWith "runtime_error" ++
    [("retryable", .bool true), ("finished_at", .object true "2026-01-01 00:00:00+00:00")]

/-- The failure is learned, and its record is lost. -/
theorem failsAt_not_rebuilt :
    (executorCalls (sessionOf [[failsAt]]).1).length ≤ 50
      ∧ ¬(sessionOf [[failsAt]]).2.Rebuilt Memory.Instant "goal" := by
  refine ⟨by decide +kernel, fun hrebuilt => ?_⟩
  have hattempts := congrArg (Option.map StrategyStats.attempts)
    (hrebuilt "runtime_error" .retrySame)
  revert hattempts
  decide +kernel

end PersonalDevin.Agent
