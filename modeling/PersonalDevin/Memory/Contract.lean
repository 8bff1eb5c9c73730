import PersonalDevin.Memory.Writers

/-!
# The contract of the streams

The repository reads a stream as a list of records, and refuses the whole stream if one of its
dictionaries has no `type`. The service only stores records, so its own calls keep every stream
readable, in every order. One record of the loop controller or one event of the improvement engine is
enough to make its stream unreadable for good.
-/

namespace PersonalDevin.Memory

open Lib

variable {T C : Type} [Timestamp T]

/-- Every stream can be read, and what the service has saved is in it. -/
def Sound (s : System C T) : Prop :=
  ∀ (now : T) type, ∃ records, getAll now s.streams type = some records
    ∧ ∀ record ∈ s.saved, record.type = type → ∃ stored ∈ records, StoredAs record stored

/-- The invariant that the service keeps. -/
structure Contract (s : System C T) : Prop where
  readable : ∀ type, ∀ payload ∈ s.streams type,
    ∃ record : MemoryRecord T, ∀ now, fromDict now payload.fields = some record
  saved : ∀ record ∈ s.saved, ∃ payload ∈ s.streams record.type,
    ∃ stored, StoredAs record stored ∧ ∀ now, fromDict now payload.fields = some stored

/-- Some stream holds a dictionary that is no record. -/
def Broken (s : System C T) : Prop :=
  ∃ type, ∃ payload ∈ s.streams type, ∀ now : T, fromDict now payload.fields = none

/-! ### Streams that grow -/

theorem mem_streams_concat {streams : Streams} {type : MemoryType} {new payload : StoredPayload}
    {type' : MemoryType} :
    payload ∈ Function.update streams type (streams type ++ [new]) type'
      ↔ payload ∈ streams type' ∨ (type' = type ∧ payload = new) := by
  by_cases htype : type' = type
  · subst htype
    rw [Function.update_self, List.mem_append, List.mem_singleton]
    simp only [true_and]
  · rw [Function.update_of_ne htype]
    simp only [htype, false_and, or_false]

theorem Contract.congr {s s' : System C T} (h : Contract s) (hstreams : s'.streams = s.streams)
    (hsaved : s'.saved = s.saved) : Contract s' :=
  ⟨hstreams ▸ h.readable, hstreams ▸ hsaved ▸ h.saved⟩

theorem contract_start : Contract (System.start : System C T) where
  readable _ _ hmem := absurd hmem List.not_mem_nil
  saved _ hmem := absurd hmem List.not_mem_nil

theorem Contract.sound {s : System C T} (h : Contract s) : Sound s := by
  intro now type
  obtain ⟨records, hrecords⟩ := Option.isSome_iff_exists.1 (mapM_isSome_iff.2 fun payload hmem => by
    obtain ⟨record, hread⟩ := h.readable type payload hmem
    exact Option.isSome_iff_exists.2 ⟨record, hread now⟩)
  refine ⟨records, hrecords, ?_⟩
  rintro record hsaved rfl
  obtain ⟨payload, hmem, stored, hstored, hread⟩ := h.saved record hsaved
  obtain ⟨found, hfound, hsome⟩ := exists_of_mem_left (mapM_eq_some_iff.1 hrecords) hmem
  obtain rfl : stored = found := Option.some.inj ((hread now).symm.trans hsome)
  exact ⟨stored, hfound, hstored⟩

theorem Broken.not_sound {s : System C T} (h : Broken s) : ¬ Sound s := by
  obtain ⟨type, payload, hmem, hnone⟩ := h
  intro hsound
  obtain ⟨records, hrecords, _⟩ := hsound Timestamp.min type
  have hsome := mapM_isSome_iff.1 (Option.isSome_iff_exists.2 ⟨records, hrecords⟩) payload hmem
  rw [hnone] at hsome
  cases hsome

section Step

variable [DecidableEq C]

theorem Contract.serviceStep {s s' : System C T} (h : Contract s) {action : ServiceAction C T}
    (hstep : s.ServiceStep action s') : Contract s' := by
  cases hstep with
  | refused => exact h
  | idle => exact h
  | taken => exact h.congr rfl rfl
  | raised => exact h.congr rfl rfl
  | @saved client now pending payload hpending hstored =>
      obtain ⟨stored, hstoredAs, hread⟩ := fromDict_toDict hstored
      constructor
      · intro type other hmem
        rcases mem_streams_concat.1 hmem with hold | ⟨_, rfl⟩
        · exact h.readable type other hold
        · exact ⟨stored, hread⟩
      · intro record hmem
        rcases List.mem_append.1 hmem with hold | hnew
        · obtain ⟨other, hother, hrest⟩ := h.saved record hold
          exact ⟨other, mem_streams_concat.2 (.inl hother), hrest⟩
        · obtain rfl := List.mem_singleton.1 hnew
          exact ⟨payload, mem_streams_concat.2 (.inr ⟨rfl, rfl⟩), stored, hstoredAs, hread⟩

theorem Contract.step {s s' : System C T} (h : Contract s) {action : Action C T}
    (hstep : StoreStep s action s') (hown : ¬ action.StoresForeign) : Contract s' := by
  cases hstep with
  | service hstep => exact h.serviceStep hstep
  | raised => exact h
  | foreign hforeign => exact absurd hforeign hown

/-- A loop record or an event that is stored is no record. -/
theorem broken_of_foreign {s s' : System C T} {action : Action C T} (hstep : StoreStep s action s')
    (hforeign : action.StoresForeign) : Broken s' := by
  cases hstep with
  | service => exact hforeign.elim
  | raised hown => exact absurd hforeign hown
  | @foreign _ type payload _ hread =>
      exact ⟨type, payload, mem_streams_concat.2 (.inr ⟨rfl, rfl⟩), hread⟩

/-- Nothing is ever taken out of a stream. -/
theorem Broken.step {s s' : System C T} (h : Broken s) {action : Action C T}
    (hstep : StoreStep s action s') : Broken s' := by
  obtain ⟨type, payload, hmem, hnone⟩ := h
  refine ⟨type, payload, ?_, hnone⟩
  cases hstep with
  | service hstep =>
      cases hstep with
      | refused => exact hmem
      | idle => exact hmem
      | taken => exact hmem
      | raised => exact hmem
      | saved => exact mem_streams_concat.2 (.inl hmem)
  | raised => exact hmem
  | foreign => exact mem_streams_concat.2 (.inl hmem)

theorem sound_iff_no_foreign (actions : List (Action C T)) :
    Sound (actions.foldl System.step System.start) ↔ ∀ action ∈ actions, ¬ action.StoresForeign := by
  rw [← eachStep_forall_mem System.step System.start]
  exact iff_eachStep Contract Broken Sound
    (fun s action hgood hown => hgood.step (step_cases s action) hown)
    (fun s action _ hforeign => broken_of_foreign (step_cases s action) (not_not.1 hforeign))
    (fun s action hbad => hbad.step (step_cases s action))
    (fun _ hgood => hgood.sound) (fun _ hbad => hbad.not_sound) contract_start actions

end Step

/-- **Every state of a run is sound exactly if no loop record and no improvement event is stored in
the run.** -/
theorem run_sound_iff [DecidableEq C] (actions : List (Action C T)) :
    (∀ past, past <+: actions → Sound (past.foldl System.step System.start))
      ↔ ∀ action ∈ actions, ¬ action.StoresForeign := by
  constructor
  · exact fun hsound => (sound_iff_no_foreign actions).1 (hsound actions (List.prefix_refl _))
  · exact fun hown past hpast =>
      (sound_iff_no_foreign past).2 fun action hmem => hown action (hpast.subset hmem)

/-! ### A store broken by a loop record -/

/-- One instant, to run the store with. -/
inductive Instant where
  | mk

instance : Timestamp Instant where
  min := .mk
  isoformat _ := "2026-01-01T00:00:00+00:00"
  fromisoformat text := if text = "2026-01-01T00:00:00+00:00" then some .mk else none
  ofValue _ := none
  fromisoformat_isoformat _ := rfl

instance : LE Instant where
  le _ _ := True

instance : DecidableLE Instant := fun _ _ => .isTrue trivial

def firstStep : Agent.Step where
  id := "step_1"
  action := "first"
  dependencies := none
  metadata := []

/-- The record of a loop whose only step has succeeded. -/
def loopRecord : Agent.LoopRecord where
  iterationId := "iter-0001"
  timestamp := "2026-01-01T00:00:00+00:00"
  goal := "goal"
  plan := { steps := [firstStep], currentStep := 1 }
  currentStep := firstStep
  result := [("success", .bool true)]
  classification := Agent.classifyResult [("success", .bool true)]
  success := true
  decision := .advanceStep
  strategyPattern := "none"
  strategyHint := "advance_to_next_step"
  repairApplied := false
  originalStep := none
  repairedStep := none

def loopThenRead : List (Action Unit Instant) :=
  [.loopRecord loopRecord [],
    .service (.read () (.logExecution "completed" 1 1 0 0 none) .mk)]

/-- After one loop record the execution stream cannot be read, and the next call of the service does
not get an id. -/
theorem loop_record_breaks_stream :
    getAll Instant.mk (loopThenRead.foldl System.step System.start).streams .execution = none
      ∧ (loopThenRead.foldl System.step System.start).pending () = none
      ∧ ¬ Sound (loopThenRead.foldl System.step System.start) := by
  have hnone : getAll Instant.mk (loopThenRead.foldl System.step System.start).streams .execution
      = none := rfl
  refine ⟨hnone, rfl, fun hsound => ?_⟩
  obtain ⟨records, hrecords, _⟩ := hsound .mk .execution
  rw [hnone] at hrecords
  cases hrecords

end PersonalDevin.Memory
