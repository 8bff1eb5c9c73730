import PersonalDevin.Orchestration.Coherence

/-!
# The list of record ids

The memory service stores one record for each write that returns. The list of ids that a run returns
follows the store as long as each id is appended after its own write. Two things can leave a record out of
it: an engine or an improvement runner that writes on its own, and `store_improvements`, which collects the
ids of a batch and loses those it has when a later write of the batch raises.
-/

namespace PersonalDevin.Orchestration

open Lib
open Memory (ServiceCall RecordId)

variable {σ T P H R α : Type}

/-! ### A memory service that stores -/

/-- A write stores one record and returns its id, or it raises and stores nothing. -/
structure Recorder (σ T : Type) where
  stored : σ → List RecordId
  write : ServiceCall T → EStateM Raised σ RecordId
  getRecent : ℤ → EStateM Raised σ ℕ
  write_stores : ∀ call s, Ends (fun id s' => stored s' = stored s ++ [id])
    (fun _ s' => stored s' = stored s) (write call) s
  getRecent_reads : ∀ limit s, Ends (fun _ s' => stored s' = stored s)
    (fun _ s' => stored s' = stored s) (getRecent limit) s

/-- An approved improvement, as `store_improvements` distinguishes them. -/
inductive Improvement where
  | dataclass (fields : Fields)
  | dict (fields : Fields)
  | other (text : String)

def Improvement.payload : Improvement → Fields
  | dataclass fields => fields
  | dict fields => fields
  | other text => [("action", .str text)]

def improvementCall (action : Improvement) : ServiceCall T :=
  .logDecision "improvement_action" "approved by self-improvement policy"
    (some [("improvement", .dict action.payload)])

namespace Recorder

variable (recorder : Recorder σ T)

/-- The loop of `store_improvements`. -/
def storeAll : List Improvement → EStateM Raised σ (List RecordId)
  | [] => pure []
  | action :: rest => do
      let id ← recorder.write (improvementCall action)
      let saved ← storeAll rest
      return id :: saved

def storeImprovements (improvements : Iteration Improvement) : EStateM Raised σ (List RecordId) := do
  let saved ← recorder.storeAll improvements.items
  match improvements.broken with
  | some error => throw error
  | none => return saved

def idValue (id : RecordId) : Value := .str id

def service : MemoryService σ T (Iteration Improvement) where
  write call := (fun id => .ok (idValue id)) <$> recorder.write call
  getRecent limit := .ok <$> recorder.getRecent limit
  storeImprovements improvements :=
    (fun saved => { items := saved.map idValue, broken := none })
      <$> recorder.storeImprovements improvements

/-! ### The batch -/

/-- The writes of these improvements, one after the other, all return. -/
def AllWritten : List Improvement → σ → Prop
  | [], _ => True
  | action :: rest, s =>
      ∃ id s', recorder.write (improvementCall action) s = .ok id s' ∧ AllWritten rest s'

/-- The first improvement of the batch is written, and then one of the others is not, or the batch
itself breaks off. -/
def BreaksOff (improvements : Iteration Improvement) (s : σ) : Prop :=
  match improvements.items with
  | [] => False
  | action :: rest => ∃ id s', recorder.write (improvementCall action) s = .ok id s'
      ∧ ¬ (recorder.AllWritten rest s' ∧ improvements.broken = none)

section First

variable {recorder} {action : Improvement} {rest : List Improvement} {s : σ}

theorem allWritten_cons_of_ok {id : RecordId} {s₁ : σ}
    (hx : recorder.write (improvementCall action) s = .ok id s₁) :
    recorder.AllWritten (action :: rest) s ↔ recorder.AllWritten rest s₁ := by
  constructor
  · rintro ⟨_, _, hx', hrest⟩
    cases hx.symm.trans hx'
    exact hrest
  · exact fun hrest => ⟨id, s₁, hx, hrest⟩

theorem not_allWritten_cons_of_error {error : Raised} {s₁ : σ}
    (hx : recorder.write (improvementCall action) s = .error error s₁) :
    ¬ recorder.AllWritten (action :: rest) s := by
  rintro ⟨_, _, hx', _⟩
  cases hx.symm.trans hx'

theorem breaksOff_cons_of_ok {broken : Option Raised} {id : RecordId} {s₁ : σ}
    (hx : recorder.write (improvementCall action) s = .ok id s₁) :
    recorder.BreaksOff ⟨action :: rest, broken⟩ s
      ↔ ¬ (recorder.AllWritten rest s₁ ∧ broken = none) := by
  constructor
  · rintro ⟨_, _, hx', hrest⟩
    cases hx.symm.trans hx'
    exact hrest
  · exact fun hrest => ⟨id, s₁, hx, hrest⟩

theorem not_breaksOff_cons_of_error {broken : Option Raised} {error : Raised} {s₁ : σ}
    (hx : recorder.write (improvementCall action) s = .error error s₁) :
    ¬ recorder.BreaksOff ⟨action :: rest, broken⟩ s := by
  rintro ⟨_, _, hx', _⟩
  cases hx.symm.trans hx'

end First

theorem storeAll_ends (items : List Improvement) (s : σ) :
    Ends (fun ids s' => recorder.AllWritten items s
        ∧ recorder.stored s' = recorder.stored s ++ ids)
      (fun _ s' => ¬ recorder.AllWritten items s ∧ recorder.stored s <+: recorder.stored s')
      (recorder.storeAll items) s := by
  induction items generalizing s with
  | nil => exact ⟨trivial, (List.append_nil _).symm⟩
  | cons action rest ih =>
      have hwrite := recorder.write_stores (improvementCall action) s
      rcases hx : recorder.write (improvementCall action) s with ⟨id, s₁⟩ | ⟨error, s₁⟩
      · rw [ends_of_ok hx] at hwrite
        rw [storeAll, ends_congr (bind_of_ok hx), ends_bind]
        apply (ih s₁).mono
        · rintro ids s₂ ⟨hall, hstored⟩
          refine ⟨(allWritten_cons_of_ok hx).2 hall, ?_⟩
          rw [hstored, hwrite, List.append_assoc, List.singleton_append]
        · rintro error s₂ ⟨hall, hstored⟩
          exact ⟨fun h => hall ((allWritten_cons_of_ok hx).1 h),
            (hwrite ▸ List.prefix_append _ _ : _ <+: recorder.stored s₁).trans hstored⟩
      · rw [ends_of_error hx] at hwrite
        rw [storeAll, ends_of_error (bind_of_error hx)]
        exact ⟨not_allWritten_cons_of_error hx, hwrite ▸ List.prefix_rfl⟩

/-- **What a batch leaves in the store**: its ids if it returns, and if it raises nothing, unless it has
broken off. -/
theorem storeImprovements_ends (improvements : Iteration Improvement) (s : σ) :
    Ends (fun ids s' => ¬ recorder.BreaksOff improvements s
        ∧ recorder.stored s' = recorder.stored s ++ ids)
      (fun _ s' => (¬ recorder.BreaksOff improvements s ∧ recorder.stored s' = recorder.stored s)
        ∨ (recorder.BreaksOff improvements s
          ∧ (recorder.stored s).length < (recorder.stored s').length))
      (recorder.storeImprovements improvements) s := by
  obtain ⟨items, broken⟩ := improvements
  cases items with
  | nil =>
      cases broken with
      | none => exact ⟨fun hbroken => hbroken, (List.append_nil _).symm⟩
      | some error => exact Or.inl ⟨fun hbroken => hbroken, rfl⟩
  | cons action rest =>
      have hwrite := recorder.write_stores (improvementCall action) s
      rcases hx : recorder.write (improvementCall action) s with ⟨id, s₁⟩ | ⟨error, s₁⟩
      · rw [ends_of_ok hx] at hwrite
        rw [breaksOff_cons_of_ok hx]
        have hgrown : ∀ s₂, recorder.stored s₁ <+: recorder.stored s₂ →
            (recorder.stored s).length < (recorder.stored s₂).length := by
          intro s₂ hpre
          have hle := hpre.length_le
          rw [hwrite, List.length_append, List.length_singleton] at hle
          exact hle
        rw [storeImprovements, storeAll, ends_bind, ends_congr (bind_of_ok hx), ends_bind]
        apply (recorder.storeAll_ends rest s₁).mono
        · rintro ids s₂ ⟨hall, hstored⟩
          cases broken with
          | none =>
              refine ⟨fun hbroken => hbroken ⟨hall, rfl⟩, ?_⟩
              rw [hstored, hwrite, List.append_assoc, List.singleton_append]
          | some error =>
              have hbroken : ¬ (recorder.AllWritten rest s₁ ∧ some error = none) :=
                fun hboth => nomatch hboth.2
              exact .inr ⟨hbroken, hgrown s₂ (hstored ▸ List.prefix_append _ _)⟩
        · rintro error s₂ ⟨hall, hstored⟩
          exact .inr ⟨fun hboth => hall hboth.1, hgrown s₂ hstored⟩
      · rw [ends_of_error hx] at hwrite
        rw [storeImprovements, storeAll, ends_of_error (bind_of_error (bind_of_error hx))]
        exact .inl ⟨not_breaksOff_cons_of_error hx, hwrite⟩

end Recorder

/-! ### The list and the store -/

section Run

variable (recorder : Recorder σ T)

/-- The list holds the ids of the records stored since the start, in their order. -/
def InStep (world : σ) (shared : Shared σ) : Prop :=
  ∃ new, recorder.stored shared.world = recorder.stored world ++ new
    ∧ shared.memoryRecordIds = new.map Recorder.idValue

/-- More records were stored since the start than the list has ids. -/
def Behind (world : σ) (shared : Shared σ) : Prop :=
  (recorder.stored world).length + shared.memoryRecordIds.length
    < (recorder.stored shared.world).length

/-- The call only adds to the store, whether it returns or raises. -/
def AppendOnly (call : EStateM Raised σ α) : Prop :=
  ∀ s, Ends (fun _ s' => recorder.stored s <+: recorder.stored s')
    (fun _ s' => recorder.stored s <+: recorder.stored s') call s

def StoresNothing (call : EStateM Raised σ α) (s : σ) : Prop :=
  Ends (fun _ s' => recorder.stored s' = recorder.stored s)
    (fun _ s' => recorder.stored s' = recorder.stored s) call s

variable {recorder} {world : σ}

theorem Behind.not_inStep {shared : Shared σ} (h : Behind recorder world shared) :
    ¬ InStep recorder world shared := by
  rintro ⟨new, hstored, hids⟩
  rw [Behind, hstored, hids, List.length_append, List.length_map] at h
  exact Nat.lt_irrefl _ h

/-- What is stored without the list knowing it is never made up for. -/
theorem AppendOnly.keeps_behind {call : EStateM Raised σ α} (h : AppendOnly recorder call) :
    Keeps (Behind recorder world) (onWorld call) := by
  intro shared hbehind
  rw [ends_onWorld]
  have hgrows : ∀ world', recorder.stored shared.world <+: recorder.stored world' →
      Behind recorder world { shared with world := world' } :=
    fun world' hpre => Nat.lt_of_lt_of_le hbehind hpre.length_le
  exact (h shared.world).mono (fun _ world' => hgrows world') fun _ world' => hgrows world'

/-- A call that adds to the store keeps the list in step exactly if it stores nothing. -/
theorem AppendOnly.ends_inStep {call : EStateM Raised σ α} (h : AppendOnly recorder call)
    {shared : Shared σ} (hstep : InStep recorder world shared) :
    (StoresNothing recorder call shared.world
      ∧ Ends (fun _ => InStep recorder world) (fun _ => InStep recorder world)
        (onWorld call) shared)
    ∨ (¬ StoresNothing recorder call shared.world
      ∧ Ends (fun _ => Behind recorder world) (fun _ => Behind recorder world)
        (onWorld call) shared) := by
  obtain ⟨new, hstored, hids⟩ := hstep
  have hafter : ∀ world', recorder.stored shared.world <+: recorder.stored world' →
      (recorder.stored world' = recorder.stored shared.world
        ∧ InStep recorder world { shared with world := world' })
      ∨ (recorder.stored world' ≠ recorder.stored shared.world
        ∧ Behind recorder world { shared with world := world' }) := by
    intro world' hpre
    by_cases heq : recorder.stored world' = recorder.stored shared.world
    · exact .inl ⟨heq, new, heq.trans hstored, hids⟩
    · refine .inr ⟨heq, ?_⟩
      have hlt := Nat.lt_of_le_of_ne hpre.length_le fun hlength =>
        heq (hpre.eq_of_length hlength).symm
      rw [hstored, List.length_append] at hlt
      rw [Behind, hids, List.length_map]
      exact hlt
  have hcall := h shared.world
  rcases hx : call shared.world with ⟨value, world'⟩ | ⟨error, world'⟩
  · rw [ends_of_ok hx] at hcall
    rw [StoresNothing, ends_of_ok hx, ends_of_ok (onWorld_of_ok hx), ends_of_ok (onWorld_of_ok hx)]
    exact hafter world' hcall
  · rw [ends_of_error hx] at hcall
    rw [StoresNothing, ends_of_error hx, ends_of_error (onWorld_of_error hx),
      ends_of_error (onWorld_of_error hx)]
    exact hafter world' hcall

theorem remember_ends {ret : Value → Shared σ → Prop} {exc : Raised → Shared σ → Prop}
    (call : ServiceCall T) (shared : Shared σ)
    (hret : ∀ id world', recorder.stored world' = recorder.stored shared.world ++ [id] →
      ret (Recorder.idValue id)
        ⟨world', shared.memoryRecordIds ++ [Recorder.idValue id]⟩)
    (hexc : ∀ error world', recorder.stored world' = recorder.stored shared.world →
      exc error { shared with world := world' }) :
    Ends ret exc (remember recorder.service call) shared := by
  have hwrite := recorder.write_stores call shared.world
  rcases hx : recorder.write call shared.world with ⟨id, world'⟩ | ⟨error, world'⟩
  · rw [ends_of_ok hx] at hwrite
    have hservice : recorder.service.write call shared.world
        = .ok (.ok (Recorder.idValue id)) world' := map_of_ok _ hx
    rw [remember, ends_congr (bind_of_ok (onWorld_of_ok hservice))]
    exact hret id world' hwrite
  · rw [ends_of_error hx] at hwrite
    have hservice : recorder.service.write call shared.world = .error error world' :=
      map_of_error _ hx
    rw [remember, ends_of_error (bind_of_error (onWorld_of_error hservice))]
    exact hexc error world' hwrite

theorem remember_keeps_inStep (call : ServiceCall T) :
    Keeps (InStep recorder world) (remember recorder.service call) := by
  rintro shared ⟨new, hstored, hids⟩
  apply remember_ends
  · intro id world' hwrite
    refine ⟨new ++ [id], ?_, ?_⟩
    · rw [hwrite, hstored, List.append_assoc]
    · rw [hids, List.map_append]
      rfl
  · exact fun error world' hwrite => ⟨new, hwrite.trans hstored, hids⟩

theorem remember_keeps_behind (call : ServiceCall T) :
    Keeps (Behind recorder world) (remember recorder.service call) := by
  intro shared hbehind
  apply remember_ends
  · intro id world' hwrite
    rw [Behind, hwrite, List.length_append, List.length_append, ← Nat.add_assoc]
    exact Nat.add_lt_add_right hbehind 1
  · intro error world' hwrite
    rw [Behind, hwrite]
    exact hbehind

/-! ### Phases and the list -/

theorem keeps_reading {Inv : σ → Prop} (read : Attribute α) :
    Keeps Inv (reading read : EStateM Raised σ α) := by
  intro s h
  cases read with
  | ok value => exact h
  | error error => exact h

theorem keeps_observing {Inv : Shared σ → Prop} (read : σ → Attribute α) :
    Keeps Inv (observing read) := by
  intro shared h
  rcases hread : read shared.world with error | value
  · exact (ends_of_error (observing_of_error hread)).2 h
  · exact (ends_of_ok (observing_of_ok hread)).2 h

theorem reflect_keeps {A : Type} {controller : OrchestrationController σ T P H R A}
    {Inv : Shared σ → Prop}
    (hremember : ∀ call, Keeps Inv (remember controller.memoryService call))
    (hrecent : Keeps Inv (onWorld (controller.memoryService.getRecent controller.reflectionLimit)))
    (request : OrchestrationRequest H) (report : R) :
    Keeps Inv (reflect controller request report) := by
  have hrest : Keeps Inv (do
      let recent ← onWorld (controller.memoryService.getRecent controller.reflectionLimit)
      let recentCount ← reading recent
      let reflectionId ← remember controller.memoryService (reflectionCall request recentCount)
      let s ← get
      return ([("recent_record_count", .int recentCount),
        ("memory_record_count", .int s.memoryRecordIds.length),
        ("reflection_record_id", reflectionId)] : Fields)) :=
    hrecent.bind fun _ => (keeps_reading _).bind fun _ => (hremember _).bind fun _ _ h => h
  apply (keeps_observing _).bind
  intro call
  apply (hremember _).bind
  intro _
  apply (keeps_observing _).bind
  intro tasks
  apply (Keeps.forM fun task => (hremember (taskCall task)).bind fun _ => keeps_pure _).bind
  intro _
  apply (keeps_observing _).bind
  intro status
  by_cases hstatus : status = .failed
  · simp only [hstatus, if_true]
    exact (keeps_observing _).bind fun _ => (hremember _).bind fun _ => hrest
  · simp only [hstatus, if_false]
    exact hrest

theorem keeps_getRecent (limit : ℤ) {Inv : Shared σ → Prop}
    (hstored : ∀ shared world', recorder.stored world' = recorder.stored shared.world →
      Inv shared → Inv { shared with world := world' }) :
    Keeps Inv (onWorld (recorder.service.getRecent limit)) := by
  intro shared h
  have hread := recorder.getRecent_reads limit shared.world
  rw [ends_onWorld]
  rcases hx : recorder.getRecent limit shared.world with ⟨count, world'⟩ | ⟨error, world'⟩
  · rw [ends_of_ok hx] at hread
    exact (ends_of_ok (map_of_ok _ hx)).2 (hstored shared world' hread h)
  · rw [ends_of_error hx] at hread
    exact (ends_of_error (map_of_error _ hx)).2 (hstored shared world' hread h)

theorem getRecent_keeps_inStep (limit : ℤ) :
    Keeps (InStep recorder world) (onWorld (recorder.service.getRecent limit)) := by
  apply keeps_getRecent
  rintro shared world' hread ⟨new, hstored, hids⟩
  exact ⟨new, hread.trans hstored, hids⟩

theorem getRecent_keeps_behind (limit : ℤ) :
    Keeps (Behind recorder world) (onWorld (recorder.service.getRecent limit)) := by
  apply keeps_getRecent
  intro shared world' hread hbehind
  rw [Behind, hread]
  exact hbehind

/-- The ids of a batch that returns are appended, and a batch that breaks off leaves the list behind. -/
theorem storeImprovements_ends_inStep (improvements : Iteration Improvement) {shared : Shared σ}
    (hstep : InStep recorder world shared) :
    Ends (fun stored shared' => ¬ recorder.BreaksOff improvements shared.world
        ∧ stored.broken = none
        ∧ InStep recorder world { shared' with
          memoryRecordIds := shared'.memoryRecordIds ++ stored.items })
      (fun _ shared' => (¬ recorder.BreaksOff improvements shared.world ∧ InStep recorder world shared')
        ∨ (recorder.BreaksOff improvements shared.world ∧ Behind recorder world shared'))
      (onWorld (recorder.service.storeImprovements improvements)) shared := by
  obtain ⟨new, hstored, hids⟩ := hstep
  have hbatch := recorder.storeImprovements_ends improvements shared.world
  rw [ends_onWorld]
  rcases hx : recorder.storeImprovements improvements shared.world with ⟨ids, world'⟩ | ⟨error, world'⟩
  · rw [ends_of_ok hx] at hbatch
    refine (ends_of_ok (map_of_ok _ hx)).2 ⟨hbatch.1, rfl, new ++ ids, ?_, ?_⟩
    · show recorder.stored world' = _
      rw [hbatch.2, hstored, List.append_assoc]
    · show shared.memoryRecordIds ++ ids.map Recorder.idValue = _
      rw [hids, List.map_append]
  · rw [ends_of_error hx] at hbatch
    refine (ends_of_error (map_of_error _ hx)).2 ?_
    rcases hbatch with ⟨hwhole, hsame⟩ | ⟨hbroken, hgrown⟩
    · exact .inl ⟨hwhole, new, hsame.trans hstored, hids⟩
    · refine .inr ⟨hbroken, ?_⟩
      rw [hstored, List.length_append] at hgrown
      rw [Behind, hids, List.length_map]
      exact hgrown

/-- A batch never makes up for a record that the list does not have. -/
theorem storeImprovements_ends_behind (improvements : Iteration Improvement) {shared : Shared σ}
    (hbehind : Behind recorder world shared) :
    Ends (fun stored shared' => Behind recorder world { shared' with
        memoryRecordIds := shared'.memoryRecordIds ++ stored.items })
      (fun _ shared' => Behind recorder world shared')
      (onWorld (recorder.service.storeImprovements improvements)) shared := by
  have hbatch := recorder.storeImprovements_ends improvements shared.world
  rw [Behind] at hbehind
  rw [ends_onWorld]
  rcases hx : recorder.storeImprovements improvements shared.world with ⟨ids, world'⟩ | ⟨error, world'⟩
  · rw [ends_of_ok hx] at hbatch
    refine (ends_of_ok (map_of_ok _ hx)).2 ?_
    show _ + (shared.memoryRecordIds ++ ids.map Recorder.idValue).length
      < (recorder.stored world').length
    rw [hbatch.2, List.length_append, List.length_append, List.length_map]
    omega
  · rw [ends_of_error hx] at hbatch
    refine (ends_of_error (map_of_error _ hx)).2 ?_
    show _ + shared.memoryRecordIds.length < (recorder.stored world').length
    rcases hbatch with ⟨_, hsame⟩ | ⟨_, hgrown⟩
    · rw [hsame]
      exact hbehind
    · omega

/-! ### The improving phase -/

variable {controller : OrchestrationController σ T P H R (Iteration Improvement)}

/-- The improvement runner, called in this world, stores nothing, and the batch it approves does not
break off. -/
structure ImprovementsListed (recorder : Recorder σ T)
    (controller : OrchestrationController σ T P H R (Iteration Improvement)) (world : σ) : Prop where
  quiet : StoresNothing recorder controller.selfImprovementRunner world
  whole : ∀ improvement world' approved,
    controller.selfImprovementRunner world = .ok (some improvement) world' →
      improvement.adaptationsApproved = .ok approved → ¬ recorder.BreaksOff approved world'

/-- The list is in step if the condition holds, and behind if not. -/
def Tracks (recorder : Recorder σ T) (world : σ) (fine : Prop) (shared : Shared σ) : Prop :=
  (fine ∧ InStep recorder world shared) ∨ (¬ fine ∧ Behind recorder world shared)

theorem Tracks.iff {fine : Prop} {shared : Shared σ} (h : Tracks recorder world fine shared) :
    InStep recorder world shared ↔ fine := by
  rcases h with ⟨hfine, hstep⟩ | ⟨hnot, hbehind⟩
  · exact iff_of_true hstep hfine
  · exact iff_of_false hbehind.not_inStep hnot

theorem tracks_of_iff {fine fine' : Prop} {shared : Shared σ} (h : Tracks recorder world fine shared)
    (hiff : fine ↔ fine') : Tracks recorder world fine' shared := by
  unfold Tracks at h ⊢
  rwa [hiff] at h

theorem storeApproved_keeps_behind (hmemory : controller.memoryService = recorder.service)
    (improvement : Option (AdaptationResult (Iteration Improvement))) :
    Keeps (Behind recorder world) (storeApproved controller improvement) := by
  cases improvement with
  | none => exact keeps_throw _
  | some improvement =>
      apply (keeps_reading _).bind
      intro approved shared hbehind
      rw [hmemory, ends_bind]
      apply (storeImprovements_ends_behind approved hbehind).mono
      · intro stored shared' hafter
        rcases hbroken : stored.broken with _ | error
        · exact hafter
        · exact hafter
      · exact fun _ _ hafter => hafter

theorem improve_keeps_behind (hmemory : controller.memoryService = recorder.service)
    (hrunner : AppendOnly recorder controller.selfImprovementRunner) :
    Keeps (Behind recorder world) (improve controller) :=
  hrunner.keeps_behind.bind (storeApproved_keeps_behind hmemory)

/-- What the improving phase does to the list once the runner has returned. -/
theorem storeApproved_ends (hmemory : controller.memoryService = recorder.service)
    {improvement : Option (AdaptationResult (Iteration Improvement))} {shared : Shared σ}
    (hstep : InStep recorder world shared) :
    Ends (fun _ => Tracks recorder world (∀ result ∈ improvement, ∀ approved,
        result.adaptationsApproved = .ok approved → ¬ recorder.BreaksOff approved shared.world))
      (fun _ => Tracks recorder world (∀ result ∈ improvement, ∀ approved,
        result.adaptationsApproved = .ok approved → ¬ recorder.BreaksOff approved shared.world))
      (storeApproved controller improvement) shared := by
  cases improvement with
  | none => exact .inl ⟨nofun, hstep⟩
  | some improvement =>
      rcases happroved : improvement.adaptationsApproved with error | approved
      · have hraised : (reading improvement.adaptationsApproved : EStateM Raised (Shared σ) _) shared
            = .error error shared := by rw [happroved]; rfl
        rw [storeApproved, ends_of_error (bind_of_error hraised)]
        refine .inl ⟨?_, hstep⟩
        rintro _ ⟨⟩ approved happroved'
        rw [happroved] at happroved'
        cases happroved'
      · have hread : (reading improvement.adaptationsApproved : EStateM Raised (Shared σ) _) shared
            = .ok approved shared := by rw [happroved]; rfl
        have hiff : ¬ recorder.BreaksOff approved shared.world
            ↔ ∀ result ∈ some improvement, ∀ approved,
              result.adaptationsApproved = .ok approved →
                ¬ recorder.BreaksOff approved shared.world := by
          constructor
          · rintro hwhole _ ⟨⟩ approved' happroved'
            rw [happroved] at happroved'
            cases happroved'
            exact hwhole
          · exact fun hwhole => hwhole improvement rfl approved happroved
        rw [storeApproved, ends_congr (bind_of_ok hread), hmemory, ends_bind]
        apply (storeImprovements_ends_inStep approved hstep).mono
        · rintro ⟨items, _⟩ shared' ⟨hwhole, rfl, hafter⟩
          exact .inl ⟨hiff.1 hwhole, hafter⟩
        · rintro error shared' (⟨hwhole, hafter⟩ | ⟨hbroken, hafter⟩)
          · exact .inl ⟨hiff.1 hwhole, hafter⟩
          · exact .inr ⟨fun hwhole => hiff.2 hwhole hbroken, hafter⟩

/-- **A call and what follows it.** The list is in step in the end if the call stores nothing and what
follows it keeps the list in step. -/
theorem tracks_onWorld {γ : Type} {call : EStateM Raised σ α} (hcall : AppendOnly recorder call)
    {next : α → EStateM Raised (Shared σ) γ} (fine : α → σ → Prop) {shared : Shared σ}
    (hstep : InStep recorder world shared)
    (hnext : ∀ value world', call shared.world = .ok value world' →
      InStep recorder world { shared with world := world' } →
      Ends (fun _ => Tracks recorder world (fine value world'))
        (fun _ => Tracks recorder world (fine value world'))
        (next value) { shared with world := world' })
    (hbehind : ∀ value, Keeps (Behind recorder world) (next value)) {fine' : Prop}
    (hfine : fine' ↔ StoresNothing recorder call shared.world
      ∧ ∀ value world', call shared.world = .ok value world' → fine value world') :
    Ends (fun _ => Tracks recorder world fine') (fun _ => Tracks recorder world fine')
      (onWorld call >>= next) shared := by
  rcases hcall.ends_inStep hstep with ⟨hquiet, hcalled⟩ | ⟨hloud, hcalled⟩
  · rcases hx : call shared.world with ⟨value, world'⟩ | ⟨error, world'⟩
    · have hiff : fine value world' ↔ fine' := by
        rw [hfine]
        constructor
        · refine fun hvalue => ⟨hquiet, fun value' world'' hx' => ?_⟩
          cases hx.symm.trans hx'
          exact hvalue
        · exact fun hboth => hboth.2 value world' hx
      rw [ends_of_ok (onWorld_of_ok hx)] at hcalled
      rw [ends_congr (bind_of_ok (onWorld_of_ok hx))]
      apply (hnext value world' hx hcalled).mono
      · exact fun _ _ hafter => tracks_of_iff hafter hiff
      · exact fun _ _ hafter => tracks_of_iff hafter hiff
    · rw [ends_of_error (onWorld_of_error hx)] at hcalled
      rw [ends_of_error (bind_of_error (onWorld_of_error hx))]
      refine .inl ⟨hfine.2 ⟨hquiet, fun value world'' hx' => ?_⟩, hcalled⟩
      cases hx.symm.trans hx'
  · have hnot : ¬ fine' := fun hgood => hloud (hfine.1 hgood).1
    rw [ends_bind]
    apply hcalled.mono
    · intro value shared' hbad
      apply (hbehind value shared' hbad).mono
      · exact fun _ _ hafter => .inr ⟨hnot, hafter⟩
      · exact fun _ _ hafter => .inr ⟨hnot, hafter⟩
    · exact fun _ _ hafter => .inr ⟨hnot, hafter⟩

theorem improve_ends (hmemory : controller.memoryService = recorder.service)
    (hrunner : AppendOnly recorder controller.selfImprovementRunner) {shared : Shared σ}
    (hstep : InStep recorder world shared) :
    Ends (fun _ => Tracks recorder world (ImprovementsListed recorder controller shared.world))
      (fun _ => Tracks recorder world (ImprovementsListed recorder controller shared.world))
      (improve controller) shared := by
  apply tracks_onWorld hrunner
    (fun improvement world' => ∀ result ∈ improvement, ∀ approved,
      result.adaptationsApproved = .ok approved → ¬ recorder.BreaksOff approved world')
    hstep (fun _ _ _ hcalled => storeApproved_ends hmemory hcalled)
    (storeApproved_keeps_behind hmemory)
  constructor
  · refine fun hlisted => ⟨hlisted.quiet, ?_⟩
    rintro value world' hx result hmem approved
    rw [Option.mem_def] at hmem
    exact hlisted.whole result world' approved (hmem ▸ hx)
  · rintro ⟨hquiet, hwhole⟩
    exact ⟨hquiet, fun result world' approved hx => hwhole _ world' hx result rfl approved⟩

/-! ### The run -/

/-- The engines and the improvement runner reach the store through its writes, which only add to it. -/
structure AppendOnlyEngines (recorder : Recorder σ T)
    (controller : OrchestrationController σ T P H R (Iteration Improvement)) : Prop where
  planning : ∀ tasks, AppendOnly recorder (controller.planningEngine tasks)
  execution : ∀ plan handlers stopOnFailure,
    AppendOnly recorder (controller.executionEngine plan handlers stopOnFailure)
  improvement : AppendOnly recorder controller.selfImprovementRunner

/-- The run calls its improvement runner in this world. -/
def ReachesImproving {A : Type} (controller : OrchestrationController σ T P H R A)
    (request : OrchestrationRequest H) (world world₃ : σ) : Prop :=
  ∃ report ids, Reflected controller request world report ⟨world₃, ids⟩

/-- The engines and the improvement runner store nothing when the run calls them, and the batch of
improvements does not break off. -/
structure ListsStored (recorder : Recorder σ T)
    (controller : OrchestrationController σ T P H R (Iteration Improvement))
    (request : OrchestrationRequest H) (world : σ) : Prop where
  planning : StoresNothing recorder (controller.planningEngine (defaultTasks request)) world
  executing : ∀ plan world₁, Planned controller request world plan world₁ →
    StoresNothing recorder (executionCalls controller request plan) world₁
  improving : ∀ world₃, ReachesImproving controller request world world₃ →
    ImprovementsListed recorder controller world₃

theorem AppendOnly.retry {call : EStateM Raised σ α} (h : AppendOnly recorder call) (retries : ℕ) :
    AppendOnly recorder (retry isRetried call retries) := by
  intro s
  have hkeeps : Keeps (fun s' => recorder.stored s <+: recorder.stored s') call :=
    fun s' hs' => (h s').mono (fun _ _ hafter => hs'.trans hafter) fun _ _ hafter => hs'.trans hafter
  exact hkeeps.retry retries s List.prefix_rfl

theorem lifecycleAfterExecuting_keeps_behind
    (hmemory : controller.memoryService = recorder.service)
    (hengines : AppendOnlyEngines recorder controller) (request : OrchestrationRequest H)
    (report : R) :
    Keeps (Behind recorder world) (lifecycleAfterExecuting controller request report) := by
  apply (keeps_observing _).bind
  intro _
  apply (reflect_keeps (hmemory ▸ remember_keeps_behind) (hmemory ▸ getRecent_keeps_behind _)
    request report).bind
  intro _
  exact (improve_keeps_behind hmemory hengines.improvement).bind fun _ => keeps_pure _

theorem lifecycleAfterExecuting_ends_inStep
    (hmemory : controller.memoryService = recorder.service)
    (hengines : AppendOnlyEngines recorder controller) (request : OrchestrationRequest H)
    (report : R) {shared : Shared σ} (hstep : InStep recorder world shared) {fine : Prop}
    (hfine : fine ↔ ∀ summary,
      controller.reports.validateExecutionReport report shared.world = .ok summary →
        ∀ reflection shared', reflect controller request report shared = .ok reflection shared' →
          ImprovementsListed recorder controller shared'.world) :
    Ends (fun _ => Tracks recorder world fine) (fun _ => Tracks recorder world fine)
      (lifecycleAfterExecuting controller request report) shared := by
  rw [lifecycleAfterExecuting]
  rcases hvalid : controller.reports.validateExecutionReport report shared.world with error | summary
  · rw [hvalid] at hfine
    rw [ends_of_error (bind_of_error (observing_of_error hvalid))]
    refine .inl ⟨hfine.2 ?_, hstep⟩
    intro _ hnone
    cases hnone
  have hreflect := reflect_keeps (hmemory ▸ remember_keeps_inStep)
    (hmemory ▸ getRecent_keeps_inStep _) request report shared hstep
  rw [ends_congr (bind_of_ok (observing_of_ok hvalid))]
  rcases hx : reflect controller request report shared with ⟨reflection, shared'⟩ | ⟨error, shared'⟩
  · rw [ends_of_ok hx] at hreflect
    have hlisted : ImprovementsListed recorder controller shared'.world ↔ fine := by
      rw [hfine]
      constructor
      · intro hlisted _ _ _ _ hx'
        cases hx.symm.trans hx'
        exact hlisted
      · exact fun hall => hall summary hvalid reflection shared' hx
    rw [ends_congr (bind_of_ok hx), ends_bind]
    apply (improve_ends hmemory hengines.improvement hreflect).mono
    · exact fun _ _ hafter => tracks_of_iff hafter hlisted
    · exact fun _ _ hafter => tracks_of_iff hafter hlisted
  · rw [ends_of_error hx] at hreflect
    rw [ends_of_error (bind_of_error hx)]
    refine .inl ⟨hfine.2 fun _ _ _ _ hx' => ?_, hreflect⟩
    cases hx.symm.trans hx'

theorem lifecycleAfterPlanning_keeps_behind
    (hmemory : controller.memoryService = recorder.service)
    (hengines : AppendOnlyEngines recorder controller) (request : OrchestrationRequest H) (plan : P) :
    Keeps (Behind recorder world) (lifecycleAfterPlanning controller request plan) := by
  apply ((hengines.execution _ _ _).retry _).keeps_behind.bind
  rintro (_ | report)
  · exact keeps_pure _
  · exact lifecycleAfterExecuting_keeps_behind hmemory hengines request report

theorem lifecycle_tracks (hmemory : controller.memoryService = recorder.service)
    (hengines : AppendOnlyEngines recorder controller) (request : OrchestrationRequest H) (world : σ) :
    Ends (fun _ => Tracks recorder world (ListsStored recorder controller request world))
      (fun _ => Tracks recorder world (ListsStored recorder controller request world))
      (lifecycle controller request) ⟨world, []⟩ := by
  have hstart : InStep recorder world ⟨world, []⟩ := ⟨[], (List.append_nil _).symm, rfl⟩
  apply tracks_onWorld (hengines.planning _) (fun plan world₁ => ∀ p ∈ plan,
    StoresNothing recorder (executionCalls controller request p) world₁
      ∧ ∀ report world₂, executionCalls controller request p world₁ = .ok report world₂ →
        ∀ r ∈ report, ∀ summary,
          controller.reports.validateExecutionReport r world₂ = .ok summary → ∀ reflection shared',
            reflect controller request r ⟨world₂, []⟩ = .ok reflection shared' →
              ImprovementsListed recorder controller shared'.world) hstart
  · rintro (_ | plan) world₁ _ hplanned
    · exact .inl ⟨nofun, hplanned⟩
    · apply tracks_onWorld ((hengines.execution _ _ _).retry _) (fun report world₂ => ∀ r ∈ report,
        ∀ summary, controller.reports.validateExecutionReport r world₂ = .ok summary →
          ∀ reflection shared', reflect controller request r ⟨world₂, []⟩ = .ok reflection shared' →
            ImprovementsListed recorder controller shared'.world) hplanned
      · rintro (_ | report) world₂ _ hexecuted
        · exact .inl ⟨nofun, hexecuted⟩
        · apply lifecycleAfterExecuting_ends_inStep hmemory hengines request report hexecuted
          exact ⟨fun h => h report rfl, fun h r hr => Option.some.inj hr ▸ h⟩
      · rintro (_ | report)
        · exact keeps_pure _
        · exact lifecycleAfterExecuting_keeps_behind hmemory hengines request report
      · exact ⟨fun h => h plan rfl, fun h p hp => Option.some.inj hp ▸ h⟩
  · rintro (_ | plan)
    · exact keeps_pure _
    · exact lifecycleAfterPlanning_keeps_behind hmemory hengines request plan
  · constructor
    · rintro ⟨hplanning, hexecuting, himproving⟩
      refine ⟨hplanning, ?_⟩
      rintro _ world₁ hplan plan rfl
      refine ⟨hexecuting plan world₁ hplan, ?_⟩
      rintro _ world₂ hexecute report rfl summary hvalid reflection shared' hreflect
      exact himproving _ ⟨report, _, world₂, ⟨⟨plan, world₁, hplan, hexecute⟩, summary, hvalid⟩,
        reflection, hreflect⟩
    · rintro ⟨hplanning, hrest⟩
      refine ⟨hplanning, fun plan world₁ hplan => (hrest _ world₁ hplan plan rfl).1, ?_⟩
      rintro world₃ ⟨report, ids, world₂, ⟨⟨plan, world₁, hplan, hexecute⟩, summary, hvalid⟩,
        reflection, hreflect⟩
      exact (hrest _ world₁ hplan plan rfl).2 _ world₂ hexecute report rfl summary hvalid reflection _
        hreflect

end Run

/-- What a run returns, if it returns. -/
theorem run_tracks {recorder : Recorder σ T}
    {controller : OrchestrationController σ T P H R (Iteration Improvement)}
    (hmemory : controller.memoryService = recorder.service)
    (hengines : AppendOnlyEngines recorder controller) {request : OrchestrationRequest H} {world : σ}
    {result : OrchestrationResult P R (Iteration Improvement)} {s : RunState σ}
    (hrun : run controller request world = .ok result s) :
    (∃ new, recorder.stored s.shared.world = recorder.stored world ++ new
        ∧ result.memoryRecordIds = new.map Recorder.idValue)
      ↔ ListsStored recorder controller request world := by
  have hend := run_lifecycle controller request world
  have htracks := lifecycle_tracks hmemory hengines request world
  rw [hrun] at hend
  generalize hlife : lifecycle controller request ⟨world, []⟩ = outcome at hend
  cases hend with
  | failed => exact ((ends_of_error hlife).1 htracks).iff
  | answeredNone => exact ((ends_of_ok hlife).1 htracks).iff
  | finished => exact ((ends_of_ok hlife).1 htracks).iff

/-- **The list of ids is returned and is that of the records stored in the run exactly if no engine stores
on its own, the batch of improvements does not break off, and the run does not raise.** -/
theorem run_ids_iff (recorder : Recorder σ T)
    (controller : OrchestrationController σ T P H R (Iteration Improvement))
    (hmemory : controller.memoryService = recorder.service)
    (hengines : AppendOnlyEngines recorder controller) (request : OrchestrationRequest H) (world : σ) :
    (∃ result s, run controller request world = .ok result s
      ∧ ∃ new, recorder.stored s.shared.world = recorder.stored world ++ new
        ∧ result.memoryRecordIds = new.map Recorder.idValue)
      ↔ ListsStored recorder controller request world ∧ EachSpeaks controller request world
        ∧ StatusReadable controller request world := by
  rw [← run_returns_iff]
  constructor
  · rintro ⟨result, s, hrun, hlisted⟩
    exact ⟨(run_tracks hmemory hengines hrun).1 hlisted, result, s, hrun⟩
  · rintro ⟨hlists, result, s, hrun⟩
    exact ⟨result, s, hrun, (run_tracks hmemory hengines hrun).2 hlists⟩

/-! ### A batch that breaks off -/

/-- A store that takes so many records. -/
def sampleRecorder (capacity : ℕ) : Recorder (List RecordId) Unit where
  stored records := records
  write call records :=
    if records.length < capacity then
      .ok (Memory.nextId call.type records.length)
        (records ++ [Memory.nextId call.type records.length])
    else .error (.other "No space left on device") records
  getRecent _ := (fun records => records.length) <$> get
  write_stores call records := by
    by_cases hroom : records.length < capacity <;> simp [Ends, hroom]
  getRecent_reads _ _ := rfl

/-- A controller on such a store, whose improvement runner approves two improvements. -/
def recordingController (capacity : ℕ) :
    OrchestrationController (List RecordId) Unit Unit Unit Unit (Iteration Improvement) where
  planningEngine _ := pure (some ())
  executionEngine _ _ _ := pure (some ())
  reports := sampleReports [] 0 0
  memoryService := (sampleRecorder capacity).service
  selfImprovementRunner := pure (some { adaptationsApproved := .ok {
    items := [.other "first", .other "second"], broken := none } })
  stopOnFailure := true
  reflectionLimit := 25

theorem recordingController_engines (capacity : ℕ) :
    AppendOnlyEngines (sampleRecorder capacity) (recordingController capacity) where
  planning _ _ := List.prefix_rfl
  execution _ _ _ _ := List.prefix_rfl
  improvement _ := List.prefix_rfl

theorem recordingController_ids_iff : (∃ result s,
    run (recordingController 4) sampleRequest [] = .ok result s
      ∧ ∃ new, (sampleRecorder 4).stored s.shared.world = (sampleRecorder 4).stored [] ++ new
        ∧ result.memoryRecordIds = new.map Recorder.idValue)
      ↔ ListsStored (sampleRecorder 4) (recordingController 4) sampleRequest []
        ∧ EachSpeaks (recordingController 4) sampleRequest []
        ∧ StatusReadable (recordingController 4) sampleRequest [] :=
  run_ids_iff (sampleRecorder 4) (recordingController 4) rfl (recordingController_engines 4)
    sampleRequest []

/-- The store and the list when the improvement runner is called. -/
def twoRecorded : Shared (List RecordId) where
  world := [Memory.nextId .execution 0, Memory.nextId .decision 1]
  memoryRecordIds := [.str (Memory.nextId .execution 0), .str (Memory.nextId .decision 1)]

theorem reflected_recording :
    Reflected (recordingController 3) sampleRequest [] () twoRecorded :=
  ⟨[], ⟨⟨(), [], rfl, rfl⟩, _, rfl⟩, _, rfl⟩

/-- The third record is the last one that fits: the first improvement is stored, and the second is not. -/
theorem batch_breaks_off : (sampleRecorder 3).BreaksOff
    { items := [.other "first", .other "second"], broken := none } twoRecorded.world := by
  refine ⟨_, _, rfl, ?_⟩
  rintro ⟨⟨id, records, hwrite, _⟩, _⟩
  cases hwrite

/-- The id of the first improvement is not in the list. -/
theorem run_loses_an_id : ∃ result s,
    run (recordingController 3) sampleRequest [] = .ok result s
      ∧ ¬ ∃ new, (sampleRecorder 3).stored s.shared.world = (sampleRecorder 3).stored [] ++ new
        ∧ result.memoryRecordIds = new.map Recorder.idValue := by
  have himprove : improve (recordingController 3) twoRecorded
      = .error (.other "No space left on device") _ := rfl
  have hlifecycle := reflected_recording.lifecycle_eq.trans (bind_of_error himprove)
  obtain ⟨result, s, hrun⟩ := (run_returns_iff (recordingController 3) sampleRequest []).2
    ⟨(lifecycle_speaks_iff _ _ _).1 ((ends_of_error hlifecycle).2 ⟨_, rfl⟩),
      fun _ _ himproved => by cases hlifecycle.symm.trans himproved.lifecycle_eq⟩
  refine ⟨result, s, hrun, ?_⟩
  rw [run_tracks rfl (recordingController_engines 3) hrun]
  exact fun hlists =>
    (hlists.improving _ ⟨(), _, reflected_recording⟩).whole _ _ _ rfl rfl batch_breaks_off

end PersonalDevin.Orchestration
