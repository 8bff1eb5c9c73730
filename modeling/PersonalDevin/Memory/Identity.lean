import PersonalDevin.Lib.Numbering
import PersonalDevin.Memory.Contract

/-!
# The ids of memory records

An id is made of the number of records in its stream, which a call reads in one step, and is used in a
later step that appends the record. Each stream is then numbered by its length: the ids stay distinct,
and an id finds its record, exactly if every record is appended under the id that its call would be
given at that moment.
-/

namespace PersonalDevin.Memory

open Lib

variable {T C : Type} [Timestamp T]

/-- In every stream the ids are distinct, and an id finds its record. -/
def Identified (s : System C T) : Prop :=
  ∀ (now : T) type, ∃ records, getAll now s.streams type = some records
    ∧ (records.map MemoryRecord.id).Nodup
    ∧ ∀ record ∈ records, getById now s.streams record.id = some (some record)

/-- A record is appended under the id that its call would be given now. -/
def Fresh (s : System C T) : ServiceAction C T → Prop
  | .append client now => ∀ pending ∈ s.pending client,
      (StoredPayload.ofFields (pending.record now).toDict).isSome = true →
        pending.id = nextId pending.type (s.streams pending.type).length
  | .read _ _ _ => True

/-! ### One stream as a numbered list -/

/-- The text of an id, as a payload has it. -/
def idEntry (id : RecordId) : Option Value := some (.str id.val)

theorem idEntry_injective : Function.Injective idEntry := by
  intro id id' h
  exact Subtype.ext (Value.str.inj (Option.some.inj h))

def numberOf (type : MemoryType) (existing : ℕ) : Option Value := idEntry (nextId type existing)

theorem numberOf_injective (type : MemoryType) : Function.Injective (numberOf type) :=
  fun _ _ h => (nextId_injective (idEntry_injective h)).2

/-- A stream as a list of the ids of its payloads. -/
def numbering (type : MemoryType) (s : System C T) : Numbering C (Option Value) where
  log := (s.streams type).map fun payload => payload.fields.get? "id"
  held := fun client =>
    heldAt PendingRecord.type (fun pending => idEntry pending.id) type (s.pending client)

/-- What a step does to the numbering of a stream. -/
def draw (type : MemoryType) (s : System C T) : ServiceAction C T → Draw C
  | .read client call now =>
      if s.takes client call now = true ∧ call.type = type then .take client else .idle
  | .append client now =>
      match s.pending client with
      | none => .idle
      | some pending =>
          if pending.type = type then
            match StoredPayload.ofFields (pending.record now).toDict with
            | none => .drop client
            | some _ => .append client
          else .idle

theorem get?_id_of_toDict {record : MemoryRecord T} {payload : StoredPayload}
    (h : StoredPayload.ofFields record.toDict = some payload) :
    payload.fields.get? "id" = idEntry record.id := by
  obtain ⟨stored, ⟨_, _, hstored⟩, hread⟩ := fromDict_toDict h
  rw [get?_id_of_fromDict (hread Timestamp.min), hstored]
  rfl

section Numbering

variable [DecidableEq C]

theorem numbering_step (type : MemoryType) (s : System C T) (action : ServiceAction C T) :
    numbering type (s.serviceStep action)
      = (numbering type s).step (numberOf type) (draw type s action) := by
  generalize hs' : s.serviceStep action = s'
  have hstep := hs' ▸ s.serviceStep_cases action
  cases hstep with
  | @refused client call now hrefused =>
      simp only [draw, hrefused, Bool.false_eq_true, false_and, if_false, Numbering.step]
  | @idle client now hfree => simp only [draw, hfree, Numbering.step]
  | @taken client call now data existing hfree hdata hread =>
      have htakes : s.takes client call now = true := by
        simp [System.takes, hfree, hdata, hread]
      by_cases htype : call.type = type
      · subst htype
        simp only [draw, htakes, and_self, if_true, Numbering.step]
        have hheld := heldAt_self PendingRecord.type (fun pending => idEntry pending.id)
          (call.pending existing.length data)
        simp only [numbering, heldAt_update, List.length_map, ← length_getAll hread]
        exact congrArg (Numbering.mk _) (congrArg (Function.update _ client) hheld)
      · have hheld : heldAt PendingRecord.type (fun pending => idEntry pending.id) type
            (s.pending client) = none := by rw [hfree]; rfl
        simp only [draw, htype, and_false, if_false, Numbering.step]
        simp only [numbering, heldAt_update, heldAt_of_ne PendingRecord.type
          (fun pending => idEntry pending.id) (call.pending existing.length data) htype,
          update_heldAt_none hheld]
  | @raised client now pending hpending hstored =>
      by_cases htype : pending.type = type
      · simp only [draw, hpending, htype, if_true, hstored, Numbering.step]
        simp only [numbering, heldAt_update]
        rfl
      · have hheld : heldAt PendingRecord.type (fun pending => idEntry pending.id) type
            (s.pending client) = none := by rw [hpending, heldAt_of_ne _ _ _ htype]
        simp only [draw, hpending, htype, if_false, Numbering.step, numbering, heldAt_update]
        exact congrArg (Numbering.mk _) (update_heldAt_none hheld)
  | @saved client now pending payload hpending hstored =>
      by_cases htype : pending.type = type
      · subst htype
        have hheld : (numbering pending.type s).held client = some (idEntry pending.id) := by
          show heldAt _ _ pending.type (s.pending client) = _
          rw [hpending, heldAt_self]
        simp only [draw, hpending, if_true, hstored, Numbering.step, hheld]
        simp only [numbering, heldAt_update, Function.update_self, List.map_append,
          List.map_singleton, get?_id_of_toDict hstored]
        rfl
      · have hheld : heldAt PendingRecord.type (fun pending => idEntry pending.id) type
            (s.pending client) = none := by rw [hpending, heldAt_of_ne _ _ _ htype]
        have hne : type ≠ pending.type := fun heq => htype heq.symm
        simp only [draw, hpending, htype, if_false, Numbering.step, numbering, heldAt_update,
          Function.update_of_ne hne]
        exact congrArg (Numbering.mk _) (update_heldAt_none hheld)

omit [Timestamp T] [DecidableEq C] in
theorem numbering_held {s : System C T} {client : C} {pending : PendingRecord T}
    (hpending : s.pending client = some pending) :
    (numbering pending.type s).held client = some (idEntry pending.id) := by
  show heldAt _ _ pending.type (s.pending client) = _
  rw [hpending, heldAt_self]

omit [DecidableEq C] in
theorem fresh_iff (s : System C T) (action : ServiceAction C T) :
    Fresh s action
      ↔ ∀ type, Numbering.Fresh (numberOf type) (numbering type s) (draw type s action) := by
  cases action with
  | read client call now =>
      refine iff_of_true trivial fun type => ?_
      simp only [draw]
      split <;> trivial
  | append client now =>
      rcases hpending : s.pending client with _ | pending
      · refine iff_of_true (fun _ hmem => nomatch hpending ▸ hmem) fun type => ?_
        simp only [draw, hpending]
        trivial
      · rcases hstored : StoredPayload.ofFields (pending.record now).toDict with _ | payload
        · refine iff_of_true (fun other hmem hsome => ?_) fun type => ?_
          · obtain rfl : pending = other := Option.some.inj (hpending.symm.trans hmem)
            rw [hstored] at hsome
            cases hsome
          · simp only [draw, hpending, hstored]
            split <;> trivial
        · have hlength : (numbering pending.type s).log.length
              = (s.streams pending.type).length := List.length_map _
          constructor
          · intro hfresh type
            by_cases htype : pending.type = type
            · subst htype
              simp only [draw, hpending, hstored, if_true]
              intro n hn
              rw [numbering_held hpending] at hn
              rw [hlength, ← Option.some.inj hn, hfresh pending hpending (hstored ▸ rfl)]
              rfl
            · simp only [draw, hpending, htype, if_false]
              trivial
          · intro hfresh other hmem _
            obtain rfl : pending = other := Option.some.inj (hpending.symm.trans hmem)
            have happend := hfresh pending.type
            simp only [draw, hpending, hstored, if_true] at happend
            have hnumber := happend _ (numbering_held hpending)
            rw [hlength] at hnumber
            exact idEntry_injective hnumber

theorem run_nodup_iff (actions : List (ServiceAction C T)) :
    (∀ type, (numbering type (actions.foldl System.serviceStep System.start)).log.Nodup)
      ↔ EachStep System.serviceStep Fresh System.start actions := by
  rw [eachStep_congr fresh_iff, eachStep_forall]
  apply forall_congr'
  intro type
  rw [eachStep_project (numbering_step type) (fun _ _ => Iff.rfl),
    project_foldl (numbering_step type)]
  exact Numbering.nodup_iff_fresh (numberOf_injective type) _

end Numbering

/-! ### Finding a record by its id -/

/-- The invariant of a store that only the service writes: the ids are those that `_next_id` makes. -/
structure Named (s : System C T) : Prop where
  contract : Contract s
  ids : ∀ type, ∀ payload ∈ s.streams type, ∃ n, payload.fields.get? "id" = numberOf type n
  pending : ∀ client, ∀ pending ∈ s.pending client, ∃ n, pending.id = nextId pending.type n

theorem Named.serviceStep [DecidableEq C] {s s' : System C T} (h : Named s)
    {action : ServiceAction C T} (hstep : s.ServiceStep action s') : Named s' := by
  refine ⟨h.contract.serviceStep hstep, ?_, ?_⟩
  · cases hstep with
    | refused => exact h.ids
    | idle => exact h.ids
    | taken => exact h.ids
    | raised => exact h.ids
    | @saved client now pending payload hpending hstored =>
        intro type other hmem
        rcases mem_streams_concat.1 hmem with hold | ⟨rfl, rfl⟩
        · exact h.ids type other hold
        · obtain ⟨n, hn⟩ := h.pending client pending hpending
          exact ⟨n, (get?_id_of_toDict hstored).trans (congrArg idEntry hn)⟩
  · cases hstep with
    | refused => exact h.pending
    | idle => exact h.pending
    | taken =>
        apply forall_held_update h.pending
        rintro _ ⟨⟩
        exact ⟨_, rfl⟩
    | raised => exact forall_held_update h.pending nofun
    | saved => exact forall_held_update h.pending nofun

theorem named_run [DecidableEq C] (actions : List (ServiceAction C T)) :
    Named (actions.foldl System.serviceStep System.start) :=
  foldl_invariant (fun s action h => h.serviceStep (s.serviceStep_cases action))
    ⟨contract_start, fun _ _ hmem => absurd hmem List.not_mem_nil, nofun⟩ actions

theorem Named.id_eq {s : System C T} (h : Named s) {now : T} {type : MemoryType}
    {records : List (MemoryRecord T)} (hrecords : getAll now s.streams type = some records)
    {record : MemoryRecord T} (hmem : record ∈ records) : ∃ n, record.id = nextId type n := by
  obtain ⟨payload, hpayload, hread⟩ := exists_of_mem_right (mapM_eq_some_iff.1 hrecords) hmem
  obtain ⟨n, hn⟩ := h.ids type payload hpayload
  exact ⟨n, idEntry_injective ((get?_id_of_fromDict hread).symm.trans hn)⟩

omit [Timestamp T] in
theorem find?_id {records : List (MemoryRecord T)} (hnodup : (records.map MemoryRecord.id).Nodup)
    {record : MemoryRecord T} (hmem : record ∈ records) :
    records.find? (·.id = record.id) = some record := by
  induction records with
  | nil => cases hmem
  | cons first rest ih =>
      rw [List.map_cons, List.nodup_cons] at hnodup
      rcases List.mem_cons.1 hmem with rfl | hrest
      · exact List.find?_cons_of_pos (decide_eq_true rfl)
      · have hne : first.id ≠ record.id := fun heq =>
          hnodup.1 (heq ▸ List.mem_map_of_mem hrest)
        rw [List.find?_cons_of_neg (by simpa using hne)]
        exact ih hnodup.2 hrest

theorem Named.findIn {s : System C T} (h : Named s) {now : T} {type : MemoryType}
    {records : List (MemoryRecord T)} (hrecords : getAll now s.streams type = some records)
    (hnodup : (records.map MemoryRecord.id).Nodup) {record : MemoryRecord T}
    (hmem : record ∈ records) {types : List MemoryType} (htype : type ∈ types) :
    Memory.findIn now s.streams record.id types = some (some record) := by
  induction types with
  | nil => cases htype
  | cons first rest ih =>
      by_cases hfirst : first = type
      · subst hfirst
        simp only [Memory.findIn, hrecords, find?_id hnodup hmem]
      · obtain ⟨others, hothers, _⟩ := h.contract.sound now first
        have hnone : others.find? (·.id = record.id) = none := by
          refine List.find?_eq_none.2 fun other hother heq => hfirst ?_
          obtain ⟨n, hn⟩ := h.id_eq hothers hother
          obtain ⟨m, hm⟩ := h.id_eq hrecords hmem
          exact (nextId_injective (hn.symm.trans ((of_decide_eq_true heq).trans hm))).1
        simp only [Memory.findIn, hothers, hnone]
        exact ih ((List.mem_cons.1 htype).resolve_left fun heq => hfirst heq.symm)

theorem Named.identified_iff {s : System C T} (h : Named s) :
    Identified s ↔ ∀ type, (numbering type s).log.Nodup := by
  have hlog : ∀ (now : T) type records, getAll now s.streams type = some records →
      (numbering type s).log = (records.map MemoryRecord.id).map idEntry := by
    intro now type records hrecords
    rw [List.map_map]
    exact map_eq_of_paired (mapM_eq_some_iff.1 hrecords) fun _ _ hread => get?_id_of_fromDict hread
  constructor
  · intro hidentified type
    obtain ⟨records, hrecords, hnodup, _⟩ := hidentified Timestamp.min type
    rw [hlog _ type records hrecords]
    exact hnodup.map idEntry_injective
  · intro hnodup now type
    obtain ⟨records, hrecords, _⟩ := h.contract.sound now type
    have hids : (records.map MemoryRecord.id).Nodup :=
      List.Nodup.of_map idEntry (hlog now type records hrecords ▸ hnodup type)
    exact ⟨records, hrecords, hids, fun record hmem =>
      h.findIn hrecords hids hmem (by cases type <;> decide)⟩

/-- **The ids stay distinct exactly if every record is appended under the id that is next.** -/
theorem run_identified_iff [DecidableEq C] (actions : List (ServiceAction C T)) :
    Identified (actions.foldl System.serviceStep System.start)
      ↔ EachStep System.serviceStep Fresh System.start actions :=
  (named_run actions).identified_iff.trans (run_nodup_iff actions)

/-- Two clients read the task stream before either of them appends to it. -/
def twoTasks : List (ServiceAction Bool Instant) :=
  [.read false (.logTask "first" "completed" none none none) .mk,
    .read true (.logTask "second" "completed" none none none) .mk,
    .append false .mk, .append true .mk]

theorem two_clients_share_an_id :
    (getAll Instant.mk (twoTasks.foldl System.serviceStep System.start).streams .task).map
        (fun records => records.map fun record => record.id.val)
      = some ["task-000001", "task-000001"]
      ∧ ¬ Identified (twoTasks.foldl System.serviceStep System.start) := by
  have hids : (getAll Instant.mk (twoTasks.foldl System.serviceStep System.start).streams .task).map
      (fun records => records.map fun record => record.id.val)
      = some ["task-000001", "task-000001"] := by decide
  refine ⟨hids, fun hidentified => ?_⟩
  obtain ⟨records, hrecords, hnodup, _⟩ := hidentified .mk .task
  rw [hrecords] at hids
  have htexts := hnodup.map Subtype.val_injective
  rw [List.map_map] at htexts
  have hsame : (records.map fun record => record.id.val) = ["task-000001", "task-000001"] :=
    Option.some.inj hids
  exact absurd (hsame ▸ htexts) (by decide)

end PersonalDevin.Memory
