import PersonalDevin.Memory.Contract

/-!
# Calls without other clients

A call of the service between whose two steps no other client takes one. It returns its record and
leaves the streams with that record at the end of the stream of its type, or it raises and leaves them as
they were.
-/

namespace PersonalDevin.Memory

open Lib

variable {T C : Type} [Timestamp T]

/-- A whole call of the service, or nothing where it raises. -/
def perform (now : T) (call : ServiceCall T) (streams : Streams) :
    Option (MemoryRecord T × Streams) := do
  let data ← call.data
  let existing ← getAll now streams call.type
  let record := (call.pending existing.length data).record now
  let streams ← streams.append call.type record.toDict
  return (record, streams)

/-- The streams after a call that has stored a payload. -/
def Streams.push (streams : Streams) (type : MemoryType) (payload : StoredPayload) : Streams :=
  Function.update streams type (streams type ++ [payload])

/-- **What a call stores.** -/
theorem perform_eq_some {now : T} {call : ServiceCall T} {streams streams' : Streams}
    {record : MemoryRecord T} (h : perform now call streams = some (record, streams')) :
    ∃ data payload, call.data = some data
      ∧ record = (call.pending (streams call.type).length data).record now
      ∧ StoredPayload.ofFields record.toDict = some payload
      ∧ streams' = streams.push call.type payload := by
  simp only [perform, Option.bind_eq_bind, Option.bind_eq_some_iff, Option.pure_def,
    Option.some.injEq, Prod.mk.injEq] at h
  obtain ⟨data, hdata, existing, hread, _, happend, rfl, rfl⟩ := h
  rw [Streams.append_eq, Option.map_eq_some_iff] at happend
  obtain ⟨payload, hpayload, rfl⟩ := happend
  rw [length_getAll hread] at hpayload ⊢
  exact ⟨data, payload, hdata, rfl, hpayload, rfl⟩

/-- A whole call is the two steps of a client that is free. -/
theorem perform_steps [DecidableEq C] (s : System C T) {client : C} (hfree : s.pending client = none)
    (now : T) (call : ServiceCall T) {record : MemoryRecord T} {streams : Streams}
    (h : perform now call s.streams = some (record, streams)) :
    (s.serviceStep (.read client call now)).serviceStep (.append client now)
      = { s with streams, saved := s.saved ++ [record] } := by
  simp only [perform, Option.bind_eq_bind, Option.bind_eq_some_iff, Option.pure_def,
    Option.some.injEq, Prod.mk.injEq] at h
  obtain ⟨data, hdata, existing, hread, streams', happend, rfl, rfl⟩ := h
  have hpending : Function.update (Function.update s.pending client
      (some (call.pending existing.length data))) client none = s.pending := by
    rw [Function.update_idem]
    exact Function.update_eq_self_iff.2 hfree.symm
  have htype : (call.pending existing.length data).type = call.type := rfl
  simp only [System.serviceStep, hfree, hdata, hread, Function.update_self, htype, happend, hpending]

/-- **A call that nothing interrupts** is what the clients' steps make of it: the read and the append of
the service, and below them the read and the replacement of the file. -/
theorem perform_refines {S : Type} [DecidableEq C] [DecidableEq S] (s : System C T) {client : C}
    (hfree : s.pending client = none) (now : T) (call : ServiceCall T) {record : MemoryRecord T}
    {streams : Streams} (h : perform now call s.streams = some (record, streams)) :
    (s.serviceStep (.read client call now)).serviceStep (.append client now)
        = { s with streams, saved := s.saved ++ [record] }
      ∧ ∀ (d : Directory S) (store : S), d.files = s.streams → d.locked store = none →
        ((d.step (.read store call.type record.toDict)).step (.replace store)).files = streams := by
  refine ⟨perform_steps s hfree now call h, fun d store hfiles hlocked => ?_⟩
  simp only [perform, Option.bind_eq_bind, Option.bind_eq_some_iff, Option.pure_def,
    Option.some.injEq, Prod.mk.injEq] at h
  obtain ⟨data, _, existing, _, streams', happend, rfl, rfl⟩ := h
  exact Directory.append_uninterrupted hlocked (hfiles.symm ▸ happend)

def idle : System Unit Instant := ⟨fun _ => [], fun _ => none, []⟩

def logTried : ServiceCall Instant := .logDecision "retry" "timeout" none

theorem perform_refines_idle : ∃ record streams,
    perform Instant.mk logTried idle.streams = some (record, streams)
      ∧ (idle.serviceStep (.read () logTried Instant.mk)).serviceStep (.append () Instant.mk)
        = { idle with streams, saved := [record] }
      ∧ ((Directory.step (.opened idle.streams) (.read () logTried.type record.toDict)).step
        (.replace ())).files = streams := by
  have hsome : (perform Instant.mk logTried idle.streams).isSome = true := by decide +kernel
  obtain ⟨⟨record, streams⟩, hperform⟩ := Option.isSome_iff_exists.1 hsome
  obtain ⟨hservice, hfile⟩ := perform_refines (S := Unit) idle rfl Instant.mk logTried hperform
  exact ⟨record, streams, hperform, hservice, hfile (.opened idle.streams) () rfl rfl⟩

/-! ### Counting payloads -/

def tally (p : StoredPayload → Bool) (streams : Streams) : ℕ :=
  (MemoryType.all.map fun type => (streams type).countP p).sum

theorem tally_push (p : StoredPayload → Bool) (streams : Streams) (type : MemoryType)
    (payload : StoredPayload) :
    tally p (streams.push type payload) = tally p streams + if p payload then 1 else 0 := by
  have hcount : ∀ other, (streams.push type payload other).countP p
      = (streams other).countP p + if other = type ∧ p payload then 1 else 0 := by
    intro other
    by_cases hother : other = type
    · subst hother
      rw [Streams.push, Function.update_self, List.countP_append, List.countP_singleton]
      simp only [true_and]
    · rw [Streams.push, Function.update_of_ne hother]
      simp only [hother, false_and, if_false, Nat.add_zero]
  simp only [tally, MemoryType.all, List.map_cons, List.map_nil, List.sum_cons, List.sum_nil, hcount]
  cases type <;> simp <;> omega

theorem tally_congr {p : StoredPayload → Bool} {streams streams' : Streams}
    (h : ∀ type, (streams type).Perm (streams' type)) : tally p streams = tally p streams' := by
  have hcount : (fun type => (streams type).countP p) = fun type => (streams' type).countP p := by
    funext type
    exact (h type).countP_eq p
  rw [tally, hcount]
  rfl

/-! ### What a payload is about -/

def StoredPayload.dataField (payload : StoredPayload) (key : String) : Option Value :=
  match payload.fields.get? "data" with
  | some (.dict data) => Fields.get? data key
  | _ => none

theorem dataField_of_stored {record : MemoryRecord T} {payload : StoredPayload}
    (h : StoredPayload.ofFields record.toDict = some payload) (key : String) :
    payload.dataField key = (record.data.get? key).bind Value.jsonRoundTrip := by
  obtain ⟨_, ⟨data, hentries, _⟩, _⟩ := fromDict_toDict h
  have hdata := Value.get?_jsonEntries (StoredPayload.ofFields_eq_some_iff.1 h) "data"
  have hget : record.toDict.get? "data" = some (.dict record.data) := by
    simp [MemoryRecord.toDict, Fields.get?, List.lookup_cons]
  rw [hget, Option.bind_some, Value.jsonRoundTrip, hentries] at hdata
  rw [StoredPayload.dataField, hdata]
  exact Value.get?_jsonEntries hentries key

/-- What a call says is decided. -/
def ServiceCall.decision : ServiceCall T → Option String
  | .logDecision decision _ _ => some decision
  | _ => none

theorem get?_decision_of_data {call : ServiceCall T} {data : Fields} (h : call.data = some data) :
    data.get? "decision" = call.decision.map .str := by
  cases call with
  | logExecution status totalTasks completedTasks failedTasks skippedTasks metadata =>
      obtain rfl := Option.some.inj h
      simp [Fields.get?, List.lookup_cons, ServiceCall.decision]
  | logTask taskId status output error skipReason =>
      obtain rfl := Option.some.inj h
      simp [Fields.get?, List.lookup_cons, ServiceCall.decision]
  | logFailure source error context =>
      obtain rfl := Option.some.inj h
      simp [Fields.get?, List.lookup_cons, ServiceCall.decision]
  | logDecision decision reason context =>
      obtain rfl := Option.some.inj h
      simp [Fields.get?, ServiceCall.decision]
  | recordExecution args =>
      simp only [ServiceCall.data, ExecutionArgs.data, Option.bind_eq_bind, Option.bind_eq_some_iff,
        Option.pure_def, Option.some.injEq] at h
      obtain ⟨_, _, _, _, _, _, _, _, _, _, rfl⟩ := h
      simp [Fields.get?, List.lookup_cons, ServiceCall.decision]

/-- The payload of a call tells what the call decides. -/
theorem dataField_decision {now : T} {call : ServiceCall T} {streams streams' : Streams}
    {record : MemoryRecord T} (h : perform now call streams = some (record, streams')) :
    ∃ payload, streams' = streams.push call.type payload
      ∧ payload.dataField "decision" = call.decision.map .str := by
  obtain ⟨data, payload, hdata, rfl, hpayload, rfl⟩ := perform_eq_some h
  refine ⟨payload, rfl, ?_⟩
  rw [dataField_of_stored hpayload]
  show (data.get? "decision").bind _ = _
  rw [get?_decision_of_data hdata]
  cases call.decision <;> rfl

end PersonalDevin.Memory
