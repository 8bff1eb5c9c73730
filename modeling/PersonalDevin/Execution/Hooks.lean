import PersonalDevin.Execution.Policy
import PersonalDevin.Lib.Effects
import Mathlib.Data.List.Sort

/-!
# The policy hook and its audit log

`execute_with_policy` around an engine, and `AuditLogger.write_record`. A record is written as one line
of JSON, and the log is the list of the values its lines denote. The engine works on the one copy of the
request that the record is made from later, so a run of the engine also says how it left that copy.
-/

namespace PersonalDevin.Execution

open Lib

/-- An exception: a class and a text, a refused request, or one whose own `str` raises another. -/
inductive Raised where
  | exception (className text : String)
  | policy (violation : PolicyViolation)
  | unprintable (className : String) (inner : Raised)

structure ExecutionError where
  type : String
  message : String

/-- The `error` of a failure record. -/
def ExecutionError.ofRaised : Raised → Except Raised ExecutionError
  | .exception className text => .ok ⟨className, text⟩
  | .policy violation => .ok ⟨"PolicyValidationError", violation.code ++ ":" ++ violation.text⟩
  | .unprintable _ inner => .error inner

def ExecutionError.toDict (error : ExecutionError) : Value :=
  .dict [("message", .str error.message), ("type", .str error.type)]

/-- What the interpreter does with the objects of a request: the value that a test of the type and
`str` see, `copy.deepcopy`, and the value that `json.dumps` writes. -/
structure Python (V : Type) where
  view : V → Value
  deepcopy : V → Except Raised V
  json : V → Except Raised Value

variable {V : Type}

namespace Python

variable (py : Python V)

def copyDict (request : List (String × V)) : Except Raised (List (String × V)) :=
  request.mapM fun (key, value) => return (key, ← py.deepcopy value)

/-- `json.dumps(request, sort_keys=True)`. -/
def jsonDict (request : List (String × V)) : Except Raised Value :=
  .dict <$> (request.insertionSort fun a b => a.1 ≤ b.1).mapM fun (key, value) =>
    return (key, ← py.json value)

def validate (policy : ExecutionPolicy) (request : List (String × V)) :
    Except PolicyViolation PolicyValidationResult :=
  PolicyValidator.validate (fun key => (request.lookup key).map py.view) policy

end Python

mutual

/-- `copy.deepcopy` of a value. The copy of another object is an object of its class. -/
def copyValue (copyObject : Bool → String → Except Raised (Bool × String)) :
    Value → Except Raised Value
  | .list items => .list <$> copyItems copyObject items
  | .tuple items => .tuple <$> copyItems copyObject items
  | .dict entries => .dict <$> copyEntries copyObject entries
  | .object truthy text => (fun copied => .object copied.1 copied.2) <$> copyObject truthy text
  | value => .ok value

def copyItems (copyObject : Bool → String → Except Raised (Bool × String)) :
    List Value → Except Raised (List Value)
  | [] => .ok []
  | item :: rest => do
      let item ← copyValue copyObject item
      let rest ← copyItems copyObject rest
      return item :: rest

def copyEntries (copyObject : Bool → String → Except Raised (Bool × String)) :
    List (String × Value) → Except Raised (List (String × Value))
  | [] => .ok []
  | (key, value) :: rest => do
      let value ← copyValue copyObject value
      let rest ← copyEntries copyObject rest
      return (key, value) :: rest

end

/-- `json.dumps` of a value, for what it raises on a value that it cannot write. -/
def dumpsValue (refused : Value → Raised) (value : Value) : Except Raised Value :=
  match value.jsonRoundTrip with
  | some written => .ok written.sortKeys
  | none => .error (refused value)

def Python.ofValues (copyObject : Bool → String → Except Raised (Bool × String))
    (refused : Value → Raised) : Python Value where
  view := id
  deepcopy := copyValue copyObject
  json := dumpsValue refused

mutual

/-- A value without other objects is copied as it is. -/
theorem copyValue_of_json {copyObject : Bool → String → Except Raised (Bool × String)} :
    ∀ {value : Value}, value.jsonRoundTrip.isSome → copyValue copyObject value = .ok value
  | .none, _ => rfl
  | .bool _, _ => rfl
  | .int _, _ => rfl
  | .float _ _, _ => rfl
  | .str _, _ => rfl
  | .list items, h => by
      rw [Value.jsonRoundTrip, Option.isSome_map] at h
      rw [copyValue, copyItems_of_json h]
      rfl
  | .tuple items, h => by
      rw [Value.jsonRoundTrip, Option.isSome_map] at h
      rw [copyValue, copyItems_of_json h]
      rfl
  | .dict entries, h => by
      rw [Value.jsonRoundTrip, Option.isSome_map] at h
      rw [copyValue, copyEntries_of_json h]
      rfl

theorem copyItems_of_json {copyObject : Bool → String → Except Raised (Bool × String)} :
    ∀ {items : List Value}, (Value.jsonItems items).isSome → copyItems copyObject items = .ok items
  | [], _ => rfl
  | item :: rest, h => by
      have hall := Value.isSome_jsonItems.1 h
      have hrest := Value.isSome_jsonItems.2 fun other hmem => hall other (List.mem_cons_of_mem _ hmem)
      rw [copyItems, copyValue_of_json (hall item List.mem_cons_self), copyItems_of_json hrest]
      rfl

theorem copyEntries_of_json {copyObject : Bool → String → Except Raised (Bool × String)} :
    ∀ {entries : Fields}, (Value.jsonEntries entries).isSome →
      copyEntries copyObject entries = .ok entries
  | [], _ => rfl
  | (key, value) :: rest, h => by
      have hall := Value.isSome_jsonEntries.1 h
      have hrest := Value.isSome_jsonEntries.2 fun other hmem => hall other (List.mem_cons_of_mem _ hmem)
      rw [copyEntries, copyValue_of_json (hall (key, value) List.mem_cons_self),
        copyEntries_of_json hrest]
      rfl

end

mutual

/-- What cannot be written cannot be written of its copy either. -/
theorem json_of_copyValue {copyObject : Bool → String → Except Raised (Bool × String)} :
    ∀ {value copied : Value}, copyValue copyObject value = .ok copied →
      copied.jsonRoundTrip.isSome → value.jsonRoundTrip.isSome
  | .none, _, _, _ => rfl
  | .bool _, _, _, _ => rfl
  | .int _, _, _, _ => rfl
  | .float _ _, _, _, _ => rfl
  | .str _, _, _, _ => rfl
  | .object _ _, _, h, hjson => by
      obtain ⟨_, _, rfl⟩ := except_map_eq_ok_iff.1 h
      cases hjson
  | .list _, _, h, hjson => by
      obtain ⟨items, hitems, rfl⟩ := except_map_eq_ok_iff.1 h
      rw [Value.jsonRoundTrip, Option.isSome_map] at hjson ⊢
      exact json_of_copyItems hitems hjson
  | .tuple _, _, h, hjson => by
      obtain ⟨items, hitems, rfl⟩ := except_map_eq_ok_iff.1 h
      rw [Value.jsonRoundTrip, Option.isSome_map] at hjson ⊢
      exact json_of_copyItems hitems hjson
  | .dict _, _, h, hjson => by
      obtain ⟨entries, hentries, rfl⟩ := except_map_eq_ok_iff.1 h
      rw [Value.jsonRoundTrip, Option.isSome_map] at hjson ⊢
      exact json_of_copyEntries hentries hjson

theorem json_of_copyItems {copyObject : Bool → String → Except Raised (Bool × String)} :
    ∀ {items copied : List Value}, copyItems copyObject items = .ok copied →
      (Value.jsonItems copied).isSome → (Value.jsonItems items).isSome
  | [], _, _, _ => rfl
  | _ :: _, _, h, hjson => by
      obtain ⟨item, hitem, h⟩ := except_bind_eq_ok_iff.1 h
      obtain ⟨rest, hrest, h⟩ := except_bind_eq_ok_iff.1 h
      obtain rfl := Except.ok.inj h
      have hall := List.forall_mem_cons.1 (Value.isSome_jsonItems.1 hjson)
      exact Value.isSome_jsonItems.2 (List.forall_mem_cons.2 ⟨json_of_copyValue hitem hall.1,
        Value.isSome_jsonItems.1 (json_of_copyItems hrest (Value.isSome_jsonItems.2 hall.2))⟩)

theorem json_of_copyEntries {copyObject : Bool → String → Except Raised (Bool × String)} :
    ∀ {entries copied : Fields}, copyEntries copyObject entries = .ok copied →
      (Value.jsonEntries copied).isSome → (Value.jsonEntries entries).isSome
  | [], _, _, _ => rfl
  | (_, _) :: _, _, h, hjson => by
      obtain ⟨value, hvalue, h⟩ := except_bind_eq_ok_iff.1 h
      obtain ⟨rest, hrest, h⟩ := except_bind_eq_ok_iff.1 h
      obtain rfl := Except.ok.inj h
      have hall := List.forall_mem_cons.1 (Value.isSome_jsonEntries.1 hjson)
      exact Value.isSome_jsonEntries.2 (List.forall_mem_cons.2 ⟨json_of_copyValue hvalue hall.1,
        Value.isSome_jsonEntries.1 (json_of_copyEntries hrest (Value.isSome_jsonEntries.2 hall.2))⟩)

end

inductive RecordStatus where
  | success
  | failure
  deriving DecidableEq

def RecordStatus.text : RecordStatus → String
  | success => "success"
  | failure => "failure"

structure ExecutionRecord (V : Type) where
  id : String
  timestamp : String
  input : List (String × V)
  output : Option V
  status : RecordStatus
  error : Option ExecutionError

/-- `to_dict`, under sorted keys. -/
def auditLine (id timestamp : String) (input output : Value) (status : RecordStatus)
    (error : Option ExecutionError) : Value :=
  .dict
    [("error", (error.map ExecutionError.toDict).getD .none),
     ("id", .str id),
     ("input", input),
     ("output", output),
     ("schema_version", .str "v1"),
     ("status", .str status.text),
     ("timestamp", .str timestamp)]

/-- The line of a record, or what `json.dumps` raises. -/
def ExecutionRecord.line (py : Python V) (record : ExecutionRecord V) : Except Raised Value := do
  let input ← py.jsonDict record.input
  let output ← match record.output with
    | some output => py.json output
    | none => pure .none
  return auditLine record.id record.timestamp input output record.status record.error

/-- What one call of the engine comes to. -/
structure EngineRun (V : Type) where
  request : List (String × V)
  result : Except Raised V

abbrev ExecutionEngine (V : Type) := List (String × V) → EngineRun V

/-- The lines of the audit file, and the requests that reached an engine. -/
structure Audit (V : Type) where
  lines : List Value
  invocations : List (List (String × V))

def Audit.write (audit : Audit V) (line : Value) : Audit V :=
  { audit with lines := audit.lines ++ [line] }

section
variable (py : Python V) (recordId : List (String × V) → String → Except Raised String)
  (timestamp : String)

def successLine (snapshot : List (String × V)) (output : V) : Except Raised Value := do
  let id ← recordId snapshot timestamp
  let copied ← py.deepcopy output
  ExecutionRecord.line py
    { id, timestamp, input := snapshot, output := some copied, status := .success, error := none }

def failureLine (snapshot : List (String × V)) (raised : Raised) : Except Raised Value := do
  let error ← ExecutionError.ofRaised raised
  let id ← recordId snapshot timestamp
  ExecutionRecord.line py
    { id, timestamp, input := snapshot, output := none, status := .failure, error := some error }

/-- The `except` clause. What it raises itself takes the place of what it caught. -/
def handleFailure (snapshot : List (String × V)) (raised : Raised) : EStateM Raised (Audit V) V :=
  fun audit =>
    match failureLine py recordId timestamp snapshot raised with
    | .ok line => .error raised (audit.write line)
    | .error inner => .error inner audit

def executeWithPolicy (engine : ExecutionEngine V) (request : List (String × V))
    (policy : ExecutionPolicy) : EStateM Raised (Audit V) V := fun audit =>
  match py.copyDict request with
  | .error raised => .error raised audit
  | .ok snapshot =>
      match py.validate policy snapshot with
      | .error violation => handleFailure py recordId timestamp snapshot (.policy violation) audit
      | .ok _ =>
          let run := engine snapshot
          let audit := { audit with invocations := audit.invocations ++ [snapshot] }
          match run.result with
          | .error raised => handleFailure py recordId timestamp run.request raised audit
          | .ok output =>
              match successLine py recordId timestamp run.request output with
              | .ok line => .ok output (audit.write line)
              | .error raised => handleFailure py recordId timestamp run.request raised audit

/-! ### What a call leaves in the log -/

/-- A field of an audit line. -/
def recorded (key : String) : Value → Option Value
  | .dict entries => Fields.get? entries key
  | _ => none

@[simp] theorem recorded_status (id timestamp : String) (input output : Value) (status : RecordStatus)
    (error : Option ExecutionError) :
    recorded "status" (auditLine id timestamp input output status error)
      = some (.str status.text) := rfl

@[simp] theorem recorded_input (id timestamp : String) (input output : Value) (status : RecordStatus)
    (error : Option ExecutionError) :
    recorded "input" (auditLine id timestamp input output status error) = some input := rfl

/-- One line was appended. It has the status `success` exactly if the call is to count as one, and for
its input the request. -/
def Recorded (request : List (String × V)) (success : Prop) (before after : Audit V) : Prop :=
  ∃ line, after.lines = before.lines ++ [line]
    ∧ (recorded "status" line = some (.str "success") ↔ success)
    ∧ ∃ input, py.jsonDict request = .ok input ∧ recorded "input" line = some input

/-- The request as it is left writes the JSON of the request as it was, and has a record id. -/
def Unchanged (request left : List (String × V)) : Prop :=
  (∃ input, py.jsonDict request = .ok input ∧ py.jsonDict left = .ok input)
    ∧ ∃ id, recordId left timestamp = .ok id

/-- Validation accepts the copy that the engine is to receive. -/
def Validated (request : List (String × V)) (policy : ExecutionPolicy) : Prop :=
  ∃ snapshot result, py.copyDict request = .ok snapshot ∧ py.validate policy snapshot = .ok result

def EngineReturns (engine : ExecutionEngine V) (request : List (String × V)) : Prop :=
  ∃ snapshot output, py.copyDict request = .ok snapshot ∧ (engine snapshot).result = .ok output

/-- One call in the log: one truthful record, and no use of the engine without a valid request. -/
structure Audited (engine : ExecutionEngine V) (request : List (String × V))
    (policy : ExecutionPolicy) (before after : Audit V) : Prop where
  recorded : Recorded py request (Validated py request policy ∧ EngineReturns py engine request)
    before after
  guarded : ¬ Validated py request policy → after.invocations = before.invocations

/-- What the result of an engine has to allow for its record to be written. -/
def ResultRecordable : Except Raised V → Prop
  | .ok output => ∃ copied written, py.deepcopy output = .ok copied ∧ py.json copied = .ok written
  | .error raised => ∃ error, ExecutionError.ofRaised raised = .ok error

/-- The request can be copied and written, the engine leaves it as it was, and what the engine returns
can be copied and written too. -/
def Recordable (engine : ExecutionEngine V) (request : List (String × V))
    (policy : ExecutionPolicy) : Prop :=
  ∃ snapshot, py.copyDict request = .ok snapshot ∧
    match py.validate policy snapshot with
    | .error _ => Unchanged py recordId timestamp request snapshot
    | .ok _ =>
        Unchanged py recordId timestamp request (engine snapshot).request
          ∧ ResultRecordable py (engine snapshot).result

variable {py recordId timestamp} {request left : List (String × V)} {audit : Audit V}

theorem not_recorded {success : Prop} {after : Audit V} (h : after.lines = audit.lines) :
    ¬ Recorded py request success audit after := by
  rintro ⟨line, happended, _⟩
  have hlength := congrArg List.length (h.symm.trans happended)
  simp at hlength

theorem recorded_write_iff {success : Prop} {line : Value} :
    Recorded py request success audit (audit.write line)
      ↔ (recorded "status" line = some (.str "success") ↔ success)
        ∧ ∃ input, py.jsonDict request = .ok input ∧ recorded "input" line = some input := by
  constructor
  · rintro ⟨line', happended, h⟩
    obtain rfl : line = line' := by simpa [Audit.write] using happended
    exact h
  · exact fun h => ⟨line, rfl, h⟩

theorem failureLine_eq_ok_iff {raised : Raised} {line : Value} :
    failureLine py recordId timestamp left raised = .ok line
      ↔ ∃ error id input, ExecutionError.ofRaised raised = .ok error
        ∧ recordId left timestamp = .ok id ∧ py.jsonDict left = .ok input
        ∧ line = auditLine id timestamp input .none .failure (some error) := by
  simp only [failureLine, ExecutionRecord.line, except_bind_eq_ok_iff, pure, Except.pure,
    Except.ok.injEq, exists_eq_left']
  constructor
  · rintro ⟨error, herror, id, hid, input, hinput, rfl⟩
    exact ⟨error, id, input, herror, hid, hinput, rfl⟩
  · rintro ⟨error, id, input, herror, hid, hinput, rfl⟩
    exact ⟨error, herror, id, hid, input, hinput, rfl⟩

theorem successLine_eq_ok_iff {output : V} {line : Value} :
    successLine py recordId timestamp left output = .ok line
      ↔ ∃ id copied input written, recordId left timestamp = .ok id
        ∧ py.deepcopy output = .ok copied ∧ py.jsonDict left = .ok input
        ∧ py.json copied = .ok written
        ∧ line = auditLine id timestamp input written .success none := by
  simp only [successLine, ExecutionRecord.line, except_bind_eq_ok_iff, pure, Except.pure,
    Except.ok.injEq]
  constructor
  · rintro ⟨id, hid, copied, hcopied, input, hinput, written, hwritten, rfl⟩
    exact ⟨id, copied, input, written, hid, hcopied, hinput, hwritten, rfl⟩
  · rintro ⟨id, copied, input, written, hid, hcopied, hinput, hwritten, rfl⟩
    exact ⟨id, hid, copied, hcopied, input, hinput, written, hwritten, rfl⟩

theorem handleFailure_invocations (raised : Raised) :
    (finalState (handleFailure py recordId timestamp left raised audit)).invocations
      = audit.invocations := by
  unfold handleFailure
  split <;> rfl

/-- The handler writes a failure, and it writes one if it can. -/
theorem handleFailure_recorded_iff {raised : Raised} {success : Prop} :
    Recorded py request success audit
        (finalState (handleFailure py recordId timestamp left raised audit))
      ↔ ¬ success ∧ Unchanged py recordId timestamp request left
        ∧ ∃ error, ExecutionError.ofRaised raised = .ok error := by
  rcases hline : failureLine py recordId timestamp left raised with inner | line
  · simp only [handleFailure, hline, finalState]
    constructor
    · exact fun h => absurd h (not_recorded rfl)
    · rintro ⟨_, ⟨⟨input, _, hleft⟩, id, hid⟩, error, herror⟩
      have hok := failureLine_eq_ok_iff.2 ⟨error, id, input, herror, hid, hleft, rfl⟩
      rw [hline] at hok
      cases hok
  · obtain ⟨error, id, input, herror, hid, hleft, rfl⟩ := failureLine_eq_ok_iff.1 hline
    simp only [handleFailure, hline, finalState]
    rw [recorded_write_iff, recorded_status, recorded_input]
    simp only [RecordStatus.text, Option.some.injEq, Value.str.injEq,
      show ("failure" = "success") = False by decide, false_iff]
    constructor
    · rintro ⟨hnot, _, hrequest, rfl⟩
      exact ⟨hnot, ⟨⟨input, hrequest, hleft⟩, id, hid⟩, error, herror⟩
    · rintro ⟨hnot, ⟨⟨input', hrequest, hleft'⟩, _⟩, _⟩
      obtain rfl := Except.ok.inj (hleft.symm.trans hleft')
      exact ⟨hnot, input, hrequest, rfl⟩

theorem successLine_recorded_iff {output : V} {line : Value}
    (hline : successLine py recordId timestamp left output = .ok line) :
    Recorded py request True audit (audit.write line)
      ↔ Unchanged py recordId timestamp request left := by
  obtain ⟨id, copied, input, written, hid, _, hleft, _, rfl⟩ := successLine_eq_ok_iff.1 hline
  rw [recorded_write_iff, recorded_status, recorded_input]
  simp only [RecordStatus.text, true_and, Option.some.injEq]
  constructor
  · rintro ⟨_, hrequest, rfl⟩
    exact ⟨⟨input, hrequest, hleft⟩, id, hid⟩
  · rintro ⟨⟨input', hrequest, hleft'⟩, _⟩
    obtain rfl := Except.ok.inj (hleft.symm.trans hleft')
    exact ⟨input, hrequest, rfl⟩

section
variable {policy : ExecutionPolicy} {engine : ExecutionEngine V} {snapshot : List (String × V)}
  (hcopy : py.copyDict request = .ok snapshot)
include hcopy

theorem validated_iff :
    Validated py request policy ↔ ∃ result, py.validate policy snapshot = .ok result := by
  constructor
  · rintro ⟨copy, result, hcopy', hresult⟩
    obtain rfl := Except.ok.inj (hcopy.symm.trans hcopy')
    exact ⟨result, hresult⟩
  · exact fun ⟨result, hresult⟩ => ⟨snapshot, result, hcopy, hresult⟩

theorem engineReturns_iff :
    EngineReturns py engine request ↔ ∃ output, (engine snapshot).result = .ok output := by
  constructor
  · rintro ⟨copy, output, hcopy', houtput⟩
    obtain rfl := Except.ok.inj (hcopy.symm.trans hcopy')
    exact ⟨output, houtput⟩
  · exact fun ⟨output, houtput⟩ => ⟨snapshot, output, hcopy, houtput⟩

/-- A refused request never reaches the engine. -/
theorem refused_audited_iff {violation : PolicyViolation}
    (hvalid : py.validate policy snapshot = .error violation) :
    Audited py engine request policy audit
        (finalState (executeWithPolicy py recordId timestamp engine request policy audit))
      ↔ Unchanged py recordId timestamp request snapshot := by
  have hnot : ¬ Validated py request policy := by
    rw [validated_iff hcopy, hvalid]
    rintro ⟨_, hresult⟩
    cases hresult
  have hcall : executeWithPolicy py recordId timestamp engine request policy audit
      = handleFailure py recordId timestamp snapshot (.policy violation) audit := by
    simp only [executeWithPolicy, hcopy, hvalid]
  rw [hcall]
  constructor
  · exact fun h => (handleFailure_recorded_iff.1 h.recorded).2.1
  · intro hsame
    exact ⟨handleFailure_recorded_iff.2 ⟨fun h => hnot h.1, hsame, _, rfl⟩,
      fun _ => handleFailure_invocations _⟩

theorem accepted_audited_iff {result : PolicyValidationResult}
    (hvalid : py.validate policy snapshot = .ok result) :
    Audited py engine request policy audit
        (finalState (executeWithPolicy py recordId timestamp engine request policy audit))
      ↔ Unchanged py recordId timestamp request (engine snapshot).request
        ∧ ResultRecordable py (engine snapshot).result := by
  have hvalidated : Validated py request policy := (validated_iff hcopy).2 ⟨result, hvalid⟩
  have honly : ∀ {after : Audit V}, Audited py engine request policy audit after
      ↔ Recorded py request (EngineReturns py engine request) audit after := fun {after} => by
    constructor
    · intro h
      simpa only [hvalidated, true_and] using h.recorded
    · exact fun h => ⟨by simpa only [hvalidated, true_and] using h, fun hnot => absurd hvalidated hnot⟩
  rw [honly, engineReturns_iff hcopy]
  simp only [executeWithPolicy, hcopy, hvalid]
  rcases hresult : (engine snapshot).result with raised | output
  · have hnever : ¬ ∃ output, (Except.error raised : Except Raised V) = .ok output := by
      rintro ⟨_, houtput⟩
      cases houtput
    exact handleFailure_recorded_iff.trans (and_iff_right hnever)
  · have hreturns : (∃ other, (Except.ok output : Except Raised V) = .ok other) ↔ True :=
      iff_true_intro ⟨output, rfl⟩
    rw [hreturns]
    change Recorded py request True
      { audit with invocations := audit.invocations ++ [snapshot] } _ ↔ _
    rcases hline : successLine py recordId timestamp (engine snapshot).request output with inner | line
    · simp only [hline]
      constructor
      · exact fun h => absurd trivial (handleFailure_recorded_iff.1 h).1
      · rintro ⟨⟨⟨input, _, hleft⟩, id, hid⟩, copied, written, hcopied, hwritten⟩
        have hok := successLine_eq_ok_iff.2 ⟨id, copied, input, written, hid, hcopied, hleft,
          hwritten, rfl⟩
        rw [hline] at hok
        cases hok
    · obtain ⟨_, copied, _, written, _, hcopied, _, hwritten, _⟩ := successLine_eq_ok_iff.1 hline
      have hrecorded : ResultRecordable py (.ok output) := ⟨copied, written, hcopied, hwritten⟩
      simp only [hline, finalState]
      exact (successLine_recorded_iff hline).trans (and_iff_left hrecorded).symm

end

/-- A call returns what the engine returned, if the record of it can be written. -/
theorem executeWithPolicy_eq_ok_iff {policy : ExecutionPolicy} {engine : ExecutionEngine V}
    {output : V} :
    (∃ after, executeWithPolicy py recordId timestamp engine request policy audit = .ok output after)
      ↔ ∃ snapshot result line, py.copyDict request = .ok snapshot
        ∧ py.validate policy snapshot = .ok result ∧ (engine snapshot).result = .ok output
        ∧ successLine py recordId timestamp (engine snapshot).request output = .ok line := by
  have hfails : ∀ {left : List (String × V)} {raised : Raised} {audit after : Audit V},
      handleFailure py recordId timestamp left raised audit ≠ .ok output after := by
    intro left raised audit after h
    unfold handleFailure at h
    split at h <;> cases h
  constructor
  · rintro ⟨after, h⟩
    unfold executeWithPolicy at h
    split at h
    · cases h
    · rename_i snapshot hcopy
      split at h
      · exact absurd h hfails
      · rename_i result hvalid
        dsimp only at h
        split at h
        · exact absurd h hfails
        · rename_i returned hresult
          split at h
          · rename_i line hline
            obtain ⟨rfl, _⟩ := EStateM.Result.ok.inj h
            exact ⟨snapshot, result, line, hcopy, hvalid, hresult, hline⟩
          · exact absurd h hfails
  · rintro ⟨snapshot, result, line, hcopy, hvalid, hresult, hline⟩
    simp only [executeWithPolicy, hcopy, hvalid, hresult, hline]
    exact ⟨_, rfl⟩

/-- **When a call leaves one truthful record.** -/
theorem executeWithPolicy_audited_iff (py : Python V)
    (recordId : List (String × V) → String → Except Raised String) (timestamp : String)
    (engine : ExecutionEngine V) (request : List (String × V)) (policy : ExecutionPolicy)
    (audit : Audit V) :
    Audited py engine request policy audit
        (finalState (executeWithPolicy py recordId timestamp engine request policy audit))
      ↔ Recordable py recordId timestamp engine request policy := by
  rcases hcopy : py.copyDict request with raised | snapshot
  · have hcall : executeWithPolicy py recordId timestamp engine request policy audit
        = .error raised audit := by
      simp only [executeWithPolicy, hcopy]
    rw [hcall]
    constructor
    · exact fun h => absurd h.recorded (not_recorded rfl)
    · rintro ⟨snapshot, hcopy', _⟩
      rw [hcopy] at hcopy'
      cases hcopy'
  · have hiff : Recordable py recordId timestamp engine request policy ↔
        match py.validate policy snapshot with
        | .error _ => Unchanged py recordId timestamp request snapshot
        | .ok _ =>
            Unchanged py recordId timestamp request (engine snapshot).request
              ∧ ResultRecordable py (engine snapshot).result := by
      simp only [Recordable, hcopy, Except.ok.injEq, exists_eq_left']
    rw [hiff]
    rcases hvalid : py.validate policy snapshot with violation | result
    · exact refused_audited_iff hcopy hvalid
    · exact accepted_audited_iff hcopy hvalid

end

/-- The engine counts its calls in the request that it receives. -/
def countingEngine : ExecutionEngine Value := fun request =>
  { request := request ++ [("attempt", .int 1)], result := .ok (.bool true) }

/-- The record of the call has for its input a request that was never made. -/
theorem countingEngine_not_audited :
    ¬ Audited (.ofValues (fun truthy text => .ok (truthy, text))
        fun _ => .exception "TypeError" "not serializable") countingEngine
      [("operation", .str "build")] ⟨[], [], none, []⟩ ⟨[], []⟩
      (finalState (executeWithPolicy
        (.ofValues (fun truthy text => .ok (truthy, text))
          fun _ => .exception "TypeError" "not serializable") (fun _ _ => .ok "r1")
        "2026-03-19T12:00:00+00:00" countingEngine [("operation", .str "build")]
        ⟨[], [], none, []⟩ ⟨[], []⟩)) := by
  rintro ⟨⟨line, hlines, _, input, hrequest, hinput⟩, _⟩
  have hwritten : [auditLine "r1" "2026-03-19T12:00:00+00:00"
      (.dict [("attempt", .int 1), ("operation", .str "build")]) (.bool true) .success none]
      = [line] := hlines
  obtain rfl := List.singleton_inj.1 hwritten
  have hgiven : Except.ok (.dict [("operation", .str "build")]) = Except.ok input := hrequest
  rw [recorded_input, ← Except.ok.inj hgiven] at hinput
  simp at hinput

end PersonalDevin.Execution
