import PersonalDevin.Field

/-!
# Memory records and their dictionaries

`MemoryRecord` with its four kinds, `MemorySerializer`, and the payloads that a stream file can hold.
A payload is written with `json.dump` and read with `json.load`, so what a file holds is stable under
both. The file keeps the keys of a dictionary sorted; nothing depends on their order, which is left as
it was.
-/

namespace PersonalDevin.Memory

inductive MemoryType where
  | execution
  | task
  | failure
  | decision
  deriving DecidableEq

namespace MemoryType

def text : MemoryType → String
  | execution => "execution"
  | task => "task"
  | failure => "failure"
  | decision => "decision"

/-- `_MEMORY_TYPES`. -/
def all : List MemoryType := [execution, task, failure, decision]

/-- The lookup in `_MEMORY_MODEL_BY_TYPE`. -/
def ofText (text : String) : Option MemoryType := all.find? (·.text = text)

theorem ofText_text (type : MemoryType) : ofText type.text = some type := by
  cases type <;> decide

end MemoryType

/-- The timestamps of the standard library: `fromisoformat` is the inverse of `isoformat`. What a
field declared `datetime` makes of a value that is no text is left open. -/
class Timestamp (T : Type) where
  min : T
  isoformat : T → String
  fromisoformat : String → Option T
  ofValue : Value → Option T
  fromisoformat_isoformat : ∀ t, fromisoformat (isoformat t) = some t

/-- `id: str = Field(..., min_length=1)`. -/
abbrev RecordId := { id : String // id ≠ "" }

def recordId : Option Value → Option RecordId
  | some (.str id) => if h : id ≠ "" then some ⟨id, h⟩ else none
  | _ => none

theorem recordId_str (id : RecordId) : recordId (some (.str id.val)) = some id := dif_pos id.2

structure MemoryRecord (T : Type) where
  id : RecordId
  timestamp : T
  type : MemoryType
  data : Fields

variable {T : Type} [Timestamp T]

def MemoryRecord.toDict (record : MemoryRecord T) : Fields :=
  [("id", .str record.id), ("timestamp", .str (Timestamp.isoformat record.timestamp)),
    ("type", .str record.type.text), ("data", .dict record.data)]

def recordType : Option Value → Option MemoryType
  | some (.str text) => MemoryType.ofText text
  | _ => none

/-- The timestamp of a payload: parsed if it is a text, and the current time if there is none. -/
def recordTimestamp (now : T) : Option Value → Option T
  | none => some now
  | some (.str text) => Timestamp.fromisoformat text
  | some value => Timestamp.ofValue value

/-- `MemorySerializer.from_dict`, or nothing where it raises. -/
def fromDict (now : T) (payload : Fields) : Option (MemoryRecord T) := do
  let type ← recordType (payload.get? "type")
  let timestamp ← recordTimestamp now (payload.get? "timestamp")
  let id ← recordId (payload.get? "id")
  let data ← dictOrEmpty (payload.get? "data")
  return { id, timestamp, type, data }

theorem fromDict_eq_none {now : T} {payload : Fields} (h : payload.get? "type" = none) :
    fromDict now payload = none := by
  rw [fromDict, h]
  rfl

theorem get?_id_of_fromDict {now : T} {payload : Fields} {record : MemoryRecord T}
    (h : fromDict now payload = some record) : payload.get? "id" = some (.str record.id) := by
  simp only [fromDict, Option.bind_eq_bind, Option.bind_eq_some_iff, Option.pure_def,
    Option.some.injEq] at h
  obtain ⟨_, _, _, _, id, hid, _, _, rfl⟩ := h
  unfold recordId at hid
  split at hid
  · rename_i text htext
    obtain ⟨_, heq⟩ := Option.dite_none_right_eq_some.1 hid
    obtain rfl := Option.some.inj heq
    exact htext
  · cases hid

/-! ### Payloads in a stream file -/

/-- A dictionary as `json.load` gives it back. -/
structure StoredPayload where
  fields : Fields
  stable : Value.jsonEntries fields = some fields

/-- A payload as its file will hold it, or nothing where `json.dump` raises. -/
def StoredPayload.ofFields (payload : Fields) : Option StoredPayload :=
  match h : Value.jsonEntries payload with
  | none => none
  | some fields => some ⟨fields, Value.jsonEntries_stable h⟩

namespace StoredPayload

theorem ext {stored stored' : StoredPayload} (h : stored.fields = stored'.fields) :
    stored = stored' := by
  cases stored
  cases stored'
  cases h
  rfl

theorem ofFields_eq_some_iff {payload : Fields} {stored : StoredPayload} :
    ofFields payload = some stored ↔ Value.jsonEntries payload = some stored.fields := by
  unfold ofFields
  split
  · rename_i hnone
    rw [hnone]
    exact iff_of_false nofun nofun
  · rename_i fields hsome
    constructor
    · rintro ⟨⟩
      exact hsome
    · exact fun h => congrArg some (ext (Option.some.inj (hsome.symm.trans h)))

theorem isSome_ofFields {payload : Fields} :
    (ofFields payload).isSome ↔ ∀ entry ∈ payload, entry.2.jsonRoundTrip.isSome := by
  rw [← Value.isSome_jsonEntries, Option.isSome_iff_exists, Option.isSome_iff_exists]
  constructor
  · rintro ⟨stored, h⟩
    exact ⟨stored.fields, ofFields_eq_some_iff.1 h⟩
  · rintro ⟨fields, h⟩
    exact ⟨⟨fields, Value.jsonEntries_stable h⟩, ofFields_eq_some_iff.2 h⟩

theorem ofFields_fields (stored : StoredPayload) : ofFields stored.fields = some stored :=
  ofFields_eq_some_iff.2 stored.stable

/-- A payload without a `type` can be stored, but it is no record. -/
theorem fromDict_eq_none {payload : Fields} {stored : StoredPayload}
    (h : ofFields payload = some stored) (htype : "type" ∉ payload.map Prod.fst) (now : T) :
    fromDict now stored.fields = none := by
  apply Memory.fromDict_eq_none
  rw [Fields.get?, List.lookup_eq_none_iff]
  intro entry hmem
  have hkeys := Value.map_fst_jsonEntries (ofFields_eq_some_iff.1 h)
  refine bne_iff_ne.2 fun heq => htype ?_
  rw [← hkeys, heq]
  exact List.mem_map_of_mem hmem

end StoredPayload

/-- The record that a reader gets for a record that was written: its data has passed through JSON. -/
def StoredAs (record stored : MemoryRecord T) : Prop :=
  ∃ data, Value.jsonEntries record.data = some data ∧ stored = { record with data }

/-- **Reading a record back.** -/
theorem fromDict_toDict {record : MemoryRecord T} {payload : StoredPayload}
    (h : StoredPayload.ofFields record.toDict = some payload) :
    ∃ stored, StoredAs record stored ∧ ∀ now, fromDict now payload.fields = some stored := by
  rw [StoredPayload.ofFields_eq_some_iff] at h
  simp only [MemoryRecord.toDict, Value.jsonEntries, Value.jsonRoundTrip, Option.bind_eq_bind,
    Option.bind_eq_some_iff, Option.pure_def, Option.some.injEq, Option.map_eq_some_iff] at h
  obtain ⟨_, rfl, _, ⟨_, rfl, _, ⟨_, rfl, _, ⟨_, ⟨data, hdata, rfl⟩, _, rfl, rfl⟩, rfl⟩, rfl⟩,
    hpayload⟩ := h
  refine ⟨{ record with data }, ⟨data, hdata, rfl⟩, fun now => ?_⟩
  rw [← hpayload]
  simp [fromDict, Fields.get?, List.lookup_cons, recordType, MemoryType.ofText_text, recordTimestamp,
    Timestamp.fromisoformat_isoformat, recordId_str, dictOrEmpty]

end PersonalDevin.Memory
