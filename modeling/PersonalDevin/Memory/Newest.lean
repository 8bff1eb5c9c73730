import PersonalDevin.Lib.Ranking
import PersonalDevin.SelfImprovement.Evaluator
import Mathlib.Data.Prod.Lex

/-!
# The newest records

`MemoryService.get_recent` and `get_recent_history` sort the records by timestamp and id. A timestamp of
the standard library has a time zone or has none, and `<` raises on one of each. The calls `log_*` take
the current time in UTC, but `record_execution` stores the timestamp that it is given.
-/

namespace PersonalDevin.Memory

open Lib
open SelfImprovement (StoredRecord Wrote getAll_of_wrote performAll written_of_performAll
  wrote_of_performAll)

/-- What a comparison reads of a timestamp: whether it has a time zone, and its instant in microseconds,
where one without a time zone is read as UTC. -/
class Zoned (T : Type) where
  aware : T → Bool
  instant : T → ℤ

/-- The timestamp and the id of a record. -/
def MemoryRecord.key {T : Type} (record : MemoryRecord T) : T × String :=
  (record.timestamp, record.id.val)

namespace MemoryService

/-! ### Sorting and slicing -/

variable {T : Type} [Zoned T] {α : Type}

/-- `a == b`. -/
def sameTime (a b : T) : Bool :=
  Zoned.aware a = Zoned.aware b && Zoned.instant a = Zoned.instant b

/-- `a < b`, or nothing where it raises. -/
def timeBefore (a b : T) : Option Bool :=
  if Zoned.aware a = Zoned.aware b then some (decide (Zoned.instant a < Zoned.instant b)) else none

/-- `a < b` of two pairs, or nothing where it raises: the first parts that differ are compared. -/
def keyBefore (a b : T × String) : Option Bool :=
  if sameTime a.1 b.1 then some (decide (a.2 < b.2)) else timeBefore a.1 b.1

/-- `sorted(records, key=lambda r: (r.timestamp, r.id), reverse=True)`, or nothing where it raises. -/
def sortedRecords (records : List (MemoryRecord T)) : Option (List (MemoryRecord T)) :=
  sortReversed (fun a b => keyBefore a.key b.key) records

/-- `items[:limit]`, where a negative limit counts from the end. -/
def sliceTo (limit : ℤ) (items : List α) : List α :=
  if 0 ≤ limit then items.take limit.toNat else items.take (items.length + limit).toNat

def utcKey (key : T × String) : ℤ ×ₗ String := toLex (Zoned.instant key.1, key.2)

theorem keyBefore_eq (a b : T × String) :
    keyBefore a b
      = if Zoned.aware a.1 = Zoned.aware b.1 then some (decide (utcKey a < utcKey b)) else none := by
  have hlex : utcKey a < utcKey b ↔ Zoned.instant a.1 < Zoned.instant b.1
      ∨ Zoned.instant a.1 = Zoned.instant b.1 ∧ a.2 < b.2 := Prod.Lex.toLex_lt_toLex
  by_cases haware : Zoned.aware a.1 = Zoned.aware b.1
  · by_cases hinstant : Zoned.instant a.1 = Zoned.instant b.1
    · simp [keyBefore, sameTime, haware, hinstant, hlex]
    · simp [keyBefore, sameTime, timeBefore, haware, hinstant, hlex]
  · simp [keyBefore, sameTime, timeBefore, haware]

/-- All of the timestamps have a time zone, or none has. -/
def SameZone (stamps : List T) : Prop := ∀ a ∈ stamps, ∀ b ∈ stamps, Zoned.aware a = Zoned.aware b

theorem SameZone.mono {stamps stamps' : List T} (h : SameZone stamps) (hsubset : stamps' ⊆ stamps) :
    SameZone stamps' :=
  fun a ha b hb => h a (hsubset ha) b (hsubset hb)

/-- The newest of the stored records, as many as the limit allows, with the newest first. -/
structure IsNewest (limit : ℤ) (stored newest : List (MemoryRecord T)) : Prop where
  length : (newest.length : ℤ) = max 0 (min limit stored.length)
  ordered : newest.Pairwise fun a b => utcKey b.key ≤ utcKey a.key
  newer : ∃ older, (newest ++ older).Perm stored
    ∧ ∀ a ∈ newest, ∀ b ∈ older, utcKey b.key ≤ utcKey a.key

variable {stored : List (MemoryRecord T)} {limit : ℤ}

def newestOrder (stored : List (MemoryRecord T)) : List (MemoryRecord T) :=
  stored.insertionSort fun a b => utcKey b.key ≤ utcKey a.key

theorem length_newestOrder (stored : List (MemoryRecord T)) :
    (newestOrder stored).length = stored.length :=
  List.length_insertionSort _ _

theorem sortedRecords_of_sameZone (h : SameZone (stored.map MemoryRecord.timestamp)) :
    sortedRecords stored = some (newestOrder stored) := by
  refine sortReversed_of_comparable fun a ha b hb => ?_
  have haware : Zoned.aware a.key.1 = Zoned.aware b.key.1 :=
    h _ (List.mem_map_of_mem ha) _ (List.mem_map_of_mem hb)
  rw [keyBefore_eq, if_pos haware]

theorem sameZone_of_sortedRecords {ordered : List (MemoryRecord T)}
    (h : sortedRecords stored = some ordered) : SameZone (stored.map MemoryRecord.timestamp) := by
  have hkind : ∀ a ∈ stored, ∀ b ∈ stored, Zoned.aware a.key.1 = Zoned.aware b.key.1 := by
    refine same_kind_of_sortReversed (fun a b hsome => ?_) h
    by_contra haware
    rw [keyBefore_eq, if_neg haware] at hsome
    cases hsome
  intro a ha b hb
  obtain ⟨record, hrecord, rfl⟩ := List.mem_map.1 ha
  obtain ⟨record', hrecord', rfl⟩ := List.mem_map.1 hb
  exact hkind record hrecord record' hrecord'

theorem isNewest_take (stored : List (MemoryRecord T)) (limit : ℤ) :
    IsNewest limit stored ((newestOrder stored).take limit.toNat) := by
  have hpairwise := pairwise_insertionSort_reversed (fun record => utcKey record.key) stored
  rw [← newestOrder, ← List.take_append_drop limit.toNat (newestOrder stored),
    List.pairwise_append] at hpairwise
  obtain ⟨hordered, _, hnewer⟩ := hpairwise
  refine ⟨?_, hordered, _, ?_, hnewer⟩
  · rw [List.length_take, length_newestOrder]
    omega
  · rw [List.take_append_drop]
    exact List.perm_insertionSort _ stored

theorem sliceTo_eq_take {items : List α} (h : 0 ≤ limit ∨ items.length ≤ -limit) :
    sliceTo limit items = items.take limit.toNat := by
  unfold sliceTo
  split
  · rfl
  · congr 1
    omega

theorem of_length_sliceTo {items : List α}
    (h : ((sliceTo limit items).length : ℤ) = max 0 (min limit items.length)) :
    0 ≤ limit ∨ items.length ≤ -limit := by
  unfold sliceTo at h
  split at h
  · exact .inl ‹_›
  · rw [List.length_take] at h
    omega

/-! ### The two readers -/

section Readers

variable [Timestamp T] {now : T} {streams : Streams}

/-- The records of all types, or nothing where a stream cannot be read. -/
def allRecords (now : T) (streams : Streams) : Option (List (MemoryRecord T)) :=
  (MemoryType.all.mapM (getAll now streams)).map List.flatten

/-- `get_recent`, or nothing where it raises. -/
def getRecent (now : T) (streams : Streams) (limit : ℤ) : Option (List (MemoryRecord T)) := do
  let records ← allRecords now streams
  let ordered ← sortedRecords records
  return sliceTo limit ordered

/-- `get_recent_history`, or nothing where it raises. -/
def getRecentHistory (now : T) (streams : Streams) (limit : ℤ) : Option (List (ExecutionRecord T)) := do
  let records ← getAll now streams .execution
  let ordered ← sortedRecords records
  (sliceTo (max limit 0) ordered).mapM (executionMemoryToRecord now)

theorem sliceTo_subset (limit : ℤ) (items : List α) : sliceTo limit items ⊆ items := by
  unfold sliceTo
  split
  · exact List.take_subset _ _
  · exact List.take_subset _ _

theorem getRecent_eq_some {newest : List (MemoryRecord T)}
    (h : getRecent now streams limit = some newest) :
    ∃ stored ordered, allRecords now streams = some stored ∧ ordered.Perm stored
      ∧ newest = sliceTo limit ordered := by
  obtain ⟨stored, hstored, h⟩ := Option.bind_eq_some_iff.1 h
  obtain ⟨ordered, hordered, h⟩ := Option.bind_eq_some_iff.1 h
  exact ⟨stored, ordered, hstored, sortReversed_perm hordered, (Option.some.inj h).symm⟩

/-- Neither of the two raises, and both return the newest records. -/
structure ReadsNewest (now : T) (streams : Streams) (limit : ℤ) : Prop where
  recent : ∃ stored newest, allRecords now streams = some stored
    ∧ getRecent now streams limit = some newest ∧ IsNewest limit stored newest
  history : ∃ stored newest history, getAll now streams .execution = some stored
    ∧ getRecentHistory now streams limit = some history ∧ IsNewest limit stored newest
    ∧ newest.mapM (executionMemoryToRecord now) = some history

/-- **When `get_recent` returns the newest of the records that it reads.** -/
theorem getRecent_newest_iff (hstored : allRecords now streams = some stored) :
    (∃ newest, getRecent now streams limit = some newest ∧ IsNewest limit stored newest)
      ↔ SameZone (stored.map MemoryRecord.timestamp) ∧ (0 ≤ limit ∨ stored.length ≤ -limit) := by
  rw [getRecent, hstored, Option.bind_eq_bind, Option.bind_some]
  constructor
  · rintro ⟨newest, hrecent, hnewest⟩
    obtain ⟨ordered, hordered, hslice⟩ := Option.bind_eq_some_iff.1 hrecent
    obtain rfl := Option.some.inj hslice
    have hlength : ordered.length = stored.length := (sortReversed_perm hordered).length_eq
    have hbound := hnewest.length
    rw [← hlength] at hbound ⊢
    exact ⟨sameZone_of_sortedRecords hordered, of_length_sliceTo hbound⟩
  · rintro ⟨hzone, hbound⟩
    rw [← length_newestOrder] at hbound
    refine ⟨_, ?_, isNewest_take stored limit⟩
    rw [sortedRecords_of_sameZone hzone, Option.bind_some, sliceTo_eq_take hbound]
    rfl

/-- `get_recent_history` bounds its limit, so it returns for every one. -/
theorem getRecentHistory_newest (hstored : getAll now streams .execution = some stored)
    (hzone : SameZone (stored.map MemoryRecord.timestamp))
    (hconverts : ∀ memory ∈ stored, (executionMemoryToRecord now memory).isSome = true) :
    ∃ newest history, getRecentHistory now streams limit = some history
      ∧ IsNewest limit stored newest ∧ newest.mapM (executionMemoryToRecord now) = some history := by
  have hsome := mapM_isSome_iff.2 fun memory (hmem : memory ∈ (newestOrder stored).take limit.toNat) =>
    hconverts memory ((List.mem_insertionSort _).1 (List.mem_of_mem_take hmem))
  obtain ⟨history, hhistory⟩ := Option.isSome_iff_exists.1 hsome
  refine ⟨_, history, ?_, isNewest_take stored limit, hhistory⟩
  have hmax : (max limit 0).toNat = limit.toNat := by omega
  rw [getRecentHistory, hstored, Option.bind_eq_bind, Option.bind_some,
    sortedRecords_of_sameZone hzone, Option.bind_some,
    sliceTo_eq_take (.inl (le_max_right _ _)), hmax]
  exact hhistory

end Readers

/-! ### The records of a run -/

section Runs

variable [Timestamp T] {history : List (T × ServiceCall T)} {streams : Streams}

def stamp (call : T × ServiceCall T) : T := call.2.timestamp.getD call.1

def Stamped (call : T × ServiceCall T) (written : StoredRecord T) : Prop :=
  written.record.timestamp = stamp call

omit [Zoned T] in
theorem stamped_of_performAll (h : performAll history (fun _ => []) = some streams)
    (type : MemoryType) :
    ∃ written, List.Forall₂ Stamped (history.filter fun call => call.2.type = type) written
      ∧ streams type = written.map StoredRecord.payload := by
  refine written_of_performAll (fun call streams record streams' hperform htype => ?_) h
  obtain ⟨data, payload, _, rfl, hpayload, rfl⟩ := perform_eq_some hperform
  obtain ⟨_, ⟨_, _, rfl⟩, hread⟩ := fromDict_toDict hpayload
  exact ⟨⟨payload, _, hread⟩, rfl, htype ▸ rfl⟩

omit [Zoned T] in
/-- Every call of a run has left one record, with its timestamp. -/
theorem stamped_allRecords (h : performAll history (fun _ => []) = some streams) (now : T) :
    ∃ calls written, calls.Perm history ∧ List.Forall₂ Stamped calls written
      ∧ allRecords now streams = some (written.map StoredRecord.record) := by
  have htypes : ∀ types : List MemoryType, ∃ written,
      List.Forall₂ Stamped (types.flatMap fun type => history.filter (·.2.type = type)) written
        ∧ (types.mapM (getAll now streams)).map List.flatten
          = some (written.map StoredRecord.record) := by
    intro types
    induction types with
    | nil => exact ⟨[], .nil, rfl⟩
    | cons type rest ih =>
        obtain ⟨first, hfirst, hstream⟩ := stamped_of_performAll h type
        obtain ⟨written, hwritten, hrecords⟩ := ih
        obtain ⟨lists, hlists, hflatten⟩ := Option.map_eq_some_iff.1 hrecords
        refine ⟨first ++ written, List.rel_append hfirst hwritten, ?_⟩
        rw [List.mapM_cons, getAll_of_wrote hstream, hlists, List.map_append, ← hflatten]
        rfl
  obtain ⟨written, hwritten, hrecords⟩ := htypes MemoryType.all
  refine ⟨_, written, flatMap_filter_perm _ (by decide) fun call _ => ?_, hwritten, hrecords⟩
  cases call.2.type <;> decide

omit [Zoned T] in
theorem map_timestamp_of_stamped {calls : List (T × ServiceCall T)} {written : List (StoredRecord T)}
    (h : List.Forall₂ Stamped calls written) :
    (written.map StoredRecord.record).map MemoryRecord.timestamp = calls.map stamp := by
  rw [List.map_map]
  exact (map_eq_of_paired h fun _ _ hstamped => Eq.symm hstamped).symm

omit [Zoned T] in
/-- Every record of the execution stream is made an `ExecutionRecord`. -/
theorem isSome_executionMemoryToRecord (h : performAll history (fun _ => []) = some streams) {now : T}
    {stored : List (MemoryRecord T)} (hstored : getAll now streams .execution = some stored) :
    ∀ memory ∈ stored, (executionMemoryToRecord now memory).isSome = true := by
  obtain ⟨written, hwritten, hstream⟩ := wrote_of_performAll h
  obtain rfl := Option.some.inj (hstored.symm.trans (getAll_of_wrote hstream now))
  intro memory hmem
  obtain ⟨entry, hentry, rfl⟩ := List.mem_map.1 hmem
  obtain ⟨call, _, hcall⟩ := exists_of_mem_right hwritten hentry
  obtain ⟨record, hrecord, _⟩ := hcall.executionMemoryToRecord now
  exact Option.isSome_iff_exists.2 ⟨record, hrecord⟩

/-- **Both readers return the newest records exactly if the timestamps that were stored all have a time
zone or none has, and a negative limit leaves out every record.** -/
theorem readsNewest_iff (h : performAll history (fun _ => []) = some streams) (now : T) (limit : ℤ) :
    ReadsNewest now streams limit
      ↔ SameZone (history.map stamp) ∧ (0 ≤ limit ∨ history.length ≤ -limit) := by
  obtain ⟨calls, written, hperm, hstamped, hall⟩ := stamped_allRecords h now
  have hlength : (written.map StoredRecord.record).length = history.length := by
    rw [List.length_map, ← hstamped.length_eq, hperm.length_eq]
  have hzone : SameZone ((written.map StoredRecord.record).map MemoryRecord.timestamp)
      ↔ SameZone (history.map stamp) := by
    rw [map_timestamp_of_stamped hstamped]
    exact ⟨fun hcalls => hcalls.mono (hperm.map stamp).symm.subset,
      fun hhistory => hhistory.mono (hperm.map stamp).subset⟩
  constructor
  · intro hreads
    obtain ⟨stored, newest, hstored, hrecent, hnewest⟩ := hreads.recent
    obtain rfl := Option.some.inj (hstored.symm.trans hall)
    obtain ⟨hsame, hbound⟩ := (getRecent_newest_iff hall).1 ⟨newest, hrecent, hnewest⟩
    rw [hlength] at hbound
    exact ⟨hzone.1 hsame, hbound⟩
  · rintro ⟨hsame, hbound⟩
    rw [← hlength] at hbound
    obtain ⟨newest, hrecent, hnewest⟩ := (getRecent_newest_iff hall).2 ⟨hzone.2 hsame, hbound⟩
    refine ⟨⟨_, newest, hall, hrecent, hnewest⟩, ?_⟩
    obtain ⟨executions, hexecutions, hstream⟩ := stamped_of_performAll h .execution
    have hstored := getAll_of_wrote hstream now
    have hsame' : SameZone ((executions.map StoredRecord.record).map MemoryRecord.timestamp) := by
      rw [map_timestamp_of_stamped hexecutions]
      exact hsame.mono (List.map_subset _ (List.filter_subset_self _))
    obtain ⟨newest, history, hreturns⟩ := getRecentHistory_newest hstored hsame'
      (isSome_executionMemoryToRecord h hstored)
    exact ⟨_, newest, history, hstored, hreturns⟩

end Runs

/-! ### Runs with and without a time zone -/

/-- Midnight of the first of January 2026, in UTC or without a time zone. -/
inductive Midnight where
  | utc
  | naive
  deriving DecidableEq

instance : Timestamp Midnight where
  min := .utc
  isoformat
    | .utc => "2026-01-01T00:00:00+00:00"
    | .naive => "2026-01-01T00:00:00"
  fromisoformat text :=
    if text = "2026-01-01T00:00:00+00:00" then some .utc
    else if text = "2026-01-01T00:00:00" then some .naive
    else none
  ofValue _ := none
  fromisoformat_isoformat t := by cases t <;> rfl

instance : Zoned Midnight where
  aware t := t = .utc
  instant _ := 1767225600000000

def executionAt (timestamp : Midnight) : ServiceCall Midnight :=
  .recordExecution {
    taskId := "task"
    input := none
    plan := none
    result := none
    success := true
    errors := none
    metadata := none
    timestamp }

def zonedHistory : List (Midnight × ServiceCall Midnight) :=
  [(.utc, .logTask "task" "completed" none none none), (.utc, executionAt .utc)]

theorem zonedHistory_stored : (performAll zonedHistory fun _ => []).isSome = true := by
  decide +kernel

theorem readsNewest_zoned : ∃ streams, performAll zonedHistory (fun _ => []) = some streams
    ∧ (ReadsNewest Midnight.utc streams 1
      ↔ SameZone (zonedHistory.map stamp) ∧ (0 ≤ (1 : ℤ) ∨ zonedHistory.length ≤ -(1 : ℤ))) := by
  obtain ⟨streams, hstreams⟩ := Option.isSome_iff_exists.1 zonedHistory_stored
  exact ⟨streams, hstreams, readsNewest_iff hstreams .utc 1⟩

/-- The timestamp given to `record_execution` has no time zone, that of `log_execution` has one. -/
def mixedHistory : List (Midnight × ServiceCall Midnight) :=
  [(.utc, executionAt .naive), (.utc, .logExecution "success" 1 1 0 0 none)]

theorem mixedHistory_read : (performAll mixedHistory fun _ => []).map (fun streams =>
    ((getRecent Midnight.utc streams 2).isSome, (getRecentHistory Midnight.utc streams 2).isSome))
      = some (false, false) := by
  decide +kernel

/-- After the two calls both readers raise. -/
theorem mixed_zones_raise : ∃ streams, performAll mixedHistory (fun _ => []) = some streams
    ∧ getRecent Midnight.utc streams 2 = none ∧ getRecentHistory Midnight.utc streams 2 = none
    ∧ ¬ ReadsNewest Midnight.utc streams 2 := by
  obtain ⟨streams, hstreams, hread⟩ := Option.map_eq_some_iff.1 mixedHistory_read
  obtain ⟨hrecent, hhistory⟩ := Prod.mk.inj hread
  rw [Option.isSome_eq_false_iff, Option.isNone_iff_eq_none] at hrecent hhistory
  refine ⟨streams, hstreams, hrecent, hhistory, fun hreads => ?_⟩
  obtain ⟨_, newest, _, hsome, _⟩ := hreads.recent
  rw [hrecent] at hsome
  cases hsome

/-- A negative limit counts from the end: of two records, the limit -1 leaves one. -/
example : (performAll zonedHistory fun _ => []).bind (fun streams =>
    (getRecent Midnight.utc streams (-1)).map List.length) = some 1 := by
  decide +kernel

end MemoryService

end PersonalDevin.Memory
