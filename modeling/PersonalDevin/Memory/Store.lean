import PersonalDevin.Lib.SharedList
import PersonalDevin.Memory.Record

/-!
# The memory store and its files

A stream is a JSON list in a file of its own. `MemoryStore.append` reads the whole list under the lock
of its object and replaces the file. The lock belongs to the object, so objects opened on one directory
do not wait for each other: an append of one may replace what another has written since its read. Each
stream is then a list that clients read and write back, and the appends that returned are in the file at
the end exactly if every replacement found the file as its own append had read it. With one object that
is always so.
-/

namespace PersonalDevin.Memory

open Lib

/-- The streams of a directory. -/
abbrev Streams := MemoryType → List StoredPayload

/-- `json.dump` of a list of payloads: what its file will hold, or nothing where it raises. -/
def dump (payloads : List Fields) : Option (List StoredPayload) :=
  payloads.mapM StoredPayload.ofFields

/-- What was read is written as it was, with the payload at the end. -/
theorem dump_concat (existing : List StoredPayload) (payload : Fields) :
    dump (existing.map StoredPayload.fields ++ [payload])
      = (StoredPayload.ofFields payload).map fun stored => existing ++ [stored] := by
  have hexisting : (existing.map StoredPayload.fields).mapM StoredPayload.ofFields = some existing :=
    mapM_eq_some_iff.2 (List.forall₂_map_left_iff.2
      (List.forall₂_same.2 fun stored _ => stored.ofFields_fields))
  rw [dump, List.mapM_append, hexisting]
  rcases h : StoredPayload.ofFields payload with _ | stored <;> simp [h]

/-- `MemoryStore.append`, under its lock. -/
def Streams.append (streams : Streams) (type : MemoryType) (payload : Fields) : Option Streams :=
  (dump ((streams type).map StoredPayload.fields ++ [payload])).map (Function.update streams type)

theorem Streams.append_eq (streams : Streams) (type : MemoryType) (payload : Fields) :
    streams.append type payload = (StoredPayload.ofFields payload).map fun stored =>
      Function.update streams type (streams type ++ [stored]) := by
  rw [Streams.append, dump_concat, Option.map_map]
  rfl

/-! ### Several stores on one directory -/

/-- An append between its read and its write. -/
structure PendingAppend where
  type : MemoryType
  payload : Fields
  existing : List StoredPayload

/-- The files of a directory, the append that holds the lock of each store, and the payloads whose
append returned, as their file keeps them. -/
structure Directory (S : Type) where
  files : Streams
  locked : S → Option PendingAppend
  returned : Streams

inductive FileAction (S : Type) where
  /-- `append` takes the lock of the store and reads the file. -/
  | read (store : S) (type : MemoryType) (payload : Fields)
  /-- `append` replaces the file, if the payload can be written, and gives the lock back. -/
  | replace (store : S)

namespace Directory

variable {S : Type}

def opened (files : Streams) : Directory S where
  files := files
  locked := fun _ => none
  returned := fun _ => []

variable [DecidableEq S]

def step (d : Directory S) : FileAction S → Directory S
  | .read store type payload =>
      match d.locked store with
      | some _ => d
      | none =>
          { d with
            locked := Function.update d.locked store (some ⟨type, payload, d.files type⟩) }
  | .replace store =>
      match d.locked store with
      | none => d
      | some pending =>
          match dump (pending.existing.map StoredPayload.fields ++ [pending.payload]) with
          | none => { d with locked := Function.update d.locked store none }
          | some content =>
              { files := Function.update d.files pending.type content
                locked := Function.update d.locked store none
                returned := Function.update d.returned pending.type
                  (d.returned pending.type ++ (StoredPayload.ofFields pending.payload).toList) }

/-- Of every stream the file holds what it held at the start and the payloads whose append returned. -/
def NoUpdateLost (initial : Streams) (d : Directory S) : Prop :=
  ∀ type, (d.files type).Perm (initial type ++ d.returned type)

/-- A file that is replaced is as the append that replaces it has read it. -/
def Fresh (d : Directory S) : FileAction S → Prop
  | .replace store => ∀ pending ∈ d.locked store,
      (StoredPayload.ofFields pending.payload).isSome = true →
        pending.existing = d.files pending.type
  | .read _ _ _ => True

theorem step_replace {d : Directory S} {store : S} {pending : PendingAppend}
    (hlocked : d.locked store = some pending) {stored : StoredPayload}
    (hstored : StoredPayload.ofFields pending.payload = some stored) :
    d.step (.replace store) =
      { files := Function.update d.files pending.type (pending.existing ++ [stored])
        locked := Function.update d.locked store none
        returned := Function.update d.returned pending.type
          (d.returned pending.type ++ [stored]) } := by
  simp only [step, hlocked, dump_concat, hstored]
  rfl

theorem step_replace_raised {d : Directory S} {store : S} {pending : PendingAppend}
    (hlocked : d.locked store = some pending)
    (hstored : StoredPayload.ofFields pending.payload = none) :
    d.step (.replace store) = { d with locked := Function.update d.locked store none } := by
  simp only [step, hlocked, dump_concat, hstored]
  rfl

/-- **Without another store in between, an append is one step.** -/
theorem append_uninterrupted {d : Directory S} {store : S} (hfree : d.locked store = none)
    {type : MemoryType} {payload : Fields} {files : Streams}
    (happend : d.files.append type payload = some files) :
    ((d.step (.read store type payload)).step (.replace store)).files = files := by
  rw [Streams.append_eq] at happend
  obtain ⟨stored, hstored, rfl⟩ := Option.map_eq_some_iff.1 happend
  have hlocked : (d.step (.read store type payload)).locked store
      = some ⟨type, payload, d.files type⟩ := by
    simp only [step, hfree, Function.update_self]
  rw [step_replace hlocked hstored]
  simp only [step, hfree]

/-! ### One stream of the directory -/

def stream (type : MemoryType) (d : Directory S) : SharedList S StoredPayload where
  content := d.files type
  held := fun store => heldAt PendingAppend.type PendingAppend.existing type (d.locked store)
  added := d.returned type

def access (type : MemoryType) (d : Directory S) : FileAction S → Access S StoredPayload
  | .read store readType _ =>
      if d.locked store = none ∧ readType = type then .read store else .idle
  | .replace store =>
      match d.locked store with
      | none => .idle
      | some pending =>
          if pending.type = type then
            match StoredPayload.ofFields pending.payload with
            | none => .drop store
            | some stored => .write store stored
          else .idle

omit [DecidableEq S] in
theorem stream_held {d : Directory S} {store : S} {pending : PendingAppend}
    (hlocked : d.locked store = some pending) :
    (stream pending.type d).held store = some pending.existing := by
  show heldAt _ _ pending.type (d.locked store) = _
  rw [hlocked, heldAt_self]

/-- A step of the directory is a step of each of its streams. -/
theorem stream_step (type : MemoryType) (d : Directory S) (action : FileAction S) :
    stream type (d.step action) = (stream type d).step (access type d action) := by
  cases action with
  | read store readType payload =>
      rcases hlocked : d.locked store with _ | pending
      · have hfree : heldAt PendingAppend.type PendingAppend.existing type (d.locked store) = none := by
          rw [hlocked]
          rfl
        by_cases htype : readType = type
        · subst htype
          simp only [step, access, hlocked, and_self, if_true, stream, heldAt_update,
            SharedList.step, heldAt_self PendingAppend.type PendingAppend.existing
              ⟨readType, payload, d.files readType⟩]
        · simp only [step, access, hlocked, htype, and_false, if_false, stream, heldAt_update,
            SharedList.step, heldAt_of_ne PendingAppend.type PendingAppend.existing
              ⟨readType, payload, d.files readType⟩ htype, update_heldAt_none hfree]
      · simp only [step, access, hlocked, reduceCtorEq, false_and, if_false, SharedList.step]
  | replace store =>
      rcases hlocked : d.locked store with _ | pending
      · simp only [step, access, hlocked, SharedList.step]
      · by_cases htype : pending.type = type
        · subst htype
          rcases hstored : StoredPayload.ofFields pending.payload with _ | stored
          · rw [step_replace_raised hlocked hstored]
            simp only [access, hlocked, hstored, if_true, SharedList.step]
            simp only [stream, heldAt_update]
            rfl
          · rw [step_replace hlocked hstored]
            simp only [access, hlocked, hstored, if_true, SharedList.step, stream_held hlocked]
            simp only [stream, heldAt_update, Function.update_self]
            rfl
        · have hother :
              heldAt PendingAppend.type PendingAppend.existing type (d.locked store) = none := by
            rw [hlocked, heldAt_of_ne _ _ _ htype]
          have hne : type ≠ pending.type := fun heq => htype heq.symm
          rcases hstored : StoredPayload.ofFields pending.payload with _ | stored
          · rw [step_replace_raised hlocked hstored]
            simp only [access, hlocked, htype, if_false, SharedList.step, stream, heldAt_update]
            exact congrArg (SharedList.mk _ · _) (update_heldAt_none hother)
          · rw [step_replace hlocked hstored]
            simp only [access, hlocked, htype, if_false, SharedList.step, stream, heldAt_update,
              Function.update_of_ne hne]
            exact congrArg (SharedList.mk _ · _) (update_heldAt_none hother)

omit [DecidableEq S] in
theorem fresh_iff (d : Directory S) (action : FileAction S) :
    Fresh d action ↔ ∀ type, SharedList.Fresh (stream type d) (access type d action) := by
  cases action with
  | read store readType payload =>
      refine iff_of_true trivial fun type => ?_
      simp only [access]
      split <;> trivial
  | replace store =>
      rcases hlocked : d.locked store with _ | pending
      · refine iff_of_true (fun _ hmem => nomatch hlocked ▸ hmem) fun type => ?_
        simp only [access, hlocked]
        trivial
      · rcases hstored : StoredPayload.ofFields pending.payload with _ | stored
        · refine iff_of_true (fun other hmem hsome => ?_) fun type => ?_
          · obtain rfl : pending = other := Option.some.inj (hlocked.symm.trans hmem)
            rw [hstored] at hsome
            cases hsome
          · simp only [access, hlocked, hstored]
            split <;> trivial
        · constructor
          · intro hfresh type
            by_cases htype : pending.type = type
            · subst htype
              simp only [access, hlocked, hstored, if_true]
              intro old hold
              rw [stream_held hlocked] at hold
              exact Option.some.inj hold ▸ hfresh pending hlocked (hstored ▸ rfl)
            · simp only [access, hlocked, htype, if_false]
              trivial
          · intro hfresh other hmem _
            obtain rfl : pending = other := Option.some.inj (hlocked.symm.trans hmem)
            have hwrite := hfresh pending.type
            simp only [access, hlocked, hstored, if_true] at hwrite
            exact hwrite pending.existing (stream_held hlocked)

theorem stream_perm_iff (initial : Streams) (actions : List (FileAction S)) (type : MemoryType) :
    ((actions.foldl step (opened initial)).files type).Perm
        (initial type ++ (actions.foldl step (opened initial)).returned type)
      ↔ EachStep step (fun d action => SharedList.Fresh (stream type d) (access type d action))
        (opened initial) actions := by
  rw [eachStep_project (stream_step type) (fun _ _ => Iff.rfl)]
  have hfinal := project_foldl (stream_step type) (opened initial) actions
  have hiff := SharedList.perm_iff_fresh (initial type)
    (projectActions step (access type) (opened initial) actions)
  rw [show stream type (opened initial) = SharedList.start (initial type) from rfl] at hfinal ⊢
  rw [← hfinal] at hiff
  exact hiff

/-- **No update is lost or duplicated exactly if every file is replaced as it was read.** -/
theorem run_noUpdateLost_iff (initial : Streams) (actions : List (FileAction S)) :
    NoUpdateLost initial (actions.foldl step (opened initial))
      ↔ EachStep step Fresh (opened initial) actions := by
  rw [eachStep_congr fresh_iff, eachStep_forall]
  exact forall_congr' fun type => stream_perm_iff initial actions type

/-- Two stores read the same stream before either of them replaces it. -/
def twoAppends : List (FileAction Bool) :=
  [.read false .execution [("id", .str "first")], .read true .execution [("id", .str "second")],
    .replace false, .replace true]

theorem two_stores_lose_an_update :
    ((twoAppends.foldl step (opened fun _ => [])).returned .execution).map StoredPayload.fields
        = [[("id", .str "first")], [("id", .str "second")]]
      ∧ ((twoAppends.foldl step (opened fun _ => [])).files .execution).map StoredPayload.fields
        = [[("id", .str "second")]]
      ∧ ¬ NoUpdateLost (fun _ => []) (twoAppends.foldl step (opened fun _ => [])) := by
  refine ⟨rfl, rfl, fun hkept => ?_⟩
  have hlength := (hkept .execution).length_eq
  exact absurd hlength (by decide)

/-- **A store that has its directory to itself loses no update**, whatever its clients do. -/
theorem run_noUpdateLost_alone (initial : Streams) (actions : List (FileAction Unit)) :
    NoUpdateLost initial (actions.foldl step (opened initial)) := by
  refine fun type => (stream_perm_iff initial actions type).2 (eachStep_of_invariant
    (fun d => ∀ store, ∀ pending ∈ d.locked store, pending.existing = d.files pending.type)
    ?_ ?_ nofun actions)
  · intro d action h
    cases action with
    | read store type payload =>
        rcases hlocked : d.locked store with _ | pending
        · simp only [step, hlocked]
          apply forall_held_update h
          rintro _ ⟨⟩
          rfl
        · simpa only [step, hlocked] using h
    | replace store =>
        have hnone : ∀ other, ∀ pending ∈ Function.update d.locked store none other,
            False := by
          intro other pending hmem
          rw [Subsingleton.elim other store, Function.update_self] at hmem
          cases hmem
        rcases hlocked : d.locked store with _ | pending
        · simpa only [step, hlocked] using h
        · rcases hstored : StoredPayload.ofFields pending.payload with _ | stored
          · rw [step_replace_raised hlocked hstored]
            exact fun other pending hmem => (hnone other pending hmem).elim
          · rw [step_replace hlocked hstored]
            exact fun other pending hmem => (hnone other pending hmem).elim
  · intro d action h
    refine (fresh_iff d action).1 ?_ type
    cases action with
    | read store type payload => trivial
    | replace store => exact fun pending hmem _ => h store pending hmem

end Directory

end PersonalDevin.Memory
