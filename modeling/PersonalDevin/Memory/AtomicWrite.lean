import PersonalDevin.Lib.Files
import PersonalDevin.Memory.RoundTrip

/-!
# The store writes its files atomically

`MemoryStore` on a directory, effect by effect. The encoder writes into the temporary file while it goes
through the payloads, so where it raises, or where the process stops, a part of them is left there; the
next write starts the temporary file anew. What the encoder writes before it raises is left open.
-/

namespace PersonalDevin.Memory

open Lib FileEffect

/-- `json.dump` of a list into a file, and `json.load`. What was written to the end is read as the
payloads that JSON keeps. -/
structure Json (β : Type) where
  /-- What is written before `json.dump` returns or raises, and whether it returns. -/
  emit : List Fields → List β × Bool
  newline : β
  load : List β → Option (List StoredPayload)
  emit_returns : ∀ payloads, (emit payloads).2 = (dump payloads).isSome
  load_emit : ∀ {payloads stored}, dump payloads = some stored →
    load ((emit payloads).1 ++ [newline]) = some stored

namespace MemoryStore

/-- `_FILE_BY_TYPE`. -/
def filePath : MemoryType → String
  | .execution => "executions.json"
  | .task => "tasks.json"
  | .failure => "failures.json"
  | .decision => "decisions.json"

/-- `path.with_suffix(path.suffix + ".tmp")`. -/
def temporaryPath (type : MemoryType) : String := filePath type ++ ".tmp"

theorem filePath_injective {type type' : MemoryType} (h : filePath type = filePath type') :
    type = type' := by
  cases type <;> cases type' <;> first | rfl | exact absurd h (by decide)

theorem filePath_ne_temporaryPath (type type' : MemoryType) :
    filePath type ≠ temporaryPath type' := by
  cases type <;> cases type' <;> decide

variable {β : Type} (json : Json β)

/-- `_atomic_write`: its effects, and whether it returns. -/
def atomicWrite (type : MemoryType) (payloads : List Fields) : List (FileEffect String β) × Bool :=
  if (json.emit payloads).2 then
    (writeAtomically (temporaryPath type) (filePath type)
      ((json.emit payloads).1 ++ [json.newline]), true)
  else (writeTo (temporaryPath type) (json.emit payloads).1, false)

/-- `_read_all_unlocked`: its effects, and what it returns. -/
def readAllUnlocked (files : Files String β) (type : MemoryType) :
    List (FileEffect String β) × Option (List StoredPayload) :=
  match files (filePath type) with
  | none => ((atomicWrite json type []).1, some [])
  | some content => ([], json.load content)

/-- `append`: its effects, and whether it returns. -/
def append (files : Files String β) (type : MemoryType) (payload : Fields) :
    List (FileEffect String β) × Bool :=
  match readAllUnlocked json files type with
  | (initial, none) => (initial, false)
  | (initial, some existing) =>
      let (writes, returns) := atomicWrite json type (existing.map StoredPayload.fields ++ [payload])
      (initial ++ writes, returns)

/-- The effects of `_ensure_layout` for some types: a file that is missing is made as by a read. -/
def ensureLayout (files : Files String β) : List MemoryType → List (FileEffect String β)
  | [] => []
  | type :: rest =>
      let initial := (readAllUnlocked json files type).1
      initial ++ ensureLayout (applyAll initial files) rest

/-- What the streams are read back as; nothing stands for a file that cannot be read. -/
def contents (files : Files String β) (type : MemoryType) : Option (List StoredPayload) :=
  (readAllUnlocked json files type).2

/-! ### Effects that are not seen -/

variable {json} {files : Files String β} {type : MemoryType}

theorem contents_congr {files' : Files String β}
    (h : ∀ type, files' (filePath type) = files (filePath type)) :
    contents json files' = contents json files := by
  funext type
  rw [contents, contents, readAllUnlocked, readAllUnlocked, h type]

/-- **A temporary file is not seen.** -/
theorem contents_of_only {effects : List (FileEffect String β)}
    (h : ∀ effect ∈ effects, effect.Only (temporaryPath type)) :
    contents json (applyAll effects files) = contents json files :=
  contents_congr fun type' => applyAll_of_only h (filePath_ne_temporaryPath type' type) files

/-- A file that is replaced by another content. -/
theorem contents_writeAtomically (content : List β) :
    contents json (applyAll (writeAtomically (temporaryPath type) (filePath type) content) files)
      = Function.update (contents json files) type (json.load content) := by
  rw [applyAll_writeAtomically]
  funext other
  rw [contents, readAllUnlocked, Function.update_of_ne (filePath_ne_temporaryPath other type)]
  by_cases hother : other = type
  · subst hother
    rw [Function.update_self, Function.update_self]
  · rw [Function.update_of_ne (fun h => hother (filePath_injective h)), Function.update_of_ne hother,
      contents, readAllUnlocked]

theorem only_of_mem_dropLast {payloads : List Fields} {effect : FileEffect String β}
    (h : effect ∈ (atomicWrite json type payloads).1.dropLast) :
    effect.Only (temporaryPath type) := by
  rw [atomicWrite] at h
  split at h
  · rw [writeAtomically, List.dropLast_concat] at h
    exact only_of_mem_writeTo h
  · exact only_of_mem_writeTo (List.mem_of_mem_dropLast h)

theorem atomicWrite_nil (json : Json β) (type : MemoryType) :
    atomicWrite json type [] = (writeAtomically (temporaryPath type) (filePath type)
      ((json.emit []).1 ++ [json.newline]), true) := by
  rw [atomicWrite, json.emit_returns]
  rfl

/-- Some of the effects of a read: a file that is missing is read as an empty list before and after. -/
theorem contents_take_readAllUnlocked (n : ℕ) :
    contents json (applyAll ((readAllUnlocked json files type).1.take n) files)
      = contents json files := by
  cases hfile : files (filePath type) with
  | some content =>
      rw [readAllUnlocked, hfile, List.take_nil]
      rfl
  | none =>
      have heffects : (readAllUnlocked json files type).1 = (atomicWrite json type []).1 := by
        rw [readAllUnlocked, hfile]
      rw [heffects]
      by_cases hn : (atomicWrite json type []).1.length ≤ n
      · have hempty : contents json files type = some [] := by rw [contents, readAllUnlocked, hfile]
        have hload : json.load ((json.emit []).1 ++ [json.newline]) = some [] := json.load_emit rfl
        rw [List.take_of_length_le hn, atomicWrite_nil, contents_writeAtomically, hload, ← hempty,
          Function.update_eq_self]
      · have honly : ∀ effect ∈ (atomicWrite json type []).1.take n,
            effect.Only (temporaryPath type) := by
          intro effect hmem
          have hdropped : effect ∈ (atomicWrite json type []).1.dropLast := by
            rw [List.dropLast_eq_take]
            exact List.take_subset_take_left _ (by omega) hmem
          exact only_of_mem_dropLast hdropped
        exact contents_of_only honly

theorem contents_take_ensureLayout (types : List MemoryType) (n : ℕ) (files : Files String β) :
    contents json (applyAll ((ensureLayout json files types).take n) files)
      = contents json files := by
  induction types generalizing n files with
  | nil => rw [ensureLayout, List.take_nil]; rfl
  | cons type rest ih =>
      rw [ensureLayout, List.take_append, applyAll_append]
      by_cases hn : (readAllUnlocked json files type).1.length ≤ n
      · rw [List.take_of_length_le hn, ih, ← List.take_length (l := (readAllUnlocked json files type).1)]
        exact contents_take_readAllUnlocked _
      · have hzero : n - (readAllUnlocked json files type).1.length = 0 := by omega
        rw [hzero, List.take_zero]
        exact contents_take_readAllUnlocked _

theorem contents_readAllUnlocked :
    contents json (applyAll (readAllUnlocked json files type).1 files) = contents json files := by
  have h : contents json (applyAll ((readAllUnlocked json files type).1.take _) files)
      = contents json files :=
    contents_take_readAllUnlocked (readAllUnlocked json files type).1.length
  rwa [List.take_length] at h

/-! ### Appends -/

variable {payload : Fields}

/-- The payload can be written, or the encoder raises somewhere. -/
theorem atomicWrite_cases (json : Json β) (type : MemoryType) (existing : List StoredPayload)
    (payload : Fields) :
    (StoredPayload.ofFields payload = none
      ∧ ∃ written, atomicWrite json type (existing.map StoredPayload.fields ++ [payload])
        = (writeTo (temporaryPath type) written, false))
    ∨ ∃ stored content, StoredPayload.ofFields payload = some stored
      ∧ json.load content = some (existing ++ [stored])
      ∧ atomicWrite json type (existing.map StoredPayload.fields ++ [payload])
        = (writeAtomically (temporaryPath type) (filePath type) content, true) := by
  have hdump := dump_concat existing payload
  rw [atomicWrite, json.emit_returns, hdump]
  cases hstored : StoredPayload.ofFields payload with
  | none => exact .inl ⟨rfl, _, rfl⟩
  | some stored =>
      rw [hstored] at hdump
      exact .inr ⟨stored, _, rfl, json.load_emit hdump, rfl⟩

theorem append_of_unreadable (payload : Fields) (h : contents json files type = none) :
    append json files type payload = ((readAllUnlocked json files type).1, false) := by
  rw [contents] at h
  rw [append]
  rcases hread : readAllUnlocked json files type with ⟨initial, _ | existing⟩
  · rfl
  · rw [hread] at h
    cases h

theorem append_of_readable (payload : Fields) {existing : List StoredPayload}
    (h : contents json files type = some existing) :
    append json files type payload
      = ((readAllUnlocked json files type).1
          ++ (atomicWrite json type (existing.map StoredPayload.fields ++ [payload])).1,
        (atomicWrite json type (existing.map StoredPayload.fields ++ [payload])).2) := by
  rw [contents] at h
  rw [append]
  rcases hread : readAllUnlocked json files type with ⟨initial, _ | _⟩
  · rw [hread] at h
    cases h
  · rw [hread] at h
    cases h
    rfl

/-- **What an append does to the streams.** -/
def appended (streams : MemoryType → Option (List StoredPayload)) (type : MemoryType)
    (payload : Fields) : MemoryType → Option (List StoredPayload) :=
  match StoredPayload.ofFields payload, streams type with
  | some stored, some existing => Function.update streams type (some (existing ++ [stored]))
  | _, _ => streams

theorem contents_append (payload : Fields) :
    contents json (applyAll (append json files type payload).1 files)
      = appended (contents json files) type payload := by
  rw [appended]
  cases hexisting : contents json files type with
  | none =>
      rw [append_of_unreadable payload hexisting, contents_readAllUnlocked]
      cases StoredPayload.ofFields payload <;> rfl
  | some existing =>
      rw [append_of_readable payload hexisting, applyAll_append]
      rcases atomicWrite_cases json type existing payload with
        ⟨hnone, written, hwrite⟩ | ⟨stored, content, hstored, hload, hwrite⟩
      · rw [hwrite, hnone, contents_of_only fun _ => only_of_mem_writeTo, contents_readAllUnlocked]
      · rw [hwrite, hstored, contents_writeAtomically, contents_readAllUnlocked, hload]

theorem append_returns_iff (payload : Fields) :
    (append json files type payload).2 = true
      ↔ (StoredPayload.ofFields payload).isSome = true
        ∧ (contents json files type).isSome = true := by
  cases hexisting : contents json files type with
  | none => simp [append_of_unreadable payload hexisting]
  | some existing =>
      rw [append_of_readable payload hexisting]
      rcases atomicWrite_cases json type existing payload with
        ⟨hnone, written, hwrite⟩ | ⟨stored, content, hstored, hload, hwrite⟩
      · simp [hwrite, hnone]
      · simp [hwrite, hstored]

/-- **Before its last effect an append is not seen.** -/
theorem contents_take_append (payload : Fields) (n : ℕ) :
    contents json (applyAll ((append json files type payload).1.dropLast.take n) files)
      = contents json files := by
  cases hexisting : contents json files type with
  | none =>
      rw [append_of_unreadable payload hexisting, List.dropLast_eq_take, List.take_take]
      exact contents_take_readAllUnlocked _
  | some existing =>
      have hne : (atomicWrite json type (existing.map StoredPayload.fields ++ [payload])).1 ≠ [] := by
        rw [atomicWrite]
        split <;> simp [writeAtomically, writeTo]
      rw [append_of_readable payload hexisting, List.dropLast_append_of_ne_nil hne, List.take_append,
        applyAll_append]
      by_cases hn : (readAllUnlocked json files type).1.length ≤ n
      · rw [List.take_of_length_le hn, contents_of_only, contents_readAllUnlocked]
        exact fun effect hmem => only_of_mem_dropLast (List.mem_of_mem_take hmem)
      · have hzero : n - (readAllUnlocked json files type).1.length = 0 := by omega
        rw [hzero, List.take_zero]
        exact contents_take_readAllUnlocked _

/-! ### Any history of operations -/

inductive Operation where
  /-- A store is opened on the directory. -/
  | start
  | readAll (type : MemoryType)
  | append (type : MemoryType) (payload : Fields)

/-- An operation, and where the process stops before the last effect, after how many effects. -/
structure Attempt where
  operation : Operation
  stop : Option ℕ

def Operation.effects (json : Json β) (files : Files String β) :
    Operation → List (FileEffect String β)
  | start => ensureLayout json files MemoryType.all
  | readAll type => (readAllUnlocked json files type).1
  | append type payload => (MemoryStore.append json files type payload).1

def Attempt.perform (json : Json β) (files : Files String β) (attempt : Attempt) :
    Files String β :=
  match attempt.stop with
  | none => applyAll (attempt.operation.effects json files) files
  | some n => applyAll ((attempt.operation.effects json files).dropLast.take n) files

def Attempt.meaning (streams : MemoryType → Option (List StoredPayload)) :
    Attempt → MemoryType → Option (List StoredPayload)
  | { operation := .append type payload, stop := none } => appended streams type payload
  | _ => streams

theorem contents_perform (files : Files String β) (attempt : Attempt) :
    contents json (attempt.perform json files) = attempt.meaning (contents json files) := by
  rcases attempt with ⟨operation, _ | n⟩
  · cases operation with
    | start =>
        have h : contents json (applyAll ((ensureLayout json files MemoryType.all).take _) files)
            = contents json files :=
          contents_take_ensureLayout MemoryType.all (ensureLayout json files MemoryType.all).length files
        rwa [List.take_length] at h
    | readAll type => exact contents_readAllUnlocked
    | append type payload => exact contents_append payload
  · cases operation with
    | start =>
        show contents json (applyAll (List.take _ (List.dropLast _)) _) = _
        rw [List.dropLast_eq_take, List.take_take]
        exact contents_take_ensureLayout _ _ _
    | readAll type =>
        show contents json (applyAll (List.take _ (List.dropLast _)) _) = _
        rw [List.dropLast_eq_take, List.take_take]
        exact contents_take_readAllUnlocked _
    | append type payload => exact contents_take_append payload n

def performAll (json : Json β) (files : Files String β) (attempts : List Attempt) :
    Files String β :=
  attempts.foldl (Attempt.perform json) files

theorem contents_performAll (files : Files String β) (attempts : List Attempt) :
    contents json (performAll json files attempts)
      = attempts.foldl Attempt.meaning (contents json files) := by
  induction attempts generalizing files with
  | nil => rfl
  | cons attempt rest ih =>
      rw [List.foldl_cons, ← contents_perform]
      exact ih (attempt.perform json files)

/-- **An append happens or it does not.** After any operations, some of which may have been stopped: an
append returns if and only if its payload can be written and its stream can be read. One that raises or
is stopped leaves all streams as they were, and one that returns leaves its payload at the end of its
stream, as it was if it holds JSON values only. -/
theorem append_atomic (json : Json β) (files : Files String β) (attempts : List Attempt)
    (type : MemoryType) (payload : Fields) :
    let reached := performAll json files attempts
    let before := contents json reached
    let append := MemoryStore.append json reached type payload
    before = attempts.foldl Attempt.meaning (contents json files)
      ∧ (append.2 = true
        ↔ (StoredPayload.ofFields payload).isSome = true ∧ (before type).isSome = true)
      ∧ (append.2 = false → contents json (applyAll append.1 reached) = before)
      ∧ (∀ n, contents json (applyAll (append.1.dropLast.take n) reached) = before)
      ∧ (append.2 = true → ∃ existing stored, before type = some existing
        ∧ contents json (applyAll append.1 reached)
          = Function.update before type (some (existing ++ [stored]))
        ∧ (JsonNative payload → stored.fields = payload)) := by
  intro reached before append
  refine ⟨contents_performAll files attempts, append_returns_iff payload, fun hraised => ?_,
    contents_take_append payload, fun hreturned => ?_⟩
  · have hnot : ¬ ((StoredPayload.ofFields payload).isSome = true ∧ (before type).isSome = true) :=
      fun hboth => Bool.false_ne_true (hraised.symm.trans ((append_returns_iff payload).2 hboth))
    rw [contents_append, appended]
    split
    · rename_i stored existing hstored hexisting
      refine absurd ⟨by rw [hstored]; rfl, ?_⟩ hnot
      exact Option.isSome_iff_exists.2 ⟨existing, hexisting⟩
    · rfl
  · obtain ⟨hstored, hexisting⟩ := (append_returns_iff payload).1 hreturned
    obtain ⟨stored, hstored⟩ := Option.isSome_iff_exists.1 hstored
    obtain ⟨existing, hexisting⟩ := Option.isSome_iff_exists.1 hexisting
    refine ⟨existing, stored, hexisting, ?_, fun hnative => ?_⟩
    · rw [contents_append, appended, hstored, hexisting]
    · have hentries := StoredPayload.ofFields_eq_some_iff.1 hstored
      exact Option.some.inj (hentries.symm.trans hnative.entries)

end MemoryStore

end PersonalDevin.Memory
