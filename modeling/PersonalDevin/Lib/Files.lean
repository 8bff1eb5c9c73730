import Mathlib.Logic.Function.Basic
import Mathlib.Data.List.Basic

/-!
# Files that are replaced

A directory of files and the effects that a process has on it, one after the other. A process that stops
leaves the effects it had so far. A file that is written under another name and then renamed is seen with
its old content or with its new one. Nothing here is about a program.
-/

namespace Lib

/-- The content of every file that exists. -/
abbrev Files (P β : Type) := P → Option (List β)

inductive FileEffect (P β : Type) where
  /-- The file is opened to be written. -/
  | truncate (path : P)
  | write (path : P) (symbol : β)
  /-- The first file is renamed to the second. -/
  | replace (source target : P)

namespace FileEffect

variable {P β : Type}

def Only (path : P) : FileEffect P β → Prop
  | truncate other => other = path
  | write other _ => other = path
  | replace _ _ => False

/-- The file is opened and written symbol by symbol. -/
def writeTo (path : P) (content : List β) : List (FileEffect P β) :=
  truncate path :: content.map (write path)

theorem only_of_mem_writeTo {path : P} {content : List β} {effect : FileEffect P β}
    (h : effect ∈ writeTo path content) : effect.Only path := by
  rcases List.mem_cons.1 h with rfl | h
  · rfl
  · obtain ⟨symbol, _, rfl⟩ := List.mem_map.1 h
    rfl

variable [DecidableEq P]

def apply (files : Files P β) : FileEffect P β → Files P β
  | truncate path => Function.update files path (some [])
  | write path symbol =>
      Function.update files path (some ((files path).getD [] ++ [symbol]))
  | replace source target =>
      match files source with
      | some content => Function.update (Function.update files target (some content)) source none
      | none => files

def applyAll (effects : List (FileEffect P β)) (files : Files P β) : Files P β :=
  effects.foldl apply files

theorem applyAll_append (effects more : List (FileEffect P β)) (files : Files P β) :
    applyAll (effects ++ more) files = applyAll more (applyAll effects files) :=
  List.foldl_append

theorem applyAll_of_only {path other : P} {effects : List (FileEffect P β)}
    (h : ∀ effect ∈ effects, effect.Only path) (hne : other ≠ path) (files : Files P β) :
    applyAll effects files other = files other := by
  induction effects generalizing files with
  | nil => rfl
  | cons effect rest ih =>
      obtain ⟨hfirst, hrest⟩ := List.forall_mem_cons.1 h
      refine (ih hrest (effect.apply files)).trans ?_
      cases effect with
      | truncate path' => exact Function.update_of_ne (hfirst ▸ hne) _ _
      | write path' symbol => exact Function.update_of_ne (hfirst ▸ hne) _ _
      | replace source target => exact hfirst.elim

/-! ### A file written anew -/

theorem applyAll_writeTo (path : P) (content : List β) (files : Files P β) :
    applyAll (writeTo path content) files = Function.update files path (some content) := by
  suffices hwrites : ∀ written : List β,
      applyAll (content.map (write path)) (Function.update files path (some written))
        = Function.update files path (some (written ++ content)) from hwrites []
  induction content with
  | nil => exact fun written => by rw [List.append_nil]; rfl
  | cons symbol rest ih =>
      intro written
      have hwrite : apply (Function.update files path (some written)) (write path symbol)
          = Function.update files path (some (written ++ [symbol])) := by
        rw [apply, Function.update_self, Function.update_idem]
        rfl
      show applyAll (rest.map (write path)) (apply _ (write path symbol)) = _
      rw [hwrite, ih, List.append_assoc]
      rfl

/-- A file written under a temporary name, and renamed at the end. -/
def writeAtomically (temporary path : P) (content : List β) : List (FileEffect P β) :=
  writeTo temporary content ++ [replace temporary path]

theorem applyAll_writeAtomically (temporary path : P) (content : List β) (files : Files P β) :
    applyAll (writeAtomically temporary path content) files
      = Function.update (Function.update files path (some content)) temporary none := by
  rw [writeAtomically, applyAll_append, applyAll_writeTo]
  show apply _ (replace temporary path) = _
  rw [apply, Function.update_self]
  funext other
  by_cases htemporary : other = temporary
  · subst htemporary
    simp
  · by_cases hpath : other = path
    · subst hpath
      simp [htemporary]
    · simp [htemporary, hpath]

end FileEffect

end Lib
