import PersonalDevin.Planning.Planner

/-!
# The feedback context

`plan` and `FeedbackEngine.adjust_task` both write the failures to avoid and the preferred strategies of
a feedback context into the metadata of a task. The first works on a deep copy and gives the planner the
result, the second on a shallow copy that it returns. The dictionaries they write to are cells of a heap,
so that a write through a shared reference would show.
-/

namespace PersonalDevin.Planning

open Lib

/-! ### Dictionaries in memory -/

/-- What the `metadata` entry holds: a reference to a dictionary, or another value. -/
inductive Slot where
  | ref (address : ℕ)
  | value (v : Value)

/-- A task dictionary: its `metadata` entry and its other entries. -/
structure TaskDict where
  metadata : Option Slot
  others : Fields
  plain : others.get? "metadata" = none

/-- The task dictionaries and the metadata dictionaries, by address. -/
structure Heap where
  tasks : List TaskDict
  dicts : List Fields

namespace Heap

variable (heap : Heap)

def task (t : ℕ) : TaskDict := heap.tasks.getD t ⟨none, [], rfl⟩

def dict (a : ℕ) : Fields := heap.dicts.getD a []

def load : Slot → Value
  | .ref a => .dict (heap.dict a)
  | .value v => v

/-- The task dictionary as a value. -/
def fields (t : ℕ) : Fields :=
  (heap.task t).others
    ++ ((heap.task t).metadata.map fun slot => ("metadata", heap.load slot)).toList

/-- `dict(d)`. -/
def allocDict (d : Fields) : ℕ × Heap := (heap.dicts.length, { heap with dicts := heap.dicts ++ [d] })

/-- `dict(task)`: the entries of the copy are those of the task. -/
def copyTask (t : ℕ) : ℕ × Heap :=
  (heap.tasks.length, { heap with tasks := heap.tasks ++ [heap.task t] })

/-- `deepcopy(task)`: a metadata dictionary is copied as well. -/
def deepcopy (t : ℕ) : ℕ × Heap :=
  match (heap.task t).metadata with
  | some (.ref a) =>
      (heap.tasks.length,
        { tasks := heap.tasks ++ [{ heap.task t with metadata := some (.ref heap.dicts.length) }]
          dicts := heap.dicts ++ [heap.dict a] })
  | _ => heap.copyTask t

/-- `d[key] = value`. -/
def setEntry (a : ℕ) (key : String) (value : Value) : Heap :=
  { heap with dicts := heap.dicts.modify a (upsert key value) }

/-- `task["metadata"] = d`. -/
def setMetadata (t a : ℕ) : Heap :=
  { heap with tasks := heap.tasks.modify t fun task => { task with metadata := some (.ref a) } }

/-- `task.get("metadata")`, or an empty dictionary where it is none. -/
def metadataOrEmpty (t : ℕ) : Fields :=
  match (heap.task t).metadata.map heap.load with
  | some (.dict d) => d
  | _ => []

end Heap

/-! ### The two readers of a context -/

/-- `str(item.get(key))`, for a dictionary with a true value under the key. -/
def itemText (key : String) : Value → Option String
  | .dict item =>
      match Fields.get? item key with
      | some v => if v.truthy then some v.pyStr else none
      | none => none
  | _ => none

/-- `sorted({str(item.get("signature")) for item in items if ...})`. -/
def signatures (items : List Value) : List String :=
  DependencyGraph.sorted (items.filterMap (itemText "signature")).dedup

/-- The texts of the strategies that are not empty. -/
def strategies (items : List Value) : List String :=
  (items.filterMap (itemText "strategy")).filter (· ≠ "")

def setTexts (heap : Heap) (a : ℕ) (key : String) (texts : List String) : Heap :=
  if texts ≠ [] then heap.setEntry a key (.list (texts.map .str)) else heap

/-- `plan`: the texts of the items, where the context has a list. -/
def setListed (heap : Heap) (a : ℕ) (key : String) (texts : List Value → List String) :
    Option Value → Heap
  | some (.list items) => setTexts heap a key (texts items)
  | _ => heap

/-- `adjust_task`: the texts of the items, where the context has a list that is not empty. -/
def setNonEmpty (heap : Heap) (a : ℕ) (key : String) (texts : List Value → List String) :
    Option Value → Heap
  | some (.list items) => if items ≠ [] then setTexts heap a key (texts items) else heap
  | _ => heap

def plan (task : ℕ) (context : Option Fields) (heap : Heap) : Except PlanError ExecutionPlan × Heap :=
  let (normalizedTask, heap) := heap.deepcopy task
  match context with
  | none => (buildExecutionPlan [.dict (heap.fields normalizedTask)], heap)
  | some context =>
      let (metadata, heap) := heap.allocDict (heap.metadataOrEmpty normalizedTask)
      let heap := setListed heap metadata "avoid_failure_signatures" signatures
        (context.get? "repeated_failures")
      let heap := setListed heap metadata "preferred_strategies" strategies
        (context.get? "success_strategies")
      let heap := if heap.dict metadata ≠ [] then heap.setMetadata normalizedTask metadata else heap
      (buildExecutionPlan [.dict (heap.fields normalizedTask)], heap)

/-- `FeedbackEngine.adjust_task`: the address of the adjusted task. -/
def adjustTask (task : ℕ) (context : Fields) (heap : Heap) : ℕ × Heap :=
  let (adjusted, heap) := heap.copyTask task
  let (metadata, heap) := heap.allocDict (heap.metadataOrEmpty adjusted)
  let heap := setNonEmpty heap metadata "avoid_failure_signatures" signatures
    (context.get? "repeated_failures")
  let heap := setNonEmpty heap metadata "preferred_strategies" strategies
    (context.get? "success_strategies")
  (adjusted, heap.setMetadata adjusted metadata)

/-! ### What a call changes -/

namespace Heap

/-- Every dictionary that was there is there, with its entries. -/
structure Extends (old new : Heap) : Prop where
  tasks : old.tasks <+: new.tasks
  dicts : old.dicts <+: new.dicts

variable {heap : Heap}

theorem task_concat {ts : List TaskDict} {task : TaskDict} {ds : List Fields} :
    (⟨ts ++ [task], ds⟩ : Heap).task ts.length = task := by
  simp [Heap.task]

theorem dict_concat {ts : List TaskDict} {d : Fields} {ds : List Fields} :
    (⟨ts, ds ++ [d]⟩ : Heap).dict ds.length = d := by
  simp [dict]

theorem modify_concat {γ : Type} (l : List γ) (a : γ) (f : γ → γ) :
    (l ++ [a]).modify l.length f = l ++ [f a] := by
  simp [List.modify_eq_take_drop]

/-- The entries of a copied task, whose metadata dictionary may be the same or a new one. -/
theorem deepcopy_spec (heap : Heap) (t : ℕ) :
    ∃ task ds, heap.deepcopy t = (heap.tasks.length, ⟨heap.tasks ++ [task], ds⟩)
      ∧ heap.dicts <+: ds ∧ task.others = (heap.task t).others
      ∧ ∀ ts d, task.metadata.map (⟨ts, ds ++ [d]⟩ : Heap).load
        = (heap.task t).metadata.map heap.load
        ∧ task.metadata.map (⟨ts, ds⟩ : Heap).load = (heap.task t).metadata.map heap.load := by
  unfold deepcopy
  rcases hmetadata : (heap.task t).metadata with _ | ⟨a | v⟩
  · exact ⟨heap.task t, heap.dicts, rfl, List.prefix_refl _, rfl, fun _ _ => by simp [hmetadata]⟩
  · refine ⟨_, heap.dicts ++ [heap.dict a], rfl, List.prefix_append _ _, rfl, fun ts d => ?_⟩
    simp [load, dict]
  · exact ⟨heap.task t, heap.dicts, rfl, List.prefix_refl _, rfl, fun _ _ => by
      simp [hmetadata, load]⟩

end Heap

/-! ### The metadata both come to -/

def withTexts (key : String) (texts : List String) (metadata : Fields) : Fields :=
  if texts ≠ [] then upsert key (.list (texts.map .str)) metadata else metadata

def withListed (key : String) (texts : List Value → List String) (metadata : Fields) :
    Option Value → Fields
  | some (.list items) => withTexts key (texts items) metadata
  | _ => metadata

def adjusted (context metadata : Fields) : Fields :=
  withListed "preferred_strategies" strategies
    (withListed "avoid_failure_signatures" signatures metadata (context.get? "repeated_failures"))
    (context.get? "success_strategies")

variable {ts : List TaskDict} {ds : List Fields} {d : Fields} {key : String}

theorem setTexts_concat (texts : List String) :
    setTexts ⟨ts, ds ++ [d]⟩ ds.length key texts = ⟨ts, ds ++ [withTexts key texts d]⟩ := by
  unfold setTexts withTexts
  split
  · rw [Heap.setEntry, Heap.modify_concat]
  · rfl

theorem setListed_concat (texts : List Value → List String) (value : Option Value) :
    setListed ⟨ts, ds ++ [d]⟩ ds.length key texts value
      = ⟨ts, ds ++ [withListed key texts d value]⟩ := by
  unfold setListed withListed
  split
  · exact setTexts_concat _
  · rfl

/-- What is left of a call of `plan`: the copy refers to the new metadata, if there is any. -/
theorem plan_eq {heap : Heap} {t : ℕ} {task : TaskDict} (context : Fields)
    (hcopy : heap.deepcopy t = (heap.tasks.length, ⟨heap.tasks ++ [task], ds⟩)) :
    plan t (some context) heap =
      let metadata := adjusted context
        ((⟨heap.tasks ++ [task], ds⟩ : Heap).metadataOrEmpty heap.tasks.length)
      let last : Heap := ⟨heap.tasks ++ [if metadata ≠ [] then
        { task with metadata := some (.ref ds.length) } else task], ds ++ [metadata]⟩
      (buildExecutionPlan [.dict (last.fields heap.tasks.length)], last) := by
  simp only [plan, hcopy, Heap.allocDict, setListed_concat, Heap.dict_concat]
  unfold adjusted
  split
  · rw [Heap.setMetadata, Heap.modify_concat]
  · rfl

namespace Heap

variable {heap : Heap} {t : ℕ}

theorem get?_fields_of_ne (hkey : key ≠ "metadata") :
    (heap.fields t).get? key = (heap.task t).others.get? key := by
  rw [fields, Fields.get?, Fields.get?, List.lookup_append]
  cases (heap.task t).metadata with
  | none => exact Option.or_none
  | some slot =>
      have hbeq : (key == "metadata") = false := by simpa using hkey
      simp [List.lookup_cons, hbeq]

theorem get?_fields_metadata :
    (heap.fields t).get? "metadata" = (heap.task t).metadata.map heap.load := by
  have hplain : List.lookup "metadata" (heap.task t).others = none := (heap.task t).plain
  rw [fields, Fields.get?, List.lookup_append, hplain]
  cases (heap.task t).metadata <;> simp

end Heap

/-- A task with a name, a description and no dependencies. -/
structure Standalone (entries : Fields) (id description : String) : Prop where
  id_eq : entries.get? "id" = some (.str id)
  id_ne : id ≠ ""
  description_eq : entries.get? "description" = some (.str description)
  description_ne : description ≠ ""
  dependencies_eq : entries.get? "dependencies" = some (.list [])

theorem buildExecutionPlan_single {fields : Fields} {node : TaskNode}
    (hnode : TaskNode.fromDict fields = some node) (hdeps : node.dependencies = []) :
    ∃ plan, buildExecutionPlan [.dict fields] = .ok plan ∧ plan.orderedTasks = [node] := by
  have hraw : List.Forall₂ Describes [.dict fields] [node] := .cons ⟨fields, rfl, hnode⟩ .nil
  have hvalid : ValidTasks [node] := by
    refine ⟨List.nodup_singleton _, fun task htask dep hdep => ?_⟩
    rw [List.mem_singleton.1 htask, hdeps] at hdep
    cases hdep
  have hnone : ∀ a b, ¬ DependsOn [node] a b := by
    rintro a b ⟨task, htask, -, hdep⟩
    rw [List.mem_singleton.1 htask, hdeps] at hdep
    cases hdep
  have hacyclic : Acyclic (DependsOn [node]) := fun a hcycle => by
    obtain ⟨b, hab, -⟩ := Relation.TransGen.head'_iff.1 hcycle
    exact hnone a b hab
  have hfree : DuplicateFree [node] := fun task htask => by
    rw [List.mem_singleton.1 htask, hdeps]
    exact List.nodup_nil
  rw [buildExecutionPlan_of_describes hraw]
  rcases buildPlan_spec hvalid with ⟨plan, hok, hplanned⟩ | ⟨hnot, -⟩
  · exact ⟨plan, hok, List.perm_singleton.1 hplanned.perm⟩
  · exact absurd ⟨hacyclic, hfree⟩ hnot

/-- The context has something to write: a failure with a signature, or a strategy with a text. -/
def Injects (context : Fields) : Prop :=
  (∃ items, context.get? "repeated_failures" = some (.list items)
      ∧ ∃ item ∈ items, ∃ text, itemText "signature" item = some text)
    ∨ ∃ items, context.get? "success_strategies" = some (.list items)
      ∧ ∃ item ∈ items, ∃ text, itemText "strategy" item = some text ∧ text ≠ ""

theorem signatures_ne_nil_iff {items : List Value} :
    signatures items ≠ [] ↔ ∃ item ∈ items, ∃ text, itemText "signature" item = some text := by
  have hmem : ∀ text, text ∈ signatures items ↔ ∃ item ∈ items, itemText "signature" item = some text :=
    fun text => (List.mem_insertionSort (· ≤ ·)).trans (List.mem_dedup.trans List.mem_filterMap)
  constructor
  · intro h
    obtain ⟨text, htext⟩ := List.exists_mem_of_ne_nil _ h
    obtain ⟨item, hitem, heq⟩ := (hmem text).1 htext
    exact ⟨item, hitem, text, heq⟩
  · rintro ⟨item, hitem, text, heq⟩
    exact List.ne_nil_of_mem ((hmem text).2 ⟨item, hitem, heq⟩)

theorem strategies_ne_nil_iff {items : List Value} :
    strategies items ≠ []
      ↔ ∃ item ∈ items, ∃ text, itemText "strategy" item = some text ∧ text ≠ "" := by
  have hmem : ∀ text, text ∈ strategies items
      ↔ (∃ item ∈ items, itemText "strategy" item = some text) ∧ text ≠ "" := fun text => by
    rw [strategies, List.mem_filter, List.mem_filterMap, decide_eq_true_iff]
  constructor
  · intro h
    obtain ⟨text, htext⟩ := List.exists_mem_of_ne_nil _ h
    obtain ⟨⟨item, hitem, heq⟩, hne⟩ := (hmem text).1 htext
    exact ⟨item, hitem, text, heq, hne⟩
  · rintro ⟨item, hitem, text, heq, hne⟩
    exact List.ne_nil_of_mem ((hmem text).2 ⟨⟨item, hitem, heq⟩, hne⟩)

theorem upsert_ne_nil (key : String) (value : Value) (entries : Fields) :
    upsert key value entries ≠ [] := by
  cases entries with
  | nil => exact List.cons_ne_nil _ _
  | cons entry rest =>
      rw [upsert]
      split <;> exact List.cons_ne_nil _ _

theorem withListed_ne_nil_iff {texts : List Value → List String} {metadata : Fields}
    {value : Option Value} :
    withListed key texts metadata value ≠ []
      ↔ (∃ items, value = some (.list items) ∧ texts items ≠ []) ∨ metadata ≠ [] := by
  unfold withListed
  split
  · rename_i items
    have hitems : (∃ other, some (Value.list items) = some (.list other) ∧ texts other ≠ [])
        ↔ texts items ≠ [] := by simp
    rw [hitems, withTexts]
    split
    · rename_i htexts
      exact iff_of_true (upsert_ne_nil _ _ _) (.inl htexts)
    · rename_i htexts
      rw [or_iff_right htexts]
  · rename_i hother
    exact (or_iff_right fun ⟨items, heq, _⟩ => hother items heq).symm

theorem adjusted_ne_nil_iff {context metadata : Fields} :
    adjusted context metadata ≠ [] ↔ Injects context ∨ metadata ≠ [] := by
  simp only [adjusted, withListed_ne_nil_iff, signatures_ne_nil_iff, strategies_ne_nil_iff, Injects]
  exact or_left_comm.trans or_assoc.symm

/-- The metadata entry is missing, or a dictionary. -/
def DictOrMissing (heap : Heap) (t : ℕ) : Prop :=
  ∀ v, (heap.task t).metadata.map heap.load = some v → ∃ d, v = .dict d

theorem dictOrEmpty_eq_iff {heap : Heap} {t : ℕ} :
    dictOrEmpty ((heap.task t).metadata.map heap.load) = some (heap.metadataOrEmpty t)
      ↔ DictOrMissing heap t := by
  unfold DictOrMissing Heap.metadataOrEmpty
  rcases (heap.task t).metadata.map heap.load with _ | v
  · exact iff_of_true rfl fun _ h => by cases h
  · cases v with
    | dict d => exact iff_of_true rfl fun v h => ⟨d, (Option.some.inj h).symm⟩
    | _ =>
        refine iff_of_false (fun h => by cases h) fun h => ?_
        obtain ⟨d, hd⟩ := h _ rfl
        cases hd

/-- Both calls return, the one task of the plan has the metadata of the adjusted task, and every
dictionary that was there before is as it was. -/
def Agrees (heap : Heap) (t : ℕ) (context : Fields) : Prop :=
  (∃ executionPlan node, (plan t (some context) heap).1 = .ok executionPlan
      ∧ executionPlan.orderedTasks = [node]
      ∧ ((adjustTask t context heap).2.fields (adjustTask t context heap).1).get? "metadata"
        = some (.dict node.metadata))
    ∧ heap.Extends (plan t (some context) heap).2
    ∧ heap.Extends (adjustTask t context heap).2

end PersonalDevin.Planning
