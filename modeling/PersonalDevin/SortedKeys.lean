import PersonalDevin.Value
import Mathlib.Data.List.Sort
import Mathlib.Data.String.Basic

/-!
# Entries under ascending keys

What `insertEntry` makes of entries whose keys ascend, and `sort_keys=True` of a value that is sorted
already.
-/

namespace PersonalDevin

def Ascending (entries : Fields) : Prop := entries.Pairwise fun a b => a.1 ≤ b.1

theorem insertEntry_eq (key : String) (value : Value) (entries : Fields) :
    Value.insertEntry key value entries = entries.orderedInsert (·.1 ≤ ·.1) (key, value) := by
  induction entries with
  | nil => rfl
  | cons entry rest ih => rw [Value.insertEntry, List.orderedInsert_cons, ih]

theorem insertEntry_perm (key : String) (value : Value) (entries : Fields) :
    (Value.insertEntry key value entries).Perm ((key, value) :: entries) := by
  rw [insertEntry_eq]
  exact List.perm_orderedInsert _ _ _

theorem ascending_insertEntry (key : String) (value : Value) {entries : Fields}
    (h : Ascending entries) : Ascending (Value.insertEntry key value entries) := by
  have : Std.Total fun a b : String × Value => a.1 ≤ b.1 := ⟨fun a b => le_total a.1 b.1⟩
  have : IsTrans (String × Value) fun a b => a.1 ≤ b.1 := ⟨fun _ _ _ => le_trans⟩
  rw [insertEntry_eq]
  exact List.Pairwise.orderedInsert _ _ h

theorem insertEntry_of_ascending {key : String} {value : Value} {entries : Fields}
    (h : Ascending ((key, value) :: entries)) :
    Value.insertEntry key value entries = (key, value) :: entries := by
  cases entries with
  | nil => rfl
  | cons entry rest => exact if_pos ((List.pairwise_cons.1 h).1 entry List.mem_cons_self)

theorem get?_insertEntry (key key' : String) (value : Value) (entries : Fields) :
    Fields.get? (Value.insertEntry key value entries) key'
      = if key' = key then some value else Fields.get? entries key' := by
  induction entries with
  | nil =>
      by_cases hkey : key' = key
      · simp [Value.insertEntry, Fields.get?, hkey]
      · simp [Value.insertEntry, Fields.get?, hkey]
  | cons entry rest ih =>
      obtain ⟨first, other⟩ := entry
      rw [Value.insertEntry]
      split
      · by_cases hkey : key' = key
        · simp [Fields.get?, hkey]
        · have hkey' : (key' == key) = false := by simpa using hkey
          simp only [Fields.get?, List.lookup_cons, hkey', if_neg hkey]
      · rename_i hle
        simp only [Fields.get?, List.lookup_cons] at ih ⊢
        by_cases hfirst : key' = first
        · have hne : key' ≠ key := fun h => hle (h ▸ hfirst ▸ le_refl _)
          simp [hfirst, hfirst ▸ hne]
        · have hfirst' : (key' == first) = false := by simpa using hfirst
          simp only [hfirst', ih]

/-- Entries with other keys are dropped before or after. -/
theorem filter_insertEntry (p : String → Bool) (key : String) (value : Value) {entries : Fields}
    (h : Ascending entries) :
    (Value.insertEntry key value entries).filter (p ·.1)
      = if p key then Value.insertEntry key value (entries.filter (p ·.1))
        else entries.filter (p ·.1) := by
  induction entries with
  | nil =>
      by_cases hkey : p key
      · simp [Value.insertEntry, hkey]
      · simp [Value.insertEntry, hkey]
  | cons entry rest ih =>
      obtain ⟨hentry, hrest⟩ := List.pairwise_cons.1 h
      rw [Value.insertEntry]
      split
      · rename_i hle
        have hbefore : Ascending ((key, value) :: (entry :: rest).filter (p ·.1)) := by
          refine List.pairwise_cons.2 ⟨fun other hother => ?_, h.filter _⟩
          rcases List.mem_cons.1 (List.mem_of_mem_filter hother) with rfl | hother
          · exact hle
          · exact le_trans hle (hentry other hother)
        rw [insertEntry_of_ascending hbefore, List.filter_cons]
      · rename_i hle
        rw [List.filter_cons, ih hrest, List.filter_cons]
        by_cases hkey : p key <;> by_cases hfirst : p entry.1
        · simp [hkey, hfirst, Value.insertEntry, hle]
        · simp [hkey, hfirst]
        · simp [hkey, hfirst]
        · simp [hkey, hfirst]

/-- Sorted in two ways, entries with different keys come out the same. -/
theorem eq_of_perm_of_ascending {entries others : Fields} (hnodup : (entries.map Prod.fst).Nodup)
    (hperm : entries.Perm others) (h : Ascending entries) (h' : Ascending others) :
    entries = others := by
  refine hperm.eq_of_pairwise (fun a b ha hb hle hge => ?_) h h'
  exact List.inj_on_of_nodup_map hnodup ha (hperm.mem_iff.2 hb) (le_antisymm hle hge)

/-! ### Sorting entries -/

/-- The entries under ascending keys, with a function applied to the values. -/
def sortEntries (f : Value → Value) : Fields → Fields
  | [] => []
  | (key, value) :: rest => Value.insertEntry key (f value) (sortEntries f rest)

variable {f : Value → Value}

theorem sortEntries_perm (f : Value → Value) (entries : Fields) :
    (sortEntries f entries).Perm (entries.map fun entry => (entry.1, f entry.2)) := by
  induction entries with
  | nil => exact .refl _
  | cons entry rest ih => exact (insertEntry_perm _ _ _).trans (ih.cons _)

theorem ascending_sortEntries (f : Value → Value) (entries : Fields) :
    Ascending (sortEntries f entries) := by
  induction entries with
  | nil => exact List.Pairwise.nil
  | cons entry rest ih => exact ascending_insertEntry _ _ ih

theorem exists_of_mem_sortEntries {entries : Fields} {entry : String × Value}
    (h : entry ∈ sortEntries f entries) :
    ∃ value, (entry.1, value) ∈ entries ∧ f value = entry.2 := by
  obtain ⟨⟨key, value⟩, hmem, rfl⟩ := List.mem_map.1 ((sortEntries_perm f entries).mem_iff.1 h)
  exact ⟨value, hmem, rfl⟩

theorem sortEntries_of_ascending {entries : Fields} (h : Ascending entries) :
    sortEntries f entries = entries.map fun entry => (entry.1, f entry.2) := by
  induction entries with
  | nil => rfl
  | cons entry rest ih =>
      have hmap : Ascending ((entry :: rest).map fun entry => (entry.1, f entry.2)) :=
        List.pairwise_map.2 h
      rw [sortEntries, ih (List.pairwise_cons.1 h).2]
      exact insertEntry_of_ascending hmap

theorem sortEntries_eq_self {entries : Fields} (h : Ascending entries)
    (hvalues : ∀ entry ∈ entries, f entry.2 = entry.2) : sortEntries f entries = entries := by
  have hmap : entries.map (fun entry => (entry.1, f entry.2)) = entries.map id :=
    List.map_congr_left fun entry hentry => by rw [hvalues entry hentry]; rfl
  rw [sortEntries_of_ascending h, hmap, List.map_id]

theorem get?_sortEntries (f : Value → Value) (entries : Fields) (key : String) :
    Fields.get? (sortEntries f entries) key = (Fields.get? entries key).map f := by
  induction entries with
  | nil => rfl
  | cons entry rest ih =>
      obtain ⟨first, value⟩ := entry
      rw [sortEntries, get?_insertEntry, ih]
      by_cases hkey : key = first
      · simp [Fields.get?, hkey]
      · have hkey' : (key == first) = false := by simpa using hkey
        simp only [Fields.get?, List.lookup_cons, hkey', if_neg hkey]

/-- The entries whose keys a test lets through, sorted before or after. -/
theorem filter_sortEntries (f : Value → Value) (p : String → Bool) (entries : Fields) :
    (sortEntries f entries).filter (p ·.1) = sortEntries f (entries.filter (p ·.1)) := by
  induction entries with
  | nil => rfl
  | cons entry rest ih =>
      rw [sortEntries, filter_insertEntry p _ _ (ascending_sortEntries f rest), ih,
        List.filter_cons]
      split
      · rfl
      · rfl

/-- **The order of the entries is lost.** -/
theorem sortEntries_of_perm {entries others : Fields} (hnodup : (entries.map Prod.fst).Nodup)
    (hperm : entries.Perm others) : sortEntries f entries = sortEntries f others := by
  have hkeys : ((sortEntries f entries).map Prod.fst).Nodup := by
    rw [((sortEntries_perm f entries).map Prod.fst).nodup_iff, List.map_map]
    exact hnodup
  have hsorted : (sortEntries f entries).Perm (sortEntries f others) :=
    (sortEntries_perm f entries).trans ((hperm.map _).trans (sortEntries_perm f others).symm)
  exact eq_of_perm_of_ascending hkeys hsorted (ascending_sortEntries f entries)
    (ascending_sortEntries f others)

/-- A value that is exchanged for one with the same image. -/
theorem sortEntries_append_cons {before after : Fields} {key : String} {value other : Value}
    (h : f value = f other) :
    sortEntries f (before ++ (key, value) :: after) = sortEntries f (before ++ (key, other) :: after) := by
  induction before with
  | nil => simp only [List.nil_append, sortEntries, h]
  | cons entry before ih => simp only [List.cons_append, sortEntries, ih]

theorem sortKeysEntries_eq (entries : Fields) :
    Value.sortKeysEntries entries = sortEntries Value.sortKeys entries := by
  induction entries with
  | nil => rfl
  | cons entry rest ih => rw [Value.sortKeysEntries, ih, sortEntries]

theorem sortKeysEntries_of_ascending {entries : Fields} (h : Ascending entries)
    (hvalues : ∀ entry ∈ entries, entry.2.sortKeys = entry.2) :
    Value.sortKeysEntries entries = entries :=
  (sortKeysEntries_eq entries).trans (sortEntries_eq_self h hvalues)

end PersonalDevin
