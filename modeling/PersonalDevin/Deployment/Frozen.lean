import PersonalDevin.SortedKeys

/-!
# Frozen values

`_freeze_value`, `_thaw_value` and `FrozenDict`. A frozen value holds tuples and dictionaries under
ascending keys, so it is its own frozen form, and thawing and freezing it gives it back. Every object
that is no container can be hashed.
-/

namespace PersonalDevin.Deployment

mutual

/-- `_freeze_value`. -/
def freeze : Value → Value
  | .list items => .tuple (freezeItems items)
  | .tuple items => .tuple (freezeItems items)
  | .dict entries => .dict (freezeEntries entries)
  | value => value

def freezeItems : List Value → List Value
  | [] => []
  | item :: rest => freeze item :: freezeItems rest

def freezeEntries : List (String × Value) → List (String × Value)
  | [] => []
  | (key, value) :: rest => Value.insertEntry key (freeze value) (freezeEntries rest)

end

mutual

/-- `_thaw_value`. -/
def thaw : Value → Value
  | .tuple items => .list (thawItems items)
  | .dict entries => .dict (thawEntries entries)
  | value => value

def thawItems : List Value → List Value
  | [] => []
  | item :: rest => thaw item :: thawItems rest

def thawEntries : List (String × Value) → List (String × Value)
  | [] => []
  | (key, value) :: rest => (key, thaw value) :: thawEntries rest

end

/-- A value that is no list, tuple or dictionary. -/
def isScalar : Value → Bool
  | .list _ => false
  | .tuple _ => false
  | .dict _ => false
  | _ => true

inductive Frozen : Value → Prop
  | scalar {value : Value} (h : isScalar value = true) : Frozen value
  | tuple {items : List Value} (hitems : ∀ item ∈ items, Frozen item) : Frozen (.tuple items)
  | dict {entries : Fields} (hascending : Ascending entries)
      (hvalues : ∀ entry ∈ entries, Frozen entry.2) : Frozen (.dict entries)

theorem freezeItems_eq_map (items : List Value) : freezeItems items = items.map freeze := by
  induction items with
  | nil => rfl
  | cons item rest ih => rw [freezeItems, ih, List.map_cons]

theorem thawItems_eq_map (items : List Value) : thawItems items = items.map thaw := by
  induction items with
  | nil => rfl
  | cons item rest ih => rw [thawItems, ih, List.map_cons]

theorem thawEntries_eq_map (entries : Fields) :
    thawEntries entries = entries.map fun entry => (entry.1, thaw entry.2) := by
  induction entries with
  | nil => rfl
  | cons entry rest ih => rw [thawEntries, ih, List.map_cons]

theorem ascending_thawEntries {entries : Fields} (h : Ascending entries) :
    Ascending (thawEntries entries) := by
  rw [thawEntries_eq_map]
  exact List.pairwise_map.2 h

theorem freezeEntries_eq (entries : Fields) : freezeEntries entries = sortEntries freeze entries := by
  induction entries with
  | nil => rfl
  | cons entry rest ih => rw [freezeEntries, ih, sortEntries]

theorem mem_freezeEntries_cons {entry first : String × Value} {rest : Fields}
    (h : entry ∈ freezeEntries (first :: rest)) :
    entry = (first.1, freeze first.2) ∨ entry ∈ freezeEntries rest :=
  List.mem_cons.1 ((insertEntry_perm _ _ _).mem_iff.1 h)

theorem freezeEntries_perm (entries : Fields) :
    (freezeEntries entries).Perm (entries.map fun entry => (entry.1, freeze entry.2)) := by
  rw [freezeEntries_eq]
  exact sortEntries_perm freeze entries

theorem ascending_freezeEntries (entries : Fields) : Ascending (freezeEntries entries) := by
  rw [freezeEntries_eq]
  exact ascending_sortEntries freeze entries

theorem freezeEntries_of_ascending {entries : Fields} (h : Ascending entries) :
    freezeEntries entries = entries.map fun entry => (entry.1, freeze entry.2) := by
  rw [freezeEntries_eq, sortEntries_of_ascending h]

theorem get?_freezeEntries (entries : Fields) (key : String) :
    Fields.get? (freezeEntries entries) key = (Fields.get? entries key).map freeze := by
  rw [freezeEntries_eq, get?_sortEntries]

/-- The entries whose keys a test lets through, frozen before or after. -/
theorem filter_freezeEntries (p : String → Bool) (entries : Fields) :
    (freezeEntries entries).filter (p ·.1) = freezeEntries (entries.filter (p ·.1)) := by
  rw [freezeEntries_eq, freezeEntries_eq, filter_sortEntries]

mutual

theorem frozen_freeze : ∀ value, Frozen (freeze value)
  | .none => .scalar rfl
  | .bool _ => .scalar rfl
  | .int _ => .scalar rfl
  | .float _ _ => .scalar rfl
  | .str _ => .scalar rfl
  | .object _ _ => .scalar rfl
  | .list items => .tuple (frozen_freezeItems items)
  | .tuple items => .tuple (frozen_freezeItems items)
  | .dict entries => .dict (ascending_freezeEntries entries) (frozen_freezeEntries entries)

theorem frozen_freezeItems : ∀ items, ∀ item ∈ freezeItems items, Frozen item
  | [], _, h => absurd h List.not_mem_nil
  | first :: rest, item, h => by
      rcases List.mem_cons.1 h with rfl | h
      · exact frozen_freeze first
      · exact frozen_freezeItems rest item h

theorem frozen_freezeEntries : ∀ entries, ∀ entry ∈ freezeEntries entries, Frozen entry.2
  | [], _, h => absurd h List.not_mem_nil
  | (key, value) :: rest, entry, h => by
      rcases mem_freezeEntries_cons h with rfl | h
      · exact frozen_freeze value
      · exact frozen_freezeEntries rest entry h

end

theorem freeze_of_scalar {value : Value} (h : isScalar value = true) : freeze value = value := by
  cases value with
  | list items => cases h
  | tuple items => cases h
  | dict entries => cases h
  | _ => rfl

theorem thaw_of_scalar {value : Value} (h : isScalar value = true) : thaw value = value := by
  cases value with
  | list items => cases h
  | tuple items => cases h
  | dict entries => cases h
  | _ => rfl

theorem sortKeys_of_scalar {value : Value} (h : isScalar value = true) : value.sortKeys = value := by
  cases value with
  | list items => cases h
  | tuple items => cases h
  | dict entries => cases h
  | _ => rfl

theorem sortKeysItems_eq_map (items : List Value) :
    Value.sortKeysItems items = items.map Value.sortKeys := by
  induction items with
  | nil => rfl
  | cons item rest ih => rw [Value.sortKeysItems, ih, List.map_cons]

theorem jsonItems_eq_self {items stored : List Value}
    (h : ∀ item ∈ items, ∀ {written}, item.jsonRoundTrip = some written → written = item)
    (hstored : Value.jsonItems items = some stored) : stored = items := by
  induction items generalizing stored with
  | nil => exact (Option.some.inj hstored).symm
  | cons item rest ih =>
      simp only [Value.jsonItems, Option.bind_eq_bind, Option.bind_eq_some_iff, Option.pure_def,
        Option.some.injEq] at hstored
      obtain ⟨written, hwritten, others, hothers, rfl⟩ := hstored
      obtain ⟨hitem, hrest⟩ := List.forall_mem_cons.1 h
      rw [hitem hwritten, ih hrest hothers]

theorem jsonEntries_eq_self {entries stored : Fields}
    (h : ∀ entry ∈ entries, ∀ {written}, entry.2.jsonRoundTrip = some written → written = entry.2)
    (hstored : Value.jsonEntries entries = some stored) : stored = entries := by
  induction entries generalizing stored with
  | nil => exact (Option.some.inj hstored).symm
  | cons entry rest ih =>
      simp only [Value.jsonEntries, Option.bind_eq_bind, Option.bind_eq_some_iff, Option.pure_def,
        Option.some.injEq] at hstored
      obtain ⟨written, hwritten, others, hothers, rfl⟩ := hstored
      obtain ⟨hentry, hrest⟩ := List.forall_mem_cons.1 h
      rw [hentry hwritten, ih hrest hothers]

namespace Frozen

variable {value : Value}

theorem freeze_eq (h : Frozen value) : freeze value = value := by
  induction h with
  | scalar h => exact freeze_of_scalar h
  | @tuple items _ ih =>
      have hitems : items.map freeze = items.map id := List.map_congr_left ih
      rw [freeze, freezeItems_eq_map, hitems, List.map_id]
  | dict hascending _ ih => rw [freeze, freezeEntries_eq, sortEntries_eq_self hascending ih]

theorem freeze_thaw (h : Frozen value) : freeze (thaw value) = value := by
  induction h with
  | scalar h => rw [thaw_of_scalar h, freeze_of_scalar h]
  | @tuple items _ ih =>
      have hitems : items.map (freeze ∘ thaw) = items.map id := List.map_congr_left ih
      rw [thaw, freeze, freezeItems_eq_map, thawItems_eq_map, List.map_map, hitems, List.map_id]
  | @dict entries hascending _ ih =>
      have hentries : (thawEntries entries).map (fun entry => (entry.1, freeze entry.2))
          = entries.map id := by
        rw [thawEntries_eq_map, List.map_map]
        apply List.map_congr_left
        intro entry hentry
        simp only [Function.comp_apply, ih entry hentry, Prod.mk.eta, id]
      rw [thaw, freeze, freezeEntries_of_ascending (ascending_thawEntries hascending), hentries,
        List.map_id]

/-- What `json` makes of a thawed value is the value itself: no tuple is left in it. -/
theorem json_thaw (h : Frozen value) {written : Value}
    (hjson : (thaw value).jsonRoundTrip = some written) : written = thaw value := by
  induction h generalizing written with
  | @scalar value h =>
      rw [thaw_of_scalar h] at hjson ⊢
      cases value with
      | object truthy text => cases hjson
      | list items => cases h
      | tuple items => cases h
      | dict entries => cases h
      | _ => exact (Option.some.inj hjson).symm
  | @tuple items _ ih =>
      obtain ⟨stored, hstored, rfl⟩ := Option.map_eq_some_iff.1 hjson
      rw [thaw, jsonItems_eq_self ?_ hstored]
      rw [thawItems_eq_map]
      intro item hitem written hwritten
      obtain ⟨frozen, hfrozen, rfl⟩ := List.mem_map.1 hitem
      exact ih frozen hfrozen hwritten
  | @dict entries _ _ ih =>
      obtain ⟨stored, hstored, rfl⟩ := Option.map_eq_some_iff.1 hjson
      rw [thaw, jsonEntries_eq_self ?_ hstored]
      rw [thawEntries_eq_map]
      intro entry hentry written hwritten
      obtain ⟨frozen, hfrozen, rfl⟩ := List.mem_map.1 hentry
      exact ih frozen hfrozen hwritten

theorem sortKeys_thaw (h : Frozen value) : (thaw value).sortKeys = thaw value := by
  induction h with
  | @scalar value h => rw [thaw_of_scalar h, sortKeys_of_scalar h]
  | @tuple items _ ih =>
      rw [thaw, Value.sortKeys, sortKeysItems_eq_map, thawItems_eq_map, List.map_map]
      congr 1
      exact List.map_congr_left ih
  | @dict entries hascending _ ih =>
      rw [thaw, Value.sortKeys, sortKeysEntries_of_ascending (ascending_thawEntries hascending)]
      rw [thawEntries_eq_map]
      intro entry hentry
      obtain ⟨frozen, hfrozen, rfl⟩ := List.mem_map.1 hentry
      exact ih frozen hfrozen

end Frozen

mutual

/-- A JSON value is one after it was frozen and thawed. -/
theorem json_thaw_freeze : ∀ {value : Value}, value.jsonRoundTrip.isSome →
    (thaw (freeze value)).jsonRoundTrip.isSome
  | .none, _ => rfl
  | .bool _, _ => rfl
  | .int _, _ => rfl
  | .float _ _, _ => rfl
  | .str _, _ => rfl
  | .list items, h => by
      rw [Value.jsonRoundTrip, Option.isSome_map] at h
      rw [freeze, thaw, Value.jsonRoundTrip, Option.isSome_map]
      exact json_thaw_freezeItems h
  | .tuple items, h => by
      rw [Value.jsonRoundTrip, Option.isSome_map] at h
      rw [freeze, thaw, Value.jsonRoundTrip, Option.isSome_map]
      exact json_thaw_freezeItems h
  | .dict entries, h => by
      rw [Value.jsonRoundTrip, Option.isSome_map] at h
      rw [freeze, thaw, Value.jsonRoundTrip, Option.isSome_map, Value.isSome_jsonEntries,
        thawEntries_eq_map]
      intro entry hentry
      obtain ⟨frozen, hfrozen, rfl⟩ := List.mem_map.1 hentry
      exact json_thaw_freezeEntries h frozen hfrozen

theorem json_thaw_freezeItems : ∀ {items : List Value}, (Value.jsonItems items).isSome →
    (Value.jsonItems (thawItems (freezeItems items))).isSome
  | [], _ => rfl
  | item :: rest, h => by
      obtain ⟨hitem, hrest⟩ := List.forall_mem_cons.1 (Value.isSome_jsonItems.1 h)
      have hothers := json_thaw_freezeItems (Value.isSome_jsonItems.2 hrest)
      rw [freezeItems, thawItems, Value.isSome_jsonItems]
      exact List.forall_mem_cons.2 ⟨json_thaw_freeze hitem, Value.isSome_jsonItems.1 hothers⟩

theorem json_thaw_freezeEntries : ∀ {entries : Fields}, (Value.jsonEntries entries).isSome →
    ∀ entry ∈ freezeEntries entries, (thaw entry.2).jsonRoundTrip.isSome
  | [], _, _, h => absurd h List.not_mem_nil
  | (key, value) :: rest, hjson, entry, h => by
      obtain ⟨hvalue, hrest⟩ := List.forall_mem_cons.1 (Value.isSome_jsonEntries.1 hjson)
      rcases mem_freezeEntries_cons h with rfl | h
      · exact json_thaw_freeze hvalue
      · exact json_thaw_freezeEntries (Value.isSome_jsonEntries.2 hrest) entry h

end

structure FrozenDict where
  data : Fields
  frozen : Frozen (.dict data)

namespace FrozenDict

def ofEntries (entries : Fields) : FrozenDict where
  data := freezeEntries entries
  frozen := frozen_freeze (.dict entries)

def get? (dict : FrozenDict) (key : String) : Option Value := Fields.get? dict.data key

def toDict (dict : FrozenDict) : Value := thaw (.dict dict.data)

theorem ext_data {dict other : FrozenDict} (h : dict.data = other.data) : dict = other := by
  cases dict
  cases other
  congr

theorem freezeEntries_data (dict : FrozenDict) : freezeEntries dict.data = dict.data :=
  Value.dict.inj dict.frozen.freeze_eq

theorem ofEntries_data (dict : FrozenDict) : ofEntries dict.data = dict :=
  ext_data dict.freezeEntries_data

theorem ofEntries_thawEntries (dict : FrozenDict) : ofEntries (thawEntries dict.data) = dict :=
  ext_data (Value.dict.inj dict.frozen.freeze_thaw)

end FrozenDict

/-! ### Rearranged values -/

/-- A value with the entries of dictionaries in another order, or with tuples for lists. -/
inductive Rearranged : Value → Value → Prop
  | refl (value : Value) : Rearranged value value
  | trans {value middle other : Value} (h : Rearranged value middle) (h' : Rearranged middle other) :
      Rearranged value other
  | toTuple (items : List Value) : Rearranged (.list items) (.tuple items)
  | toList (items : List Value) : Rearranged (.tuple items) (.list items)
  | permute {entries others : Fields} (hnodup : (entries.map Prod.fst).Nodup)
      (hperm : entries.Perm others) : Rearranged (.dict entries) (.dict others)
  | inList {before after : List Value} {value other : Value} (h : Rearranged value other) :
      Rearranged (.list (before ++ value :: after)) (.list (before ++ other :: after))
  | inTuple {before after : List Value} {value other : Value} (h : Rearranged value other) :
      Rearranged (.tuple (before ++ value :: after)) (.tuple (before ++ other :: after))
  | inDict {before after : Fields} {key : String} {value other : Value} (h : Rearranged value other) :
      Rearranged (.dict (before ++ (key, value) :: after)) (.dict (before ++ (key, other) :: after))

theorem freezeEntries_of_perm {entries others : Fields} (hnodup : (entries.map Prod.fst).Nodup)
    (hperm : entries.Perm others) : freezeEntries entries = freezeEntries others := by
  rw [freezeEntries_eq, freezeEntries_eq, sortEntries_of_perm hnodup hperm]

/-- **Rearranged values have one frozen form.** -/
theorem Rearranged.freeze_eq {value other : Value} (h : Rearranged value other) :
    freeze value = freeze other := by
  induction h with
  | refl value => rfl
  | trans _ _ ih ih' => exact ih.trans ih'
  | toTuple items => rfl
  | toList items => rfl
  | permute hnodup hperm => rw [freeze, freeze, freezeEntries_of_perm hnodup hperm]
  | inList _ ih =>
      simp only [freeze, freezeItems_eq_map, List.map_append, List.map_cons, ih]
  | inTuple _ ih =>
      simp only [freeze, freezeItems_eq_map, List.map_append, List.map_cons, ih]
  | inDict _ ih =>
      rw [freeze, freeze, freezeEntries_eq, freezeEntries_eq, sortEntries_append_cons ih]

end PersonalDevin.Deployment
