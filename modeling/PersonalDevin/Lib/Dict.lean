import Mathlib.Data.Finset.Card
import Mathlib.Data.List.Induction
import Mathlib.Data.List.Nodup

/-!
# Insertion-ordered dictionaries

A dictionary with unique keys that iterates in the order its keys were first inserted, the order of
the `dict` of a scripting language: assigning to a key that is present replaces its value in place,
assigning to a new key appends it. The uniqueness of the keys is a field of the structure, so an
ambiguous dictionary cannot be built.
-/

namespace Lib

variable {κ ν : Type}

/-- Assignment on the entries: replace in place, or append. -/
def upsert [DecidableEq κ] (k : κ) (v : ν) : List (κ × ν) → List (κ × ν)
  | [] => [(k, v)]
  | (k', v') :: rest => if k' = k then (k, v) :: rest else (k', v') :: upsert k v rest

theorem map_fst_upsert [DecidableEq κ] (k : κ) (v : ν) (entries : List (κ × ν)) :
    (upsert k v entries).map Prod.fst
      = if k ∈ entries.map Prod.fst then entries.map Prod.fst else entries.map Prod.fst ++ [k] := by
  induction entries with
  | nil => simp [upsert]
  | cons entry rest ih =>
      obtain ⟨k', v'⟩ := entry
      by_cases hk : k' = k
      · simp [upsert, hk]
      · have hne : k ≠ k' := fun h => hk h.symm
        simp only [upsert, if_neg hk, List.map_cons, ih, List.mem_cons, hne, false_or]
        split <;> rfl

theorem nodup_map_fst_upsert [DecidableEq κ] (k : κ) (v : ν) {entries : List (κ × ν)}
    (h : (entries.map Prod.fst).Nodup) : ((upsert k v entries).map Prod.fst).Nodup := by
  rw [map_fst_upsert]
  split
  · exact h
  · rename_i hk
    rw [← List.concat_eq_append]
    exact List.Nodup.concat hk h

theorem lookup_cons_ite [DecidableEq κ] (k k₀ : κ) (v : ν) (rest : List (κ × ν)) :
    ((k₀, v) :: rest).lookup k = if k = k₀ then some v else rest.lookup k := by
  by_cases h : k = k₀
  · simp [h]
  · have hbeq : (k == k₀) = false := by simpa using h
    simp [List.lookup_cons, hbeq, h]

theorem lookup_upsert [DecidableEq κ] (k : κ) (v : ν) (k' : κ) (entries : List (κ × ν)) :
    (upsert k v entries).lookup k' = if k' = k then some v else entries.lookup k' := by
  induction entries with
  | nil => simp [upsert, lookup_cons_ite]
  | cons entry rest ih =>
      obtain ⟨k₀, v₀⟩ := entry
      by_cases hk : k₀ = k
      · subst hk
        by_cases h : k' = k₀ <;> simp [upsert, lookup_cons_ite, h]
      · simp only [upsert, if_neg hk, lookup_cons_ite, ih]
        by_cases h : k' = k₀
        · simp [h, hk]
        · simp [h]

/-- A dictionary: entries in insertion order, with pairwise distinct keys. -/
structure Dict (κ ν : Type) where
  entries : List (κ × ν)
  nodup : (entries.map Prod.fst).Nodup

namespace Dict

def empty : Dict κ ν := ⟨[], List.nodup_nil⟩

/-- The keys, in insertion order. -/
def keys (d : Dict κ ν) : List κ := d.entries.map Prod.fst

variable [DecidableEq κ]

/-- `d.get(k)`: the value of a key, or nothing. -/
def get? (d : Dict κ ν) (k : κ) : Option ν := d.entries.lookup k

/-- `d.get(k, default)`. -/
def getD (d : Dict κ ν) (k : κ) (default : ν) : ν := (d.get? k).getD default

/-- `d[k] = v`. -/
def set (d : Dict κ ν) (k : κ) (v : ν) : Dict κ ν :=
  ⟨upsert k v d.entries, nodup_map_fst_upsert k v d.nodup⟩

theorem keys_set (d : Dict κ ν) (k : κ) (v : ν) :
    (d.set k v).keys = if k ∈ d.keys then d.keys else d.keys ++ [k] :=
  map_fst_upsert k v d.entries

theorem keys_set_of_mem {d : Dict κ ν} {k : κ} (h : k ∈ d.keys) (v : ν) :
    (d.set k v).keys = d.keys := by
  rw [keys_set, if_pos h]

theorem keys_set_of_not_mem {d : Dict κ ν} {k : κ} (h : k ∉ d.keys) (v : ν) :
    (d.set k v).keys = d.keys ++ [k] := by
  rw [keys_set, if_neg h]

theorem get?_set (d : Dict κ ν) (k : κ) (v : ν) (k' : κ) :
    (d.set k v).get? k' = if k' = k then some v else d.get? k' :=
  lookup_upsert k v k' d.entries

@[simp] theorem get?_set_self (d : Dict κ ν) (k : κ) (v : ν) : (d.set k v).get? k = some v := by
  rw [get?_set, if_pos rfl]

theorem get?_set_of_ne (d : Dict κ ν) {k k' : κ} (h : k' ≠ k) (v : ν) :
    (d.set k v).get? k' = d.get? k' := by
  rw [get?_set, if_neg h]

theorem get?_isSome_iff (d : Dict κ ν) (k : κ) : (d.get? k).isSome ↔ k ∈ d.keys := by
  obtain ⟨entries, hnodup⟩ := d
  simp only [get?, keys]
  clear hnodup
  induction entries with
  | nil => simp
  | cons entry rest ih =>
      obtain ⟨k₀, v₀⟩ := entry
      by_cases h : k = k₀
      · simp [h]
      · rw [lookup_cons_ite, if_neg h, ih, List.map_cons, List.mem_cons]
        exact ⟨Or.inr, fun hmem => hmem.resolve_left h⟩

theorem mem_entries_iff {d : Dict κ ν} {k : κ} {v : ν} :
    (k, v) ∈ d.entries ↔ d.get? k = some v := by
  rw [get?, List.lookup_eq_some_iff]
  constructor
  · intro hmem
    obtain ⟨before, after, hentries⟩ := List.mem_iff_append.1 hmem
    refine ⟨before, after, hentries, fun entry hentry => ?_⟩
    have hnodup := d.nodup
    rw [hentries, List.map_append, List.map_cons, List.nodup_append] at hnodup
    have hne := hnodup.2.2 entry.1 (List.mem_map_of_mem hentry) k List.mem_cons_self
    simpa using hne.symm
  · rintro ⟨before, after, hentries, -⟩
    exact hentries ▸ List.mem_append_right _ List.mem_cons_self

/-- The values, in insertion order. -/
def values (d : Dict κ ν) : List ν := d.entries.map Prod.snd

theorem mem_values_iff {d : Dict κ ν} {v : ν} : v ∈ d.values ↔ ∃ k, d.get? k = some v := by
  simp only [values, List.mem_map, Prod.exists, mem_entries_iff, exists_eq_right]

omit [DecidableEq κ] in
theorem length_values (d : Dict κ ν) : d.values.length = d.keys.length := by
  rw [values, keys, List.length_map, List.length_map]

/-- The dictionary has as many entries as there are keys. -/
theorem length_keys {d : Dict κ ν} {ks : List κ} (h : ∀ k, k ∈ d.keys ↔ k ∈ ks) :
    d.keys.length = ks.toFinset.card := by
  have hsame : d.keys.toFinset = ks.toFinset := by
    ext k
    rw [List.mem_toFinset, List.mem_toFinset, h]
  rw [← hsame]
  exact (List.toFinset_card_of_nodup d.nodup).symm

theorem length_keys_le {d : Dict κ ν} {ks : List κ} (h : ∀ k ∈ d.keys, k ∈ ks) :
    d.keys.length ≤ ks.toFinset.card := by
  have hcard : d.keys.toFinset.card = d.keys.length := List.toFinset_card_of_nodup d.nodup
  rw [← hcard]
  exact Finset.card_le_card fun k hk => List.mem_toFinset.2 (h k (List.mem_toFinset.1 hk))

theorem map_snd_upsert_perm {k : κ} {old : ν} (v : ν) {entries : List (κ × ν)}
    (h : entries.lookup k = some old) :
    (old :: (upsert k v entries).map Prod.snd).Perm (v :: entries.map Prod.snd) := by
  induction entries with
  | nil => cases h
  | cons entry rest ih =>
      obtain ⟨k', v'⟩ := entry
      rw [lookup_cons_ite] at h
      by_cases hk : k' = k
      · subst hk
        rw [if_pos rfl] at h
        obtain rfl := Option.some.inj h
        rw [upsert, if_pos rfl]
        exact .swap _ _ _
      · rw [if_neg (Ne.symm hk)] at h
        rw [upsert, if_neg hk, List.map_cons, List.map_cons]
        exact (List.Perm.swap _ _ _).trans (((ih h).cons v').trans (.swap _ _ _))

/-- Assigning to a key that is present exchanges its value. -/
theorem values_set_perm {d : Dict κ ν} {k : κ} {old : ν} (h : d.get? k = some old) (v : ν) :
    (old :: (d.set k v).values).Perm (v :: d.values) := map_snd_upsert_perm v h

theorem upsert_of_lookup_eq_none {k : κ} (v : ν) {entries : List (κ × ν)}
    (h : entries.lookup k = none) : upsert k v entries = entries ++ [(k, v)] := by
  induction entries with
  | nil => rfl
  | cons entry rest ih =>
      obtain ⟨k', v'⟩ := entry
      rw [lookup_cons_ite] at h
      by_cases hk : k' = k
      · rw [if_pos hk.symm] at h
        cases h
      · rw [if_neg (Ne.symm hk)] at h
        rw [upsert, if_neg hk, ih h]
        rfl

/-- Assigning to a new key adds its value. -/
theorem values_set_of_none {d : Dict κ ν} {k : κ} (h : d.get? k = none) (v : ν) :
    (d.set k v).values = d.values ++ [v] := by
  show (upsert k v d.entries).map Prod.snd = d.entries.map Prod.snd ++ [v]
  rw [upsert_of_lookup_eq_none v h, List.map_append]
  rfl

theorem get?_eq_none_iff (d : Dict κ ν) (k : κ) : d.get? k = none ↔ k ∉ d.keys := by
  rw [← get?_isSome_iff, Option.not_isSome_iff_eq_none]

omit [DecidableEq κ] in
theorem map_fst_map_snd {μ : Type} (f : ν → μ) (entries : List (κ × ν)) :
    (entries.map fun entry => (entry.1, f entry.2)).map Prod.fst = entries.map Prod.fst := by
  rw [List.map_map]
  rfl

/-- The same keys in the same order, with another value for each. -/
def mapValues {μ : Type} (f : ν → μ) (d : Dict κ ν) : Dict κ μ :=
  ⟨d.entries.map fun entry => (entry.1, f entry.2), (map_fst_map_snd f d.entries).symm ▸ d.nodup⟩

theorem get?_mapValues {μ : Type} (f : ν → μ) (d : Dict κ ν) (k : κ) :
    (d.mapValues f).get? k = (d.get? k).map f := by
  obtain ⟨entries, hnodup⟩ := d
  simp only [get?, mapValues]
  clear hnodup
  induction entries with
  | nil => rfl
  | cons entry rest ih =>
      rw [List.map_cons, lookup_cons_ite, lookup_cons_ite, ih]
      split <;> rfl

/-! ### Filling a dictionary -/

theorem mem_keys_set {d : Dict κ ν} {k k' : κ} {v : ν} :
    k' ∈ (d.set k v).keys ↔ k' ∈ d.keys ∨ k' = k := by
  rw [keys_set]
  split
  · rename_i hk
    exact ⟨.inl, fun h => h.elim (fun h => h) fun heq => heq ▸ hk⟩
  · rw [List.mem_append, List.mem_singleton]

/-- One assignment for each element of a list. -/
def setAll {γ : Type} (key : γ → κ) (value : γ → ν) (d : Dict κ ν) (l : List γ) : Dict κ ν :=
  l.foldl (fun d a => d.set (key a) (value a)) d

theorem mem_keys_setAll {γ : Type} {key : γ → κ} {value : γ → ν} {d : Dict κ ν} {l : List γ} {k : κ} :
    k ∈ (setAll key value d l).keys ↔ k ∈ d.keys ∨ k ∈ l.map key := by
  induction l generalizing d with
  | nil => simp [setAll]
  | cons a rest ih =>
      have hstep : setAll key value d (a :: rest) = setAll key value (d.set (key a) (value a)) rest :=
        rfl
      rw [hstep, ih, mem_keys_set, List.map_cons, List.mem_cons, or_assoc]

theorem get?_setAll_of_not_mem {γ : Type} {key : γ → κ} {value : γ → ν} {d : Dict κ ν} {l : List γ}
    {k : κ} (hk : k ∉ l.map key) : (setAll key value d l).get? k = d.get? k := by
  induction l generalizing d with
  | nil => rfl
  | cons a rest ih =>
      rw [List.map_cons, List.mem_cons, not_or] at hk
      exact (ih hk.2).trans (get?_set_of_ne d hk.1 (value a))

theorem exists_of_get?_setAll {γ : Type} {key : γ → κ} {value : γ → ν} {d : Dict κ ν} {l : List γ}
    {k : κ} {v : ν} (h : (setAll key value d l).get? k = some v) :
    d.get? k = some v ∨ ∃ a ∈ l, key a = k ∧ value a = v := by
  induction l generalizing d with
  | nil => exact .inl h
  | cons a rest ih =>
      rcases @ih (d.set (key a) (value a)) h with hset | ⟨b, hb, hkey, hvalue⟩
      · rw [get?_set] at hset
        split at hset
        · rename_i hk
          exact .inr ⟨a, List.mem_cons_self, hk.symm, Option.some.inj hset⟩
        · exact .inl hset
      · exact .inr ⟨b, List.mem_cons_of_mem a hb, hkey, hvalue⟩

/-- With distinct keys nothing is overwritten. -/
theorem get?_setAll {γ : Type} {key : γ → κ} {value : γ → ν} {d : Dict κ ν} {l : List γ}
    (hnodup : (l.map key).Nodup) {a : γ} (ha : a ∈ l) :
    (setAll key value d l).get? (key a) = some (value a) := by
  induction l generalizing d with
  | nil => cases ha
  | cons b rest ih =>
      rw [List.map_cons, List.nodup_cons] at hnodup
      rcases List.mem_cons.1 ha with rfl | hrest
      · exact (get?_setAll_of_not_mem hnodup.1).trans (get?_set_self d (key a) (value a))
      · exact ih hnodup.2 hrest

/-- `d.update(other)`. -/
def update (d other : Dict κ ν) : Dict κ ν := setAll Prod.fst Prod.snd d other.entries

omit [DecidableEq κ] in
theorem ext_entries {d d' : Dict κ ν} (h : d.entries = d'.entries) : d = d' := by
  cases d
  cases d'
  congr

theorem entries_setAll_of_new {γ : Type} {key : γ → κ} {value : γ → ν} {d : Dict κ ν} {l : List γ}
    (hnodup : (l.map key).Nodup) (hnew : ∀ a ∈ l, key a ∉ d.keys) :
    (setAll key value d l).entries = d.entries ++ l.map fun a => (key a, value a) := by
  induction l generalizing d with
  | nil => exact (List.append_nil _).symm
  | cons a rest ih =>
      rw [List.map_cons, List.nodup_cons] at hnodup
      have hset : (d.set (key a) (value a)).entries = d.entries ++ [(key a, value a)] :=
        upsert_of_lookup_eq_none (value a)
          ((get?_eq_none_iff d (key a)).2 (hnew a List.mem_cons_self))
      have hrest : ∀ b ∈ rest, key b ∉ (d.set (key a) (value a)).keys := by
        intro b hb hmem
        rcases mem_keys_set.1 hmem with hold | hsame
        · exact hnew b (List.mem_cons_of_mem a hb) hold
        · exact hnodup.1 (hsame ▸ List.mem_map_of_mem hb)
      show (setAll key value (d.set (key a) (value a)) rest).entries = _
      rw [ih hnodup.2 hrest, hset, List.append_assoc, List.map_cons, List.singleton_append]

/-- Filling an emptied dictionary from a copy gives back what was copied, its order included. -/
theorem update_empty (d : Dict κ ν) : update .empty d = d := by
  apply ext_entries
  have hnew : ∀ entry ∈ d.entries, entry.1 ∉ (empty : Dict κ ν).keys :=
    fun _ _ hmem => List.not_mem_nil hmem
  rw [update, entries_setAll_of_new d.nodup hnew]
  exact List.map_id _

/-- How often each element occurs, in the order of the first occurrences. -/
def tally (l : List κ) : Dict κ ℕ :=
  l.foldl (fun counter k => counter.set k (counter.getD k 0 + 1)) .empty

theorem get?_tally (l : List κ) (k : κ) :
    (tally l).get? k = if k ∈ l then some (l.count k) else none := by
  induction l using List.reverseRecOn with
  | nil => rfl
  | append_singleton rest last ih =>
      have hconcat : tally (rest ++ [last])
          = (tally rest).set last ((tally rest).getD last 0 + 1) := by
        rw [tally, List.foldl_append]
        rfl
      rw [hconcat, get?_set, List.count_append, List.count_singleton]
      by_cases hk : k = last
      · subst hk
        rw [if_pos rfl, if_pos (List.mem_append_right _ (List.mem_singleton_self k)), getD, ih]
        split
        · simp
        · rename_i hnot
          simp [List.count_eq_zero_of_not_mem hnot]
      · have hbeq : (last == k) = false := by simpa using Ne.symm hk
        simp [hk, hbeq, ih]

end Dict

end Lib
