import PersonalDevin.Lib.Dict
import PersonalDevin.Lib.Effects
import Mathlib.Data.List.Induction
import Mathlib.Data.List.Sort

/-!
# Groups and rankings

The elements of a list under a key each, the sorting by a key that need not exist, and the sorting by a
comparison that can raise. Nothing here is about a program.
-/

namespace Lib

variable {α κ ε σ : Type}

/-! ### Groups -/

section Groups

variable [DecidableEq κ] (key : α → κ)

/-- The elements under their keys, in the order of the list. -/
def groupBy (l : List α) : Dict κ (List α) :=
  l.foldl (fun groups a => groups.set (key a) (groups.getD (key a) [] ++ [a])) Dict.empty

theorem groupBy_concat (l : List α) (a : α) :
    groupBy key (l ++ [a])
      = (groupBy key l).set (key a) ((groupBy key l).getD (key a) [] ++ [a]) := by
  rw [groupBy, List.foldl_append]
  rfl

theorem getD_groupBy (l : List α) (k : κ) :
    (groupBy key l).getD k [] = l.filter (key · = k) := by
  induction l using List.reverseRecOn with
  | nil => rfl
  | append_singleton rest a ih =>
      rw [groupBy_concat, List.filter_append, ← ih, Dict.getD, Dict.get?_set]
      by_cases hk : k = key a
      · subst hk
        simp
      · have hne : key a ≠ k := fun h => hk h.symm
        simp [hk, hne, Dict.getD]

theorem mem_keys_groupBy (l : List α) (k : κ) :
    k ∈ (groupBy key l).keys ↔ ∃ a ∈ l, key a = k := by
  induction l using List.reverseRecOn with
  | nil => simp [groupBy, Dict.empty, Dict.keys]
  | append_singleton rest a ih =>
      rw [groupBy_concat, ← Dict.get?_isSome_iff, Dict.get?_set]
      by_cases hk : k = key a
      · simp [hk]
      · have hne : key a ≠ k := fun h => hk h.symm
        simp [hk, hne, Dict.get?_isSome_iff, ih]

/-- The groups of some keys that are all distinct and that every element falls under. -/
theorem flatMap_filter_perm {keys : List κ} (hnodup : keys.Nodup) {l : List α}
    (h : ∀ a ∈ l, key a ∈ keys) : (keys.flatMap fun k => l.filter (key · = k)).Perm l := by
  induction keys generalizing l with
  | nil => rw [List.eq_nil_iff_forall_not_mem.2 fun a ha => List.not_mem_nil (h a ha)]; rfl
  | cons k keys ih =>
      obtain ⟨hk, hnodup⟩ := List.nodup_cons.1 hnodup
      have hrest : (keys.flatMap fun k' => l.filter (key · = k'))
          = keys.flatMap fun k' => (l.filter fun a => !(decide (key a = k))).filter (key · = k') := by
        refine List.flatMap_congr fun k' hk' => ?_
        rw [List.filter_filter]
        refine List.filter_congr fun a _ => ?_
        have hne : k' ≠ k := fun heq => hk (heq ▸ hk')
        by_cases hkey : key a = k' <;> simp [hkey, hne]
      rw [List.flatMap_cons, hrest]
      refine List.Perm.trans (List.Perm.append_left _ (ih hnodup fun a ha => ?_))
        (List.filter_append_perm _ l)
      obtain ⟨hmem, hne⟩ := List.mem_filter.1 ha
      exact (List.mem_cons.1 (h a hmem)).resolve_left (by simpa using hne)

end Groups

/-! ### Rankings -/

section Ranking

variable {key : α → Except ε κ} {l : List α}

theorem map_snd_of_keyed {keyed : List (κ × α)}
    (h : l.mapM (fun a => (fun k => (k, a)) <$> key a) = .ok keyed) : keyed.map Prod.snd = l := by
  induction l generalizing keyed with
  | nil =>
      cases h
      rfl
  | cons a rest ih =>
      rw [List.mapM_cons, except_bind_eq_ok_iff] at h
      obtain ⟨_, hfirst, h⟩ := h
      obtain ⟨k, _, rfl⟩ := except_map_eq_ok_iff.1 hfirst
      obtain ⟨tail, htail, h⟩ := except_bind_eq_ok_iff.1 h
      cases h
      rw [List.map_cons, ih htail]

variable [LinearOrder κ]

/-- The list sorted by the keys, which are asked for first. -/
def sortedBy (key : α → Except ε κ) (l : List α) : Except ε (List α) := do
  let keyed ← l.mapM fun a => (fun k => (k, a)) <$> key a
  return (keyed.insertionSort (·.1 ≤ ·.1)).map Prod.snd

/-- Where every element has a key, the list is sorted by it. -/
theorem sortedBy_of_ok {k : α → κ} (h : ∀ a ∈ l, key a = .ok (k a)) :
    sortedBy key l = .ok (l.insertionSort (k · ≤ k ·)) := by
  have hkeyed : l.mapM (fun a => (fun k => (k, a)) <$> key a) = .ok (l.map fun a => (k a, a)) := by
    induction l with
    | nil => rfl
    | cons a rest ih =>
        obtain ⟨ha, hrest⟩ := List.forall_mem_cons.1 h
        rw [List.mapM_cons, ha, ih hrest]
        rfl
  rw [sortedBy, hkeyed]
  have hsort : (l.map fun a => (k a, a)).insertionSort (·.1 ≤ ·.1)
      = (l.insertionSort (k · ≤ k ·)).map fun a => (k a, a) :=
    (List.map_insertionSort (k · ≤ k ·) (·.1 ≤ ·.1) (fun a => (k a, a)) l
      fun _ _ _ _ => Iff.rfl).symm
  have hsnd : ∀ sorted : List α, (sorted.map fun a => (k a, a)).map Prod.snd = sorted := by
    intro sorted
    rw [List.map_map]
    exact List.map_id _
  exact congrArg Except.ok (by rw [hsort, hsnd])

theorem perm_of_sortedBy {sorted : List α} (h : sortedBy key l = .ok sorted) : sorted.Perm l := by
  obtain ⟨keyed, hkeyed, hsorted⟩ := except_bind_eq_ok_iff.1 h
  cases hsorted
  have hperm := (List.perm_insertionSort (·.1 ≤ ·.1) keyed).map Prod.snd
  rwa [map_snd_of_keyed hkeyed] at hperm

theorem pairwise_insertionSort_key (k : α → κ) (l : List α) :
    (l.insertionSort (k · ≤ k ·)).Pairwise (k · ≤ k ·) := by
  have : Std.Total (k · ≤ k ·) := ⟨fun a b => le_total (k a) (k b)⟩
  have : IsTrans α (k · ≤ k ·) := ⟨fun _ _ _ => le_trans⟩
  exact List.pairwise_insertionSort _ l

/-- The first of a sorted list has the smallest key. -/
theorem head?_insertionSort {k : α → κ} {first : α}
    (h : (l.insertionSort (k · ≤ k ·)).head? = some first) : first ∈ l ∧ ∀ a ∈ l, k first ≤ k a := by
  obtain ⟨rest, hsorted⟩ := List.head?_eq_some_iff.1 h
  have hmem : ∀ a, a ∈ l ↔ a = first ∨ a ∈ rest := by
    intro a
    rw [← List.mem_insertionSort (r := (k · ≤ k ·)), hsorted, List.mem_cons]
  have hpairwise := pairwise_insertionSort_key k l
  rw [hsorted, List.pairwise_cons] at hpairwise
  refine ⟨(hmem first).2 (.inl rfl), fun a ha => ?_⟩
  rcases (hmem a).1 ha with rfl | ha
  · exact le_rfl
  · exact hpairwise.1 a ha

/-- Keys that tell the elements apart leave one sorted list for all orders of them. -/
theorem insertionSort_eq_of_perm {k : α → κ} {l' : List α}
    (hinj : ∀ a ∈ l, ∀ b ∈ l, k a = k b → a = b) (hperm : l'.Perm l) :
    l'.insertionSort (k · ≤ k ·) = l.insertionSort (k · ≤ k ·) := by
  have hsame : (l'.insertionSort (k · ≤ k ·)).Perm (l.insertionSort (k · ≤ k ·)) :=
    (List.perm_insertionSort _ l').trans (hperm.trans (List.perm_insertionSort _ l).symm)
  refine hsame.eq_of_pairwise (fun a b ha hb hab hba => ?_) (pairwise_insertionSort_key k l')
    (pairwise_insertionSort_key k l)
  exact hinj a (hperm.mem_iff.1 ((List.mem_insertionSort _).1 ha)) b ((List.mem_insertionSort _).1 hb)
    (le_antisymm hab hba)

end Ranking

/-! ### Comparisons that can raise -/

section Comparison

variable {lt : α → α → Option Bool} {a : α} {l l' : List α}

/-- An element put into a list that has the greatest first, before those that are no greater. -/
def insertReversed (lt : α → α → Option Bool) (a : α) : List α → Option (List α)
  | [] => some [a]
  | b :: rest => do
      if ← lt a b then
        let tail ← insertReversed lt a rest
        return b :: tail
      else
        return a :: b :: rest

/-- The list with the greatest first, in its own order where two are equal, or nothing where a
comparison raises. Every sorting that only compares links all the elements by its comparisons, so it
raises on the same lists as this one if the elements that can be compared are those of one kind. -/
def sortReversed (lt : α → α → Option Bool) : List α → Option (List α)
  | [] => some []
  | a :: rest => do
      let sorted ← sortReversed lt rest
      insertReversed lt a sorted

theorem insertReversed_perm (h : insertReversed lt a l = some l') : l'.Perm (a :: l) := by
  induction l generalizing l' with
  | nil =>
      obtain rfl := Option.some.inj h
      exact .refl _
  | cons b rest ih =>
      obtain ⟨less, _, h⟩ := Option.bind_eq_some_iff.1 h
      cases less with
      | true =>
          obtain ⟨tail, htail, h⟩ := Option.bind_eq_some_iff.1 h
          obtain rfl := Option.some.inj h
          exact ((ih htail).cons b).trans (.swap a b rest)
      | false =>
          obtain rfl := Option.some.inj h
          exact .refl _

theorem sortReversed_perm (h : sortReversed lt l = some l') : l'.Perm l := by
  induction l generalizing l' with
  | nil =>
      obtain rfl := Option.some.inj h
      exact .refl _
  | cons a rest ih =>
      obtain ⟨sorted, hsorted, h⟩ := Option.bind_eq_some_iff.1 h
      exact (insertReversed_perm h).trans ((ih hsorted).cons a)

/-- A sorting that does not raise has compared the elements, so all of them are of one kind. -/
theorem same_kind_of_sortReversed {kind : α → σ}
    (hlt : ∀ a b, (lt a b).isSome = true → kind a = kind b) (h : sortReversed lt l = some l') :
    ∀ a ∈ l, ∀ b ∈ l, kind a = kind b := by
  induction l generalizing l' with
  | nil => exact fun a ha => absurd ha List.not_mem_nil
  | cons first rest ih =>
      obtain ⟨sorted, hsorted, h⟩ := Option.bind_eq_some_iff.1 h
      have hperm := sortReversed_perm hsorted
      have hfirst : ∀ b ∈ rest, kind first = kind b := by
        intro b hb
        cases sorted with
        | nil => exact absurd (hperm.mem_iff.2 hb) List.not_mem_nil
        | cons head tail =>
            obtain ⟨less, hless, _⟩ := Option.bind_eq_some_iff.1 h
            have hhead := hlt first head (Option.isSome_iff_exists.2 ⟨less, hless⟩)
            exact hhead.trans (ih hsorted head (hperm.mem_iff.1 List.mem_cons_self) b hb)
      have hall : ∀ b ∈ first :: rest, kind first = kind b := List.forall_mem_cons.2 ⟨rfl, hfirst⟩
      exact fun a ha b hb => (hall a ha).symm.trans (hall b hb)

variable [LinearOrder κ] {k : α → κ}

theorem insertReversed_of_comparable (h : ∀ b ∈ l, lt a b = some (decide (k a < k b))) :
    insertReversed lt a l = some (l.orderedInsert (fun a b => k b ≤ k a) a) := by
  induction l with
  | nil => rfl
  | cons b rest ih =>
      obtain ⟨hb, hrest⟩ := List.forall_mem_cons.1 h
      rw [insertReversed, hb, Option.bind_eq_bind, Option.bind_some, List.orderedInsert_cons]
      by_cases hle : k b ≤ k a
      · rw [if_neg (by simpa using hle), if_pos hle]
        rfl
      · rw [if_pos (by simpa using hle), if_neg hle, ih hrest]
        rfl

/-- Where all elements can be compared, the list is sorted by their keys. -/
theorem sortReversed_of_comparable (h : ∀ a ∈ l, ∀ b ∈ l, lt a b = some (decide (k a < k b))) :
    sortReversed lt l = some (l.insertionSort fun a b => k b ≤ k a) := by
  induction l with
  | nil => rfl
  | cons a rest ih =>
      have hrest := ih fun b hb c hc => h b (.tail _ hb) c (.tail _ hc)
      rw [sortReversed, hrest, Option.bind_eq_bind, Option.bind_some, List.insertionSort_cons]
      refine insertReversed_of_comparable fun b hb => h a (.head _) b (.tail _ ?_)
      exact (List.mem_insertionSort _).1 hb

theorem pairwise_insertionSort_reversed (k : α → κ) (l : List α) :
    (l.insertionSort fun a b => k b ≤ k a).Pairwise fun a b => k b ≤ k a := by
  have : Std.Total fun a b => k b ≤ k a := ⟨fun a b => le_total (k b) (k a)⟩
  have : IsTrans α fun a b => k b ≤ k a := ⟨fun _ _ _ hab hbc => hbc.trans hab⟩
  exact List.pairwise_insertionSort _ l

end Comparison

end Lib
