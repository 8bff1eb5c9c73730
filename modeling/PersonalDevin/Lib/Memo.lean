import PersonalDevin.Lib.Dict
import PersonalDevin.Lib.Layers
import PersonalDevin.Lib.Paired
import Mathlib.Data.Finset.Card

/-!
# Memoised recursion with a cut-off

A value is computed for a node from the values of its successors. A table keeps what was computed, and
a node that is met again while its own value is in the making counts as a fixed value. What the table
then holds depends on the order of the calls; what does not is how it came about: every entry was
combined from earlier entries and from cut-offs, and a cut-off needs a cycle.
-/

namespace Lib.Memo

open Relation

variable {α β : Type} [DecidableEq α]

/-- The targets one after the other, the table threaded through. -/
def evalAll (eval : α → Dict α β → Option (β × Dict α β)) :
    List α → Dict α β → Option (List β × Dict α β)
  | [], cache => some ([], cache)
  | a :: rest, cache =>
      match eval a cache with
      | none => none
      | some (value, cache) =>
          match evalAll eval rest cache with
          | none => none
          | some (values, cache) => some (value :: values, cache)

/-- The value of one node, to a recursion depth of `fuel`. -/
def eval (succ : α → List α) (combine : List β → β) (cut : β) :
    ℕ → Finset α → α → Dict α β → Option (β × Dict α β)
  | 0, _, _, _ => none
  | fuel + 1, stack, a, cache =>
      match cache.get? a with
      | some value => some (value, cache)
      | none =>
          if a ∈ stack then some (cut, cache)
          else
            match evalAll (eval succ combine cut fuel (insert a stack)) (succ a) cache with
            | none => none
            | some (values, cache) => some (combine values, cache.set a (combine values))

variable (succ : α → List α) (combine : List β → β) (cut : β)

def Edge (a b : α) : Prop := b ∈ succ a

/-- A value that the entry of `a` was combined from: an earlier entry, or a cut-off on a cycle. -/
def Supplied (entries : List (α × β)) (a b : α) (value : β) : Prop :=
  (b, value) ∈ entries ∨ (ReflTransGen (Edge succ) b a ∧ value = cut)

/-- A table that was filled entry by entry. -/
inductive Built : List (α × β) → Prop
  | nil : Built []
  | snoc {entries : List (α × β)} {a : α} {values : List β} (before : Built entries)
      (supplied : List.Forall₂ (Supplied succ cut entries a) (succ a) values) :
      Built (entries ++ [(a, combine values)])

omit [DecidableEq α] in
/-- **Without cycles the table holds the solution of the recursion equation.** -/
theorem Built.eq_of_acyclic {entries : List (α × β)} (h : Built succ combine cut entries)
    (hacyclic : Acyclic (Edge succ)) {f : α → β} {nodes : Finset α}
    (hf : ∀ a ∈ nodes, f a = combine ((succ a).map f)) (hnodes : ∀ entry ∈ entries, entry.1 ∈ nodes) :
    ∀ entry ∈ entries, entry.2 = f entry.1 := by
  induction h with
  | nil => exact fun _ hmem => absurd hmem List.not_mem_nil
  | @snoc entries a values _ hsupplied ih =>
      simp only [List.mem_append, List.mem_singleton, or_imp, forall_and, forall_eq] at hnodes ⊢
      have hbefore := ih hnodes.1
      refine ⟨hbefore, ?_⟩
      have hmember : List.Forall₂ (fun b value => b ∈ succ a ∧ Supplied succ cut entries a b value)
          (succ a) values := (List.forall₂_and_left _ _).2 ⟨fun _ hb => hb, hsupplied⟩
      have hvalues : values.map id = (succ a).map f := by
        refine (map_eq_of_paired hmember fun b value ⟨hedge, hvalue⟩ => ?_).symm
        rcases hvalue with hmem | ⟨hpath, _⟩
        · exact (hbefore _ hmem).symm
        · exact absurd (TransGen.head' hedge hpath) (hacyclic a)
      rw [List.map_id] at hvalues
      show combine values = f a
      rw [hf a hnodes.2, hvalues]

/-! ### The recursion ends -/

/-- The table between two calls: filled entry by entry, with nodes only, none of them open. -/
structure Ready (nodes stack : Finset α) (cache : Dict α β) : Prop where
  built : Built succ combine cut cache.entries
  nodes : ∀ a ∈ cache.keys, a ∈ nodes
  apart : ∀ a ∈ stack, a ∉ cache.keys

/-- What a list of calls comes to: the values are supplied by a table that only grew. -/
def Evaluated (nodes stack : Finset α) (cache : Dict α β) (targets : List α)
    (result : Option (List β × Dict α β)) : Prop :=
  ∃ values next, result = some (values, next) ∧ Ready succ combine cut nodes stack next
    ∧ cache.entries ⊆ next.entries
    ∧ List.Forall₂ (fun b value => (b, value) ∈ next.entries ∨ (b ∈ stack ∧ value = cut))
        targets values

def EvalCorrect (nodes : Finset α) (fuel : ℕ) : Prop :=
  ∀ stack a cache, Ready succ combine cut nodes stack cache → a ∈ nodes →
    (∀ b ∈ stack, TransGen (Edge succ) b a) → (nodes \ stack).card < fuel →
    ∃ value next, eval succ combine cut fuel stack a cache = some (value, next)
      ∧ Ready succ combine cut nodes stack next ∧ cache.entries ⊆ next.entries
      ∧ ((a, value) ∈ next.entries ∨ (a ∈ stack ∧ value = cut))

variable {succ combine cut}

theorem evalAll_evaluated {nodes stack : Finset α} {fuel : ℕ}
    (heval : EvalCorrect succ combine cut nodes fuel) {targets : List α} {cache : Dict α β}
    (hready : Ready succ combine cut nodes stack cache) (hnodes : ∀ a ∈ targets, a ∈ nodes)
    (hstack : ∀ b ∈ stack, ∀ a ∈ targets, TransGen (Edge succ) b a)
    (hfuel : (nodes \ stack).card < fuel) :
    Evaluated succ combine cut nodes stack cache targets
      (evalAll (eval succ combine cut fuel stack) targets cache) := by
  induction targets generalizing cache with
  | nil => exact ⟨[], cache, rfl, hready, fun _ h => h, .nil⟩
  | cons a rest ih =>
      rw [List.forall_mem_cons] at hnodes
      obtain ⟨value, next, hok, hready', hsub, hvalue⟩ := heval stack a cache hready hnodes.1
        (fun b hb => hstack b hb a List.mem_cons_self) hfuel
      obtain ⟨values, last, hrest, hready'', hsub', hvalues⟩ := ih hready' hnodes.2
        fun b hb other hmem => hstack b hb other (List.mem_cons_of_mem a hmem)
      refine ⟨value :: values, last, ?_, hready'', fun _ h => hsub' (hsub h), ?_⟩
      · rw [evalAll, hok]
        simp only [hrest]
      · exact .cons (hvalue.imp_left fun hmem => hsub' hmem) hvalues

theorem Ready.enter {nodes stack : Finset α} {cache : Dict α β}
    (h : Ready succ combine cut nodes stack cache) {a : α} (hnew : a ∉ cache.keys) :
    Ready succ combine cut nodes (insert a stack) cache := by
  refine ⟨h.built, h.nodes, fun b hb => ?_⟩
  rcases Finset.mem_insert.1 hb with rfl | hold
  · exact hnew
  · exact h.apart b hold

/-- The value of an open node is entered, combined from what the table and the path supplied. -/
theorem Ready.leave {nodes stack : Finset α} {a : α} {cache : Dict α β}
    (h : Ready succ combine cut nodes (insert a stack) cache) (ha : a ∈ nodes) (hopen : a ∉ stack)
    (hstack : ∀ b ∈ stack, TransGen (Edge succ) b a) {values : List β}
    (hvalues : List.Forall₂ (fun b value =>
      (b, value) ∈ cache.entries ∨ (b ∈ insert a stack ∧ value = cut)) (succ a) values) :
    (cache.set a (combine values)).entries = cache.entries ++ [(a, combine values)]
      ∧ Ready succ combine cut nodes stack (cache.set a (combine values)) := by
  have hnew : a ∉ cache.keys := h.apart a (Finset.mem_insert_self a stack)
  have hentries : (cache.set a (combine values)).entries = cache.entries ++ [(a, combine values)] :=
    Dict.upsert_of_lookup_eq_none _ ((Dict.get?_eq_none_iff cache a).2 hnew)
  refine ⟨hentries, ?_, fun b hb => ?_, fun b hb hmem => ?_⟩
  · rw [hentries]
    refine .snoc h.built (hvalues.imp fun b value hvalue => ?_)
    refine hvalue.imp_right fun ⟨hb, hcut⟩ => ⟨?_, hcut⟩
    -- a cut-off at an open node: that node leads to `a`, or is `a`
    rcases Finset.mem_insert.1 hb with rfl | hold
    · exact .refl
    · exact (hstack b hold).to_reflTransGen
  · rw [Dict.keys_set_of_not_mem hnew, List.mem_append, List.mem_singleton] at hb
    rcases hb with hold | rfl
    · exact h.nodes b hold
    · exact ha
  · rw [Dict.keys_set_of_not_mem hnew, List.mem_append, List.mem_singleton] at hmem
    rcases hmem with hold | rfl
    · exact h.apart b (Finset.mem_insert_of_mem hb) hold
    · exact hopen hb

theorem eval_correct {nodes : Finset α} (hclosed : ∀ a ∈ nodes, ∀ b ∈ succ a, b ∈ nodes)
    (fuel : ℕ) : EvalCorrect succ combine cut nodes fuel := by
  induction fuel with
  | zero => exact fun _ _ _ _ _ _ hfuel => absurd hfuel (Nat.not_lt_zero _)
  | succ fuel ih =>
      intro stack a cache hready ha hstack hfuel
      rw [eval]
      rcases hget : cache.get? a with _ | value
      · by_cases hopen : a ∈ stack
        · simp only [if_pos hopen]
          exact ⟨cut, cache, rfl, hready, fun _ h => h, .inr ⟨hopen, rfl⟩⟩
        · simp only [if_neg hopen]
          have hnew : a ∉ cache.keys := (Dict.get?_eq_none_iff cache a).1 hget
          have hfuel' : (nodes \ insert a stack).card < fuel := by
            have hlt : (nodes \ insert a stack).card < (nodes \ stack).card := by
              rw [Finset.sdiff_insert]
              exact Finset.card_erase_lt_of_mem (Finset.mem_sdiff.2 ⟨ha, hopen⟩)
            omega
          obtain ⟨values, next, hok, hnext, hsub, hvalues⟩ := evalAll_evaluated ih
            (hready.enter hnew) (hclosed a ha)
            (fun b hb c hedge => transGen_of_mem_insert hstack (show Edge succ a c from hedge) b hb)
            hfuel'
          obtain ⟨hentries, hleave⟩ := hnext.leave ha hopen hstack hvalues
          refine ⟨combine values, next.set a (combine values), by rw [hok], hleave, ?_, .inl ?_⟩
          · rw [hentries]
            exact fun _ h => List.mem_append_left _ (hsub h)
          · rw [hentries]
            exact List.mem_append_right _ (List.mem_singleton.2 rfl)
      · exact ⟨value, cache, rfl, hready, fun _ h => h, .inl (Dict.mem_entries_iff.2 hget)⟩

/-- **Calls for a list of roots end**, and leave a table that was filled entry by entry, has nodes
only, and supplies the values returned. -/
theorem evalRoots_spec {nodes : Finset α} (hclosed : ∀ a ∈ nodes, ∀ b ∈ succ a, b ∈ nodes)
    {fuel : ℕ} (hfuel : nodes.card < fuel) {roots : List α} (hroots : ∀ a ∈ roots, a ∈ nodes) :
    ∃ values cache, evalAll (eval succ combine cut fuel ∅) roots Dict.empty = some (values, cache)
      ∧ Built succ combine cut cache.entries ∧ (∀ a ∈ cache.keys, a ∈ nodes)
      ∧ List.Forall₂ (fun a value => (a, value) ∈ cache.entries) roots values := by
  have hready : Ready succ combine cut nodes ∅ (Dict.empty : Dict α β) :=
    ⟨.nil, fun _ h => absurd h List.not_mem_nil, fun _ h => by cases h⟩
  have hfuel' : (nodes \ ∅).card < fuel := by rwa [Finset.sdiff_empty]
  obtain ⟨values, cache, hok, hdone, -, hvalues⟩ :=
    evalAll_evaluated (eval_correct hclosed fuel) hready hroots (fun _ h => by cases h) hfuel'
  refine ⟨values, cache, hok, hdone.built, hdone.nodes, hvalues.imp fun a value h => ?_⟩
  exact h.resolve_right fun ⟨hopen, _⟩ => by cases hopen

end Lib.Memo
