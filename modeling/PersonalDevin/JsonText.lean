import PersonalDevin.Lib.Json
import PersonalDevin.SortedKeys

/-!
# The JSON text of a value

`json.dumps(x, sort_keys=True, separators=(",", ":"))`: the value comes through JSON, its keys are sorted
and the data is written. Two values have the same text exactly if `written` is the same data, and what
stands under a key or at a position can be compared there.
-/

namespace PersonalDevin

open Lib

namespace Value

theorem mem_numberChars_of_isDigit (c : Char) (h : c.isDigit = true) : c ∈ numberChars := by
  have hall : ∀ d < 10, Char.ofNat (48 + d) ∈ numberChars := by decide
  have hrange : 48 ≤ c.toNat ∧ c.toNat ≤ 57 := by
    simpa [Char.isDigit, UInt32.le_iff_toNat_le] using h
  have hc := hall (c.toNat - 48) (by omega)
  rwa [Nat.add_sub_cancel' hrange.1, Char.ofNat_toNat] at hc

theorem mem_numberChars_of_sign : ∀ c ∈ ['-', '+', '.', 'e'], c ∈ numberChars := by
  simp only [List.mem_cons, List.not_mem_nil, or_false]
  rintro c (rfl | rfl | rfl | rfl) <;> decide

/-- `int.__repr__`. -/
def intNumber (n : Int) : NumberText :=
  ⟨(toString n).toList, by
    cases n with
    | ofNat n =>
        rw [show toString (Int.ofNat n) = toString n from rfl, Nat.toString_eq_ofList_toDigits,
          String.toList_ofList]
        exact ⟨Nat.toDigits_ne_nil, fun c hc =>
          mem_numberChars_of_isDigit c (Nat.isDigit_of_mem_toDigits (by decide) (by decide) hc)⟩
    | negSucc n =>
        rw [show toString (Int.negSucc n) = "-" ++ (n + 1).repr from rfl, String.toList_append,
          Nat.toList_repr]
        refine ⟨by simp, List.forall_mem_append.2 ⟨fun c hc => ?_, fun c hc => ?_⟩⟩
        · exact mem_numberChars_of_sign c (List.mem_append_left ['+', '.', 'e'] hc)
        · exact mem_numberChars_of_isDigit c
            (Nat.isDigit_of_mem_toDigits (by decide) (by decide) hc)⟩

/-- `float.__repr__`. -/
def floatNumber (mantissa exponent : Int) : NumberText :=
  ⟨(floatText mantissa exponent).toList,
    fun h => floatText_ne_empty mantissa exponent (String.toList_eq_nil_iff.1 h),
    forall_mem_floatText mem_numberChars_of_isDigit mem_numberChars_of_sign mantissa exponent⟩

mutual

/-- The data of a value that came through JSON. -/
def toJson : Value → Json
  | none => .null
  | bool b => .bool b
  | int n => .number (intNumber n)
  | float mantissa exponent => .number (floatNumber mantissa exponent)
  | str s => .str s
  | list items => .array (toJsonItems items)
  | tuple items => .array (toJsonItems items)
  | dict entries => .object (toJsonEntries entries)
  | object _ _ => .null

def toJsonItems : List Value → List Json
  | [] => []
  | item :: rest => toJson item :: toJsonItems rest

def toJsonEntries : List (String × Value) → List (String × Json)
  | [] => []
  | (key, value) :: rest => (key, toJson value) :: toJsonEntries rest

end

/-- The data that is written for a value, or nothing where the writer raises. -/
def written (v : Value) : Option Json := v.jsonRoundTrip.map fun v => v.sortKeys.toJson

/-! ### What is written for one kind of value -/

theorem written_str (s : String) : (str s).written = some (.str s) := rfl

theorem written_eq_str_iff {v : Value} {s : String} : v.written = some (.str s) ↔ v = .str s := by
  constructor
  · intro h
    obtain ⟨w, hw, hjson⟩ := Option.map_eq_some_iff.1 h
    cases v with
    | str t =>
        obtain rfl := Option.some.inj hw
        exact congrArg Value.str (Json.str.inj hjson)
    | list items =>
        obtain ⟨stored, _, rfl⟩ := Option.map_eq_some_iff.1 hw
        cases hjson
    | tuple items =>
        obtain ⟨stored, _, rfl⟩ := Option.map_eq_some_iff.1 hw
        cases hjson
    | dict entries =>
        obtain ⟨stored, _, rfl⟩ := Option.map_eq_some_iff.1 hw
        cases hjson
    | object _ _ => cases hw
    | _ =>
        obtain rfl := Option.some.inj hw
        cases hjson
  · rintro rfl
    rfl

theorem written_items {items stored : List Value} (h : jsonItems items = some stored) :
    items.mapM written = some (toJsonItems (sortKeysItems stored)) := by
  induction items generalizing stored with
  | nil =>
      obtain rfl := Option.some.inj h
      rfl
  | cons item rest ih =>
      simp only [jsonItems, Option.bind_eq_bind, Option.bind_eq_some_iff, Option.pure_def,
        Option.some.injEq] at h
      obtain ⟨item', hitem, rest', hrest, rfl⟩ := h
      have hwritten : item.written = some item'.sortKeys.toJson := by
        rw [written, hitem]
        rfl
      rw [List.mapM_cons, hwritten, ih hrest]
      rfl

/-- A list and a tuple with the same items are written alike. -/
theorem written_sequence {v : Value} {items : List Value} (hv : v = .list items ∨ v = .tuple items)
    {j : Json} (h : v.written = some j) : ∃ data, j = .array data ∧ items.mapM written = some data := by
  obtain ⟨w, hw, rfl⟩ := Option.map_eq_some_iff.1 h
  rcases hv with rfl | rfl
  · obtain ⟨stored, hstored, rfl⟩ := Option.map_eq_some_iff.1 hw
    exact ⟨_, rfl, written_items hstored⟩
  · obtain ⟨stored, hstored, rfl⟩ := Option.map_eq_some_iff.1 hw
    exact ⟨_, rfl, written_items hstored⟩

/-! ### What is written under a key -/

theorem lookup_toJsonEntries (entries : Fields) (key : String) :
    (toJsonEntries entries).lookup key = (entries.get? key).map toJson := by
  induction entries with
  | nil => rfl
  | cons entry rest ih =>
      obtain ⟨key', value⟩ := entry
      simp only [toJsonEntries, Fields.get?, List.lookup_cons]
      split
      · rfl
      · exact ih

theorem get?_sortKeysEntries (entries : Fields) (key : String) :
    Fields.get? (sortKeysEntries entries) key = (entries.get? key).map sortKeys := by
  rw [sortKeysEntries_eq, get?_sortEntries]

/-- The dictionary is written as an object with its values under their keys. -/
theorem written_dict {fields : Fields} {j : Json} (h : (dict fields).written = some j) :
    ∃ entries, j = .object entries
      ∧ ∀ key value, fields.get? key = some value →
        ∃ data, value.written = some data ∧ entries.lookup key = some data := by
  obtain ⟨w, hw, rfl⟩ := Option.map_eq_some_iff.1 h
  obtain ⟨stored, hstored, rfl⟩ := Option.map_eq_some_iff.1 hw
  refine ⟨_, rfl, fun key value hvalue => ?_⟩
  have hisSome := isSome_jsonEntries.1 (Option.isSome_iff_exists.2 ⟨stored, hstored⟩)
  obtain ⟨before, after, rfl, _⟩ := List.lookup_eq_some_iff.1 hvalue
  obtain ⟨value', hvalue'⟩ := Option.isSome_iff_exists.1
    (hisSome (key, value) (List.mem_append_right _ List.mem_cons_self))
  refine ⟨value'.sortKeys.toJson, by rw [written, hvalue']; rfl, ?_⟩
  rw [lookup_toJsonEntries, get?_sortKeysEntries, get?_jsonEntries hstored, hvalue,
    Option.bind_some, hvalue']
  rfl

end Value

end PersonalDevin
