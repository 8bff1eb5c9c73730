import Mathlib.Algebra.Ring.Int.Defs

/-!
# Dynamic values

The values that cross the untyped edges of the program: task dictionaries, executor results, memory
payloads. A dictionary keeps its entries in insertion order under string keys. A float is kept by
the decimal `mantissa * 10 ^ exponent` of its shortest text, which determines it. Every other object
is seen only through `bool(x)` and `str(x)`, so those two are all that is kept of it.
-/

namespace PersonalDevin

inductive Value where
  | none
  | bool (b : Bool)
  | int (n : Int)
  | float (mantissa exponent : Int)
  | str (s : String)
  | list (items : List Value)
  | tuple (items : List Value)
  | dict (entries : List (String × Value))
  | object (truthy : Bool) (text : String)
  deriving Inhabited

/-- The entries of a dictionary with string keys. -/
abbrev Fields := List (String × Value)

/-- `d.get(key)`. -/
def Fields.get? (fields : Fields) (key : String) : Option Value := fields.lookup key

namespace Value

/-- `bool(x)`. -/
def truthy : Value → Bool
  | none => false
  | bool b => b
  | int n => n != 0
  | float mantissa _ => mantissa != 0
  | str s => s != ""
  | list items => !items.isEmpty
  | tuple items => !items.isEmpty
  | dict entries => !entries.isEmpty
  | object truthy _ => truthy

/-! ### Text

`repr` of a string picks the quote and escapes the way the interpreter does for printable text and
the control characters; `repr` of a float is its shortest decimal, in scientific notation outside
`1e-4 .. 1e16`. -/

private def zeros (n : Nat) : String := String.ofList (List.replicate n '0')

/-- `repr` of the float `mantissa * 10 ^ exponent`. -/
def floatText (mantissa exponent : Int) : String :=
  let sign := if mantissa < 0 then "-" else ""
  let digits := toString mantissa.natAbs
  let point := (digits.length : Int) + exponent
  if mantissa = 0 then "0.0"
  else if -4 < point ∧ point ≤ 16 then
    if point ≤ 0 then sign ++ "0." ++ zeros (-point).toNat ++ digits
    else if digits.length ≤ point then sign ++ digits ++ zeros (point - digits.length).toNat ++ ".0"
    else sign ++ String.ofList (digits.toList.take point.toNat) ++ "."
      ++ String.ofList (digits.toList.drop point.toNat)
  else
    let fraction := String.ofList (digits.toList.drop 1)
    let power := toString (point - 1).natAbs
    sign ++ String.ofList (digits.toList.take 1) ++ (if fraction = "" then "" else "." ++ fraction)
      ++ "e" ++ (if point - 1 < 0 then "-" else "+") ++ zeros (2 - power.length) ++ power

private def quoteMark (s : String) : Char :=
  if s.toList.contains (Char.ofNat 39) && !s.toList.contains (Char.ofNat 34) then Char.ofNat 34
  else Char.ofNat 39

private def escapeChar (quote c : Char) : List Char :=
  let backslash := Char.ofNat 92
  if c = quote ∨ c = backslash then [backslash, c]
  else if c.toNat = 10 then [backslash, 'n']
  else if c.toNat = 13 then [backslash, 'r']
  else if c.toNat = 9 then [backslash, 't']
  else if c.toNat < 32 ∨ c.toNat = 127 then
    [backslash, 'x', Nat.digitChar (c.toNat / 16), Nat.digitChar (c.toNat % 16)]
  else [c]

/-- `repr` of a string. -/
def strRepr (s : String) : String :=
  let quote := quoteMark s
  String.ofList ([quote] ++ s.toList.flatMap (escapeChar quote) ++ [quote])

mutual

/-- `repr(x)`. -/
def pyRepr : Value → String
  | none => "None"
  | bool b => if b then "True" else "False"
  | int n => toString n
  | float mantissa exponent => floatText mantissa exponent
  | str s => strRepr s
  | list items => "[" ++ ", ".intercalate (reprItems items) ++ "]"
  | tuple [item] => "(" ++ pyRepr item ++ ",)"
  | tuple items => "(" ++ ", ".intercalate (reprItems items) ++ ")"
  | dict entries => "\x7b" ++ ", ".intercalate (reprEntries entries) ++ "\x7d"
  | object _ text => text

def reprItems : List Value → List String
  | [] => []
  | item :: rest => pyRepr item :: reprItems rest

def reprEntries : List (String × Value) → List String
  | [] => []
  | (key, value) :: rest => (strRepr key ++ ": " ++ pyRepr value) :: reprEntries rest

end

/-- `str(x)`. -/
def pyStr : Value → String
  | str s => s
  | v => pyRepr v

/-- `int(s)` of an ASCII text, or nothing where it raises. -/
def intOfText (text : String) : Option Int :=
  let isSpace (c : Char) : Bool := (9 ≤ c.toNat && c.toNat ≤ 13) || c = ' '
  match ((text.toList.dropWhile isSpace).reverse.dropWhile isSpace).reverse with
  | '+' :: digits => (String.ofList digits).toNat?.map Int.ofNat
  | chars => (String.ofList chars).toInt?

/-- `int(x)`, or nothing where it raises. -/
def pyInt : Value → Option Int
  | bool b => some (if b then 1 else 0)
  | int n => some n
  | float mantissa exponent =>
      some (if 0 ≤ exponent then mantissa * 10 ^ exponent.toNat
        else mantissa.tdiv (10 ^ (-exponent).toNat))
  | str s => intOfText s
  | _ => Option.none

/-! ### Passing through JSON -/

mutual

/-- `json.load(json.dump(x))`: tuples come back as lists, and what is no JSON value raises. -/
def jsonRoundTrip : Value → Option Value
  | none => some none
  | bool b => some (bool b)
  | int n => some (int n)
  | float mantissa exponent => some (float mantissa exponent)
  | str s => some (str s)
  | list items => (jsonItems items).map list
  | tuple items => (jsonItems items).map list
  | dict entries => (jsonEntries entries).map dict
  | object _ _ => Option.none

def jsonItems : List Value → Option (List Value)
  | [] => some []
  | item :: rest => do
      let item ← jsonRoundTrip item
      let rest ← jsonItems rest
      return item :: rest

def jsonEntries : List (String × Value) → Option (List (String × Value))
  | [] => some []
  | (key, value) :: rest => do
      let value ← jsonRoundTrip value
      let rest ← jsonEntries rest
      return (key, value) :: rest

end

/-! ### Sorted keys -/

/-- An entry put in its place among entries with ascending keys. -/
def insertEntry (key : String) (value : Value) : List (String × Value) → List (String × Value)
  | [] => [(key, value)]
  | entry :: rest =>
      if key ≤ entry.1 then (key, value) :: entry :: rest else entry :: insertEntry key value rest

mutual

/-- The order of the keys that `json.dumps(x, sort_keys=True)` writes, at every depth. -/
def sortKeys : Value → Value
  | list items => list (sortKeysItems items)
  | tuple items => tuple (sortKeysItems items)
  | dict entries => dict (sortKeysEntries entries)
  | value => value

def sortKeysItems : List Value → List Value
  | [] => []
  | item :: rest => sortKeys item :: sortKeysItems rest

def sortKeysEntries : List (String × Value) → List (String × Value)
  | [] => []
  | (key, value) :: rest => insertEntry key (sortKeys value) (sortKeysEntries rest)

end

/-! ### Payloads -/

mutual

/-- `_safe_payload`: containers are copied, tuples become lists, and an object becomes its text. -/
def safePayload : Value → Value
  | list items => list (safeItems items)
  | tuple items => list (safeItems items)
  | dict entries => dict (safeEntries entries)
  | object _ text => str text
  | value => value

def safeItems : List Value → List Value
  | [] => []
  | item :: rest => safePayload item :: safeItems rest

def safeEntries : List (String × Value) → List (String × Value)
  | [] => []
  | (key, value) :: rest => (key, safePayload value) :: safeEntries rest

end

end Value

/-- `format(n, "0<width>d")`. -/
def zeroPad (width n : Nat) : String :=
  let digits := Nat.toDigits 10 n
  String.ofList (List.replicate (width - digits.length) '0' ++ digits)

theorem zeroPad_injective (width : Nat) {n m : Nat} (h : zeroPad width n = zeroPad width m) :
    n = m := by
  have hread : ∀ k, Nat.ofDigitChars 10 (zeroPad width k).toList 0 = k := by
    intro k
    rw [zeroPad, String.toList_ofList, Nat.ofDigitChars_append, Nat.ofDigitChars_replicate_zero,
      Nat.mul_zero, Nat.ofDigitChars_ten_toDigits]
  rw [← hread n, h, hread]

mutual

/-- A value that came through JSON comes through it unchanged. -/
theorem Value.jsonRoundTrip_stable : ∀ {v w : Value}, v.jsonRoundTrip = some w →
    w.jsonRoundTrip = some w
  | .none, _, h => Option.some.inj h ▸ rfl
  | .bool _, _, h => Option.some.inj h ▸ rfl
  | .int _, _, h => Option.some.inj h ▸ rfl
  | .float _ _, _, h => Option.some.inj h ▸ rfl
  | .str _, _, h => Option.some.inj h ▸ rfl
  | .list items, _, h => by
      obtain ⟨stored, hitems, rfl⟩ := Option.map_eq_some_iff.1 h
      rw [jsonRoundTrip, jsonItems_stable hitems, Option.map_some]
  | .tuple items, _, h => by
      obtain ⟨stored, hitems, rfl⟩ := Option.map_eq_some_iff.1 h
      rw [jsonRoundTrip, jsonItems_stable hitems, Option.map_some]
  | .dict entries, _, h => by
      obtain ⟨stored, hentries, rfl⟩ := Option.map_eq_some_iff.1 h
      rw [jsonRoundTrip, jsonEntries_stable hentries, Option.map_some]

theorem Value.jsonItems_stable : ∀ {items stored : List Value}, jsonItems items = some stored →
    jsonItems stored = some stored
  | [], _, h => Option.some.inj h ▸ rfl
  | item :: rest, _, h => by
      simp only [jsonItems, Option.bind_eq_bind, Option.bind_eq_some_iff, Option.pure_def,
        Option.some.injEq] at h
      obtain ⟨item', hitem, rest', hrest, rfl⟩ := h
      simp [jsonItems, jsonRoundTrip_stable hitem, jsonItems_stable hrest]

theorem Value.jsonEntries_stable : ∀ {entries stored : Fields}, jsonEntries entries = some stored →
    jsonEntries stored = some stored
  | [], _, h => Option.some.inj h ▸ rfl
  | (key, value) :: rest, _, h => by
      simp only [jsonEntries, Option.bind_eq_bind, Option.bind_eq_some_iff, Option.pure_def,
        Option.some.injEq] at h
      obtain ⟨value', hvalue, rest', hrest, rfl⟩ := h
      simp [jsonEntries, jsonRoundTrip_stable hvalue, jsonEntries_stable hrest]

end

mutual

theorem Value.jsonRoundTrip_safePayload : ∀ v : Value,
    v.safePayload.jsonRoundTrip = some v.safePayload
  | .none => rfl
  | .bool _ => rfl
  | .int _ => rfl
  | .float _ _ => rfl
  | .str _ => rfl
  | .list items => congrArg (Option.map Value.list) (jsonItems_safeItems items)
  | .tuple items => congrArg (Option.map Value.list) (jsonItems_safeItems items)
  | .dict entries => congrArg (Option.map Value.dict) (jsonEntries_safeEntries entries)
  | .object _ _ => rfl

theorem Value.jsonItems_safeItems : ∀ items : List Value,
    jsonItems (safeItems items) = some (safeItems items)
  | [] => rfl
  | item :: rest => by
      simp [safeItems, jsonItems, jsonRoundTrip_safePayload item, jsonItems_safeItems rest]

theorem Value.jsonEntries_safeEntries : ∀ entries : Fields,
    jsonEntries (safeEntries entries) = some (safeEntries entries)
  | [] => rfl
  | (key, value) :: rest => by
      simp [safeEntries, jsonEntries, jsonRoundTrip_safePayload value, jsonEntries_safeEntries rest]

end

mutual

/-- What comes through JSON comes out as its copy. -/
theorem Value.safePayload_of_jsonRoundTrip : ∀ {v w : Value}, v.jsonRoundTrip = some w →
    v.safePayload = w
  | .none, _, h => Option.some.inj h
  | .bool _, _, h => Option.some.inj h
  | .int _, _, h => Option.some.inj h
  | .float _ _, _, h => Option.some.inj h
  | .str _, _, h => Option.some.inj h
  | .list items, _, h => by
      obtain ⟨stored, hitems, rfl⟩ := Option.map_eq_some_iff.1 h
      rw [safePayload, safeItems_of_jsonItems hitems]
  | .tuple items, _, h => by
      obtain ⟨stored, hitems, rfl⟩ := Option.map_eq_some_iff.1 h
      rw [safePayload, safeItems_of_jsonItems hitems]
  | .dict entries, _, h => by
      obtain ⟨stored, hentries, rfl⟩ := Option.map_eq_some_iff.1 h
      rw [safePayload, safeEntries_of_jsonEntries hentries]

theorem Value.safeItems_of_jsonItems : ∀ {items stored : List Value}, jsonItems items = some stored →
    safeItems items = stored
  | [], _, h => Option.some.inj h
  | item :: rest, _, h => by
      simp only [jsonItems, Option.bind_eq_bind, Option.bind_eq_some_iff, Option.pure_def,
        Option.some.injEq] at h
      obtain ⟨item', hitem, rest', hrest, rfl⟩ := h
      rw [safeItems, safePayload_of_jsonRoundTrip hitem, safeItems_of_jsonItems hrest]

theorem Value.safeEntries_of_jsonEntries : ∀ {entries stored : Fields},
    jsonEntries entries = some stored → safeEntries entries = stored
  | [], _, h => Option.some.inj h
  | (key, value) :: rest, _, h => by
      simp only [jsonEntries, Option.bind_eq_bind, Option.bind_eq_some_iff, Option.pure_def,
        Option.some.injEq] at h
      obtain ⟨value', hvalue, rest', hrest, rfl⟩ := h
      rw [safeEntries, safePayload_of_jsonRoundTrip hvalue, safeEntries_of_jsonEntries hrest]

end

theorem Value.isSome_jsonItems {items : List Value} :
    (jsonItems items).isSome ↔ ∀ item ∈ items, item.jsonRoundTrip.isSome := by
  induction items with
  | nil => simp [jsonItems]
  | cons item rest ih =>
      rw [List.forall_mem_cons, ← ih, jsonItems]
      cases item.jsonRoundTrip <;> cases jsonItems rest <;> simp

theorem Value.jsonItems_of_stable {items : List Value}
    (h : ∀ item ∈ items, item.jsonRoundTrip = some item) : jsonItems items = some items := by
  induction items with
  | nil => rfl
  | cons item rest ih =>
      obtain ⟨hitem, hrest⟩ := List.forall_mem_cons.1 h
      rw [jsonItems, hitem, ih hrest]
      rfl

/-- A dictionary can be written exactly if each of its values can. -/
theorem Value.isSome_jsonEntries {entries : Fields} :
    (jsonEntries entries).isSome ↔ ∀ entry ∈ entries, entry.2.jsonRoundTrip.isSome := by
  induction entries with
  | nil => simp [jsonEntries]
  | cons entry rest ih =>
      obtain ⟨key, value⟩ := entry
      rw [List.forall_mem_cons, ← ih, jsonEntries]
      cases value.jsonRoundTrip <;> cases jsonEntries rest <;> simp

theorem Value.map_fst_jsonEntries {entries stored : Fields}
    (h : Value.jsonEntries entries = some stored) :
    stored.map Prod.fst = entries.map Prod.fst := by
  induction entries generalizing stored with
  | nil =>
      obtain rfl := Option.some.inj h
      rfl
  | cons entry rest ih =>
      obtain ⟨key, value⟩ := entry
      simp only [Value.jsonEntries, Option.bind_eq_bind, Option.bind_eq_some_iff, Option.pure_def,
        Option.some.injEq] at h
      obtain ⟨value', _, rest', hrest, rfl⟩ := h
      simp [ih hrest]

theorem Value.get?_jsonEntries {entries stored : Fields} (h : Value.jsonEntries entries = some stored)
    (key : String) : stored.get? key = (entries.get? key).bind Value.jsonRoundTrip := by
  induction entries generalizing stored with
  | nil =>
      obtain rfl := Option.some.inj h
      rfl
  | cons entry rest ih =>
      obtain ⟨key', value⟩ := entry
      simp only [Value.jsonEntries, Option.bind_eq_bind, Option.bind_eq_some_iff, Option.pure_def,
        Option.some.injEq] at h
      obtain ⟨value', hvalue, rest', hrest, rfl⟩ := h
      simp only [Fields.get?, List.lookup_cons]
      by_cases hkey : (key == key') = true
      · simp only [hkey, Option.bind_some, hvalue]
      · simp only [hkey]
        exact ih hrest

theorem Value.jsonRoundTrip_of_get? {fields : Fields} (h : Value.jsonEntries fields = some fields)
    {key : String} {value : Value} (hvalue : fields.get? key = some value) :
    value.jsonRoundTrip = some value := by
  have hget := Value.get?_jsonEntries h key
  rw [hvalue] at hget
  exact hget.symm

/-! ### The text of a value -/

namespace Value

theorem append_ne_empty_of_left {s : String} (hs : s ≠ "") (t : String) : s ++ t ≠ "" :=
  fun h => hs (String.append_eq_empty_iff.1 h).1

theorem append_ne_empty_of_right {t : String} (ht : t ≠ "") (s : String) : s ++ t ≠ "" :=
  fun h => ht (String.append_eq_empty_iff.1 h).2

theorem floatText_ne_empty (mantissa exponent : Int) : floatText mantissa exponent ≠ "" := by
  unfold floatText
  extract_lets sign digits point fraction power
  split
  · decide
  · split
    · split
      · exact append_ne_empty_of_left (append_ne_empty_of_left
          (append_ne_empty_of_right (by decide) _) _) _
      · split
        · exact append_ne_empty_of_right (by decide) _
        · exact append_ne_empty_of_left (append_ne_empty_of_right (by decide) _) _
    · refine append_ne_empty_of_left (append_ne_empty_of_left (append_ne_empty_of_right ?_ _) _) _
      split <;> decide

theorem forall_mem_toList_append {p : Char → Prop} {s t : String} (hs : ∀ c ∈ s.toList, p c)
    (ht : ∀ c ∈ t.toList, p c) : ∀ c ∈ (s ++ t).toList, p c := by
  rw [String.toList_append]
  exact List.forall_mem_append.2 ⟨hs, ht⟩

theorem forall_mem_natText {p : Char → Prop} (hdigit : ∀ c : Char, c.isDigit = true → p c) (n : Nat) :
    ∀ c ∈ (toString n).toList, p c := by
  intro c hc
  rw [Nat.toString_eq_ofList_toDigits, String.toList_ofList] at hc
  exact hdigit c (Nat.isDigit_of_mem_toDigits (by decide) (by decide) hc)

theorem forall_mem_zeros {p : Char → Prop} (hdigit : ∀ c : Char, c.isDigit = true → p c) (n : Nat) :
    ∀ c ∈ (zeros n).toList, p c := by
  intro c hc
  rw [zeros, String.toList_ofList] at hc
  obtain rfl := List.eq_of_mem_replicate hc
  exact hdigit '0' rfl

/-- The characters of a float are digits, signs, a point and the letter of an exponent. -/
theorem forall_mem_floatText {p : Char → Prop} (hdigit : ∀ c : Char, c.isDigit = true → p c)
    (hsigns : ∀ c ∈ ['-', '+', '.', 'e'], p c) (mantissa exponent : Int) :
    ∀ c ∈ (floatText mantissa exponent).toList, p c := by
  have htext := forall_mem_natText hdigit
  have htake : ∀ (s : String) (n : Nat), (∀ c ∈ s.toList, p c) →
      ∀ c ∈ (String.ofList (s.toList.take n)).toList, p c := by
    intro s n h c hc
    rw [String.toList_ofList] at hc
    exact h c (List.mem_of_mem_take hc)
  have hdrop : ∀ (s : String) (n : Nat), (∀ c ∈ s.toList, p c) →
      ∀ c ∈ (String.ofList (s.toList.drop n)).toList, p c := by
    intro s n h c hc
    rw [String.toList_ofList] at hc
    exact h c (List.mem_of_mem_drop hc)
  have hsign : ∀ c ∈ (if mantissa < 0 then "-" else "").toList, p c := by
    split
    · exact List.forall_mem_singleton.2 (hsigns '-' (by decide))
    · exact List.forall_mem_nil _
  have hpoint : ∀ c ∈ ".".toList, p c := List.forall_mem_singleton.2 (hsigns '.' (by decide))
  have hzeroPoint : ∀ c ∈ "0.".toList, p c :=
    List.forall_mem_cons.2 ⟨hdigit '0' rfl, hpoint⟩
  have hpointZero : ∀ c ∈ ".0".toList, p c :=
    List.forall_mem_cons.2 ⟨hsigns '.' (by decide), List.forall_mem_singleton.2 (hdigit '0' rfl)⟩
  have hexponent : ∀ c ∈ "e".toList, p c := List.forall_mem_singleton.2 (hsigns 'e' (by decide))
  unfold floatText
  extract_lets sign digits point fraction power
  split
  · exact List.forall_mem_cons.2 ⟨hdigit '0' rfl, hpointZero⟩
  split
  · split
    · exact forall_mem_toList_append (forall_mem_toList_append
        (forall_mem_toList_append hsign hzeroPoint) (forall_mem_zeros hdigit _)) (htext _)
    split
    · exact forall_mem_toList_append (forall_mem_toList_append
        (forall_mem_toList_append hsign (htext _)) (forall_mem_zeros hdigit _)) hpointZero
    · exact forall_mem_toList_append (forall_mem_toList_append
        (forall_mem_toList_append hsign (htake _ _ (htext _))) hpoint) (hdrop _ _ (htext _))
  · have hfraction : ∀ c ∈ (if fraction = "" then "" else "." ++ fraction).toList, p c := by
      split
      · exact List.forall_mem_nil _
      · exact forall_mem_toList_append hpoint (hdrop _ _ (htext _))
    have hpowerSign : ∀ c ∈ (if point - 1 < 0 then "-" else "+").toList, p c := by
      split
      · exact List.forall_mem_singleton.2 (hsigns '-' (by decide))
      · exact List.forall_mem_singleton.2 (hsigns '+' (by decide))
    exact forall_mem_toList_append (forall_mem_toList_append (forall_mem_toList_append
      (forall_mem_toList_append (forall_mem_toList_append
        (forall_mem_toList_append hsign (htake _ _ (htext _))) hfraction) hexponent)
      hpowerSign) (forall_mem_zeros hdigit _)) (htext _)

/-- A JSON value that counts as true has a text. -/
theorem pyStr_ne_empty {v : Value} (hjson : v.jsonRoundTrip.isSome) (h : v.truthy) :
    v.pyStr ≠ "" := by
  cases v with
  | none => cases h
  | bool b =>
      obtain rfl : b = true := h
      decide
  | int n =>
      show n.repr ≠ ""
      cases n with
      | ofNat n => exact Nat.repr_ne_empty
      | negSucc n => exact append_ne_empty_of_left (by decide) _
  | float mantissa exponent => exact floatText_ne_empty mantissa exponent
  | str s => exact bne_iff_ne.1 h
  | list items => exact append_ne_empty_of_right (by decide) _
  | tuple items =>
      match items with
      | [item] => exact append_ne_empty_of_right (by decide) _
      | [] => decide
      | _ :: _ :: _ => exact append_ne_empty_of_right (by decide) _
  | dict entries => exact append_ne_empty_of_right (by decide) _
  | object truthy text => cases hjson

end Value

end PersonalDevin
