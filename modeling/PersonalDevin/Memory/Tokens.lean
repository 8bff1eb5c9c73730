import PersonalDevin.Memory.AtomicWrite

/-!
# The tokens of a file

JSON token by token, with the white space between the tokens left out: an encoder that writes while it
goes through a value and stops at the first object that it cannot write, and a parser. The parser reads
what the encoder has written to the end as the value that JSON keeps.
-/

namespace PersonalDevin.Memory

open Lib

inductive Token where
  | null
  | bool (b : Bool)
  | int (n : ℤ)
  | float (mantissa exponent : ℤ)
  | str (s : String)
  | openList
  | closeList
  | openDict
  | closeDict
  | comma
  | colon
  | newline
  deriving DecidableEq

/-! ### The encoder -/

/-- What is written, and whether the encoder goes on. -/
abbrev Emission := List Token × Bool

def Emission.andThen (x y : Emission) : Emission := if x.2 then (x.1 ++ y.1, y.2) else x

def separator (first : Bool) : List Token := if first then [] else [.comma]

mutual

def emitValue : Value → Emission
  | .none => ([.null], true)
  | .bool b => ([.bool b], true)
  | .int n => ([.int n], true)
  | .float mantissa exponent => ([.float mantissa exponent], true)
  | .str s => ([.str s], true)
  | .list items => Emission.andThen ([.openList], true) (emitItems true items)
  | .tuple items => Emission.andThen ([.openList], true) (emitItems true items)
  | .dict entries => Emission.andThen ([.openDict], true) (emitEntries true entries)
  | .object _ _ => ([], false)

def emitItems : Bool → List Value → Emission
  | _, [] => ([.closeList], true)
  | first, item :: rest =>
      Emission.andThen (separator first, true) ((emitValue item).andThen (emitItems false rest))

def emitEntries : Bool → List (String × Value) → Emission
  | _, [] => ([.closeDict], true)
  | first, (key, value) :: rest =>
      Emission.andThen (separator first ++ [.str key, .colon], true)
        ((emitValue value).andThen (emitEntries false rest))

end

/-! ### The parser -/

/-- The comma before an item that is not the first. -/
def afterSeparator : Bool → List Token → Option (List Token)
  | true, tokens => some tokens
  | false, .comma :: tokens => some tokens
  | false, _ => none

mutual

def parseValue : ℕ → List Token → Option (Value × List Token)
  | _ + 1, .null :: rest => some (.none, rest)
  | _ + 1, .bool b :: rest => some (.bool b, rest)
  | _ + 1, .int n :: rest => some (.int n, rest)
  | _ + 1, .float mantissa exponent :: rest => some (.float mantissa exponent, rest)
  | _ + 1, .str s :: rest => some (.str s, rest)
  | fuel + 1, .openList :: rest => (parseItems fuel true rest).map fun (items, rest) => (.list items, rest)
  | fuel + 1, .openDict :: rest =>
      (parseEntries fuel true rest).map fun (entries, rest) => (.dict entries, rest)
  | _, _ => none

def parseItems : ℕ → Bool → List Token → Option (List Value × List Token)
  | 0, _, _ => none
  | _ + 1, _, .closeList :: rest => some ([], rest)
  | fuel + 1, first, tokens => do
      let tokens ← afterSeparator first tokens
      let (item, tokens) ← parseValue fuel tokens
      let (items, rest) ← parseItems fuel false tokens
      return (item :: items, rest)

def parseEntries : ℕ → Bool → List Token → Option (List (String × Value) × List Token)
  | 0, _, _ => none
  | _ + 1, _, .closeDict :: rest => some ([], rest)
  | fuel + 1, first, tokens => do
      match ← afterSeparator first tokens with
      | .str key :: .colon :: tokens =>
          let (value, tokens) ← parseValue fuel tokens
          let (entries, rest) ← parseEntries fuel false tokens
          return ((key, value) :: entries, rest)
      | _ => none

end

/-! ### The round trip -/

/-- What is written to the end is read as the result, whatever comes after it, and without a result the
encoder raises. -/
def ReadAs {α : Type} (x : Emission) (parse : ℕ → List Token → Option (α × List Token)) :
    Option α → Prop
  | some a => x.2 = true ∧ ∀ fuel rest, x.1.length ≤ fuel → parse fuel (x.1 ++ rest) = some (a, rest)
  | none => x.2 = false

theorem andThen_of_true {x : Emission} (h : x.2 = true) (y : Emission) :
    x.andThen y = (x.1 ++ y.1, y.2) := if_pos h

theorem andThen_of_false {x : Emission} (h : x.2 = false) (y : Emission) : x.andThen y = x :=
  if_neg (by rw [h]; decide)

/-- A value begins with a token that ends no list. -/
theorem emitValue_eq_cons {v : Value} (h : (emitValue v).2 = true) :
    ∃ token rest, (emitValue v).1 = token :: rest ∧ token ≠ .closeList := by
  cases v with
  | object truthy text => cases h
  | list items => exact ⟨_, _, by rw [emitValue, andThen_of_true rfl]; rfl, by decide⟩
  | tuple items => exact ⟨_, _, by rw [emitValue, andThen_of_true rfl]; rfl, by decide⟩
  | dict entries => exact ⟨_, _, by rw [emitValue, andThen_of_true rfl]; rfl, by decide⟩
  | none => exact ⟨_, _, rfl, nofun⟩
  | bool b => exact ⟨_, _, rfl, nofun⟩
  | int n => exact ⟨_, _, rfl, nofun⟩
  | float mantissa exponent => exact ⟨_, _, rfl, nofun⟩
  | str s => exact ⟨_, _, rfl, nofun⟩

theorem parseItems_cons {fuel : ℕ} {first : Bool} {tokens after later rest : List Token} {item : Value}
    {items : List Value} (hhead : tokens.head? ≠ some .closeList)
    (hseparator : afterSeparator first tokens = some after)
    (hitem : parseValue fuel after = some (item, later))
    (hitems : parseItems fuel false later = some (items, rest)) :
    parseItems (fuel + 1) first tokens = some (item :: items, rest) := by
  rw [parseItems]
  · simp [hseparator, hitem, hitems]
  · rintro rest' rfl
    exact hhead rfl

theorem parseEntries_cons {fuel : ℕ} {first : Bool} {tokens after later rest : List Token}
    {key : String} {value : Value} {entries : List (String × Value)}
    (hhead : tokens.head? ≠ some .closeDict)
    (hseparator : afterSeparator first tokens = some (.str key :: .colon :: after))
    (hvalue : parseValue fuel after = some (value, later))
    (hentries : parseEntries fuel false later = some (entries, rest)) :
    parseEntries (fuel + 1) first tokens = some ((key, value) :: entries, rest) := by
  rw [parseEntries]
  · simp [hseparator, hvalue, hentries]
  · rintro rest' rfl
    exact hhead rfl

theorem readAs_cons_items {first : Bool} {item : Value} {rest : List Value}
    (hitem : ReadAs (emitValue item) parseValue item.jsonRoundTrip)
    (hrest : ReadAs (emitItems false rest) (parseItems · false) (Value.jsonItems rest)) :
    ReadAs (emitItems first (item :: rest)) (parseItems · first)
      (Value.jsonItems (item :: rest)) := by
  rw [emitItems, andThen_of_true rfl, Value.jsonItems]
  cases hstored : item.jsonRoundTrip with
  | none =>
      rw [hstored] at hitem
      rw [andThen_of_false hitem]
      exact hitem
  | some stored =>
      rw [hstored] at hitem
      obtain ⟨hgoes, hparse⟩ := hitem
      rw [andThen_of_true hgoes]
      cases hitems : Value.jsonItems rest with
      | none =>
          rw [hitems] at hrest
          exact hrest
      | some items =>
          rw [hitems] at hrest
          obtain ⟨hends, hparses⟩ := hrest
          refine ⟨hends, fun fuel tail hfuel => ?_⟩
          obtain ⟨token, tokens, hcons, hclose⟩ := emitValue_eq_cons hgoes
          have hlength : 0 < (emitItems false rest).1.length := by
            by_contra hnot
            have hzero := hparses 0 [] (not_lt.1 hnot)
            simp [parseItems] at hzero
          simp only [List.length_append, hcons, List.length_cons] at hfuel
          obtain ⟨fuel, rfl⟩ : ∃ n, fuel = n + 1 := ⟨fuel - 1, by omega⟩
          have hnext : parseValue fuel ((emitValue item).1 ++ ((emitItems false rest).1 ++ tail))
              = some (stored, (emitItems false rest).1 ++ tail) :=
            hparse fuel _ (by rw [hcons, List.length_cons]; omega)
          have hothers := hparses fuel tail (by omega)
          rw [List.append_assoc, List.append_assoc]
          cases first with
          | true =>
              refine parseItems_cons ?_ rfl hnext hothers
              rw [hcons]
              exact fun hhead => hclose (Option.some.inj hhead)
          | false => exact parseItems_cons (by simp [separator]) rfl hnext hothers

theorem readAs_cons_entries {first : Bool} {key : String} {value : Value}
    {rest : List (String × Value)}
    (hvalue : ReadAs (emitValue value) parseValue value.jsonRoundTrip)
    (hrest : ReadAs (emitEntries false rest) (parseEntries · false) (Value.jsonEntries rest)) :
    ReadAs (emitEntries first ((key, value) :: rest)) (parseEntries · first)
      (Value.jsonEntries ((key, value) :: rest)) := by
  rw [emitEntries, andThen_of_true rfl, Value.jsonEntries]
  cases hstored : value.jsonRoundTrip with
  | none =>
      rw [hstored] at hvalue
      rw [andThen_of_false hvalue]
      exact hvalue
  | some stored =>
      rw [hstored] at hvalue
      obtain ⟨hgoes, hparse⟩ := hvalue
      rw [andThen_of_true hgoes]
      cases hentries : Value.jsonEntries rest with
      | none =>
          rw [hentries] at hrest
          exact hrest
      | some entries =>
          rw [hentries] at hrest
          obtain ⟨hends, hparses⟩ := hrest
          refine ⟨hends, fun fuel tail hfuel => ?_⟩
          simp only [List.length_append, List.length_cons, List.length_nil] at hfuel
          obtain ⟨fuel, rfl⟩ : ∃ n, fuel = n + 1 := ⟨fuel - 1, by omega⟩
          have hnext : parseValue fuel ((emitValue value).1 ++ ((emitEntries false rest).1 ++ tail))
              = some (stored, (emitEntries false rest).1 ++ tail) := hparse fuel _ (by omega)
          have hothers := hparses fuel tail (by omega)
          rw [List.append_assoc, List.append_assoc, List.append_assoc]
          cases first with
          | true => exact parseEntries_cons nofun rfl hnext hothers
          | false => exact parseEntries_cons (by simp [separator]) rfl hnext hothers

/-- A container is read after its opening token. -/
theorem readAs_open {α : Type} {opening : Token} {x : Emission}
    {parse : ℕ → List Token → Option (α × List Token)} {result : Option α} {f : α → Value}
    (hparse : ∀ fuel rest, parseValue (fuel + 1) (opening :: rest)
      = (parse fuel rest).map fun (a, rest) => (f a, rest))
    (h : ReadAs x parse result) :
    ReadAs (Emission.andThen ([opening], true) x) parseValue (result.map f) := by
  rw [andThen_of_true rfl]
  cases result with
  | none => exact h
  | some a =>
      obtain ⟨hends, hread⟩ := h
      refine ⟨hends, fun fuel rest hfuel => ?_⟩
      simp only [List.length_append, List.length_cons, List.length_nil] at hfuel
      obtain ⟨fuel, rfl⟩ : ∃ n, fuel = n + 1 := ⟨fuel - 1, by omega⟩
      show parseValue (fuel + 1) (opening :: (x.1 ++ rest)) = _
      rw [hparse, hread fuel rest (by omega)]
      rfl

theorem readAs_token {token : Token} {v : Value}
    (hparse : ∀ fuel rest, parseValue (fuel + 1) (token :: rest) = some (v, rest)) :
    ReadAs ([token], true) parseValue (some v) := by
  refine ⟨rfl, fun fuel rest hfuel => ?_⟩
  obtain ⟨fuel, rfl⟩ : ∃ n, fuel = n + 1 := ⟨fuel - 1, by
    simp only [List.length_cons, List.length_nil] at hfuel
    omega⟩
  exact hparse fuel rest

mutual

/-- **What was written of a value is read as the value that JSON keeps.** -/
theorem readAs_emitValue : ∀ v : Value, ReadAs (emitValue v) parseValue v.jsonRoundTrip
  | .none => readAs_token fun _ _ => rfl
  | .bool _ => readAs_token fun _ _ => rfl
  | .int _ => readAs_token fun _ _ => rfl
  | .float _ _ => readAs_token fun _ _ => rfl
  | .str _ => readAs_token fun _ _ => rfl
  | .list items => readAs_open (fun _ _ => rfl) (readAs_emitItems true items)
  | .tuple items => readAs_open (fun _ _ => rfl) (readAs_emitItems true items)
  | .dict entries => readAs_open (fun _ _ => rfl) (readAs_emitEntries true entries)
  | .object _ _ => rfl

theorem readAs_emitItems : ∀ (first : Bool) (items : List Value),
    ReadAs (emitItems first items) (parseItems · first) (Value.jsonItems items)
  | _, [] => ⟨rfl, fun fuel rest hfuel => by
      cases fuel with
      | zero => cases hfuel
      | succ fuel => rfl⟩
  | _, item :: rest => readAs_cons_items (readAs_emitValue item) (readAs_emitItems false rest)

theorem readAs_emitEntries : ∀ (first : Bool) (entries : List (String × Value)),
    ReadAs (emitEntries first entries) (parseEntries · first) (Value.jsonEntries entries)
  | _, [] => ⟨rfl, fun fuel rest hfuel => by
      cases fuel with
      | zero => cases hfuel
      | succ fuel => rfl⟩
  | _, (_, value) :: rest => readAs_cons_entries (readAs_emitValue value) (readAs_emitEntries false rest)

end

/-! ### Files of tokens -/

/-- `json.dump` of the payloads of a stream. -/
def emitPayloads (payloads : List Fields) : Emission := emitValue (.list (payloads.map .dict))

def payloadOf : Value → Option StoredPayload
  | .dict fields => StoredPayload.ofFields fields
  | _ => none

/-- `json.load` of a stream, with a line break at its end. -/
def loadPayloads (tokens : List Token) : Option (List StoredPayload) :=
  match parseValue tokens.length tokens with
  | some (.list items, [.newline]) => items.mapM payloadOf
  | _ => none

theorem jsonEntries_eq_map (payload : Fields) :
    Value.jsonEntries payload = (StoredPayload.ofFields payload).map StoredPayload.fields := by
  unfold StoredPayload.ofFields
  split
  · rename_i hnone
    exact hnone
  · rename_i fields hsome
    exact hsome

theorem jsonItems_dump (payloads : List Fields) :
    Value.jsonItems (payloads.map .dict)
      = (dump payloads).map fun stored => stored.map fun payload => .dict payload.fields := by
  induction payloads with
  | nil => rfl
  | cons payload rest ih =>
      rw [List.map_cons, Value.jsonItems, ih, Value.jsonRoundTrip, jsonEntries_eq_map, dump, dump,
        List.mapM_cons]
      cases StoredPayload.ofFields payload with
      | none => rfl
      | some stored => cases rest.mapM StoredPayload.ofFields <;> rfl

theorem mapM_payloadOf (payloads : List StoredPayload) :
    (payloads.map fun payload => Value.dict payload.fields).mapM payloadOf = some payloads := by
  refine mapM_eq_some_iff.2 (List.forall₂_map_left_iff.2 (List.forall₂_same.2 fun payload _ => ?_))
  exact payload.ofFields_fields

def tokenJson : Json Token where
  emit := emitPayloads
  newline := .newline
  load := loadPayloads
  emit_returns payloads := by
    have hread := readAs_emitValue (.list (payloads.map .dict))
    rw [Value.jsonRoundTrip, jsonItems_dump] at hread
    cases hdump : dump payloads with
    | none =>
        rw [hdump] at hread
        exact hread
    | some stored =>
        rw [hdump] at hread
        exact hread.1
  load_emit {payloads stored} hdump := by
    have hread := readAs_emitValue (.list (payloads.map .dict))
    rw [Value.jsonRoundTrip, jsonItems_dump, hdump] at hread
    rw [loadPayloads, emitPayloads, hread.2 _ _ (by simp)]
    exact mapM_payloadOf stored

/-! ### A history with a stop and an encoder that raises -/

/-- The encoder stops in the middle of the payload. -/
def unwritable : Fields := [("id", .str "T-000001"), ("value", .object true "<object>")]

def interrupted : List MemoryStore.Attempt :=
  [⟨.start, none⟩, ⟨.append .task [("id", .str "T-000001")], none⟩, ⟨.append .task unwritable, none⟩,
    ⟨.append .task [("id", .str "T-000002")], some 5⟩]

theorem append_atomic_interrupted :
    (MemoryStore.append tokenJson (MemoryStore.performAll tokenJson (fun _ => none) interrupted) .task
        [("id", .str "T-000002")]).2 = true := by
  have h := (MemoryStore.append_atomic tokenJson (fun _ => none) interrupted .task
    [("id", .str "T-000002")]).2.1
  exact h.2 (by decide +kernel)

end PersonalDevin.Memory
