import Mathlib.Data.List.Basic
import Mathlib.Data.List.Infix
import Mathlib.Data.Char

/-!
# The text of JSON data

JSON data and the text that a writer makes of it, with every character outside printable ASCII escaped
and with the same blank, or none, behind every separator. The text determines the data: behind a value
stands nothing, or a character that ends it, so that two texts with a common beginning must be cut at
the same places.
-/

namespace Lib

def numberChars : List Char := "+-.0123456789e".toList

/-- A number as it is written. -/
abbrev NumberText := { text : List Char // text ≠ [] ∧ ∀ c ∈ text, c ∈ numberChars }

/-- JSON data. The entries of an object stand in the order in which they are written. -/
inductive Json where
  | null
  | bool (b : Bool)
  | number (text : NumberText)
  | str (s : String)
  | array (items : List Json)
  | object (entries : List (String × Json))

namespace Json

/-! ### Strings -/

def quote : Char := Char.ofNat 34

def backslash : Char := Char.ofNat 92

/-- The escapes with a letter of their own. -/
def shortEscapes : List (Char × Char) :=
  [(quote, quote), (backslash, backslash), (Char.ofNat 8, 'b'), (Char.ofNat 9, 't'),
    (Char.ofNat 10, 'n'), (Char.ofNat 12, 'f'), (Char.ofNat 13, 'r')]

def hexDigits (n : ℕ) : List Char :=
  [Nat.digitChar (n / 4096 % 16), Nat.digitChar (n / 256 % 16), Nat.digitChar (n / 16 % 16),
    Nat.digitChar (n % 16)]

/-- One unit of UTF-16. -/
def escapeUnit (n : ℕ) : List Char := backslash :: 'u' :: hexDigits n

/-- A character outside the basic plane is written as two units. -/
def escapeChar (c : Char) : List Char :=
  match shortEscapes.lookup c with
  | some letter => [backslash, letter]
  | none =>
      if 32 ≤ c.toNat ∧ c.toNat < 127 then [c]
      else if c.toNat < 65536 then escapeUnit c.toNat
      else escapeUnit (55296 + (c.toNat - 65536) / 1024)
        ++ escapeUnit (56320 + (c.toNat - 65536) % 1024)

def stringText (s : String) : List Char := quote :: (s.toList.flatMap escapeChar ++ [quote])

/-! ### Values -/

section

variable (blank : List Char)

mutual

def text : Json → List Char
  | null => "null".toList
  | bool b => (if b then "true" else "false").toList
  | number text => text
  | str s => stringText s
  | array [] => ['[', ']']
  | array (item :: rest) => '[' :: (text item ++ itemsText rest)
  | object [] => [Char.ofNat 123, Char.ofNat 125]
  | object ((key, value) :: rest) =>
      Char.ofNat 123 :: (stringText key ++ ':' :: (blank ++ (text value ++ entriesText rest)))

/-- The items after the first. -/
def itemsText : List Json → List Char
  | [] => [']']
  | item :: rest => ',' :: (blank ++ (text item ++ itemsText rest))

/-- The entries after the first. -/
def entriesText : List (String × Json) → List Char
  | [] => [Char.ofNat 125]
  | (key, value) :: rest =>
      ',' :: (blank ++ (stringText key ++ ':' :: (blank ++ (text value ++ entriesText rest))))

end

end

/-- `json.dumps(data)`, with the keys as they stand. -/
def dumpsSpaced (data : Json) : String := String.ofList (data.text [' '])

/-- `json.dumps(data, separators=(",", ":"))`, with the keys as they stand. -/
def dumps (data : Json) : String := String.ofList (data.text [])

example : (object [("a", array [null, bool true]), ("b", str "é\n")]).dumps
    = "\x7b\"a\":[null,true],\"b\":\"\\u00e9\\n\"\x7d" := by decide

example : (array [str "x", null]).dumpsSpaced = "[\"x\", null]" := by decide

/-! ### Reading a string back -/

/-- The value of a hexadecimal digit. -/
def hexValue (c : Char) : ℕ := "0123456789abcdef".toList.idxOf c

theorem hexValue_digitChar {n : ℕ} (h : n < 16) : hexValue (Nat.digitChar n) = n := by
  have hall : ∀ n < 16, hexValue (Nat.digitChar n) = n := by decide
  exact hall n h

/-- The unit behind a backslash and an `u`. -/
def readUnit : List Char → Option (ℕ × List Char)
  | a :: b :: c :: d :: rest =>
      some (hexValue a * 4096 + hexValue b * 256 + hexValue c * 16 + hexValue d, rest)
  | _ => none

theorem readUnit_hexDigits {n : ℕ} (h : n < 65536) (rest : List Char) :
    readUnit (hexDigits n ++ rest) = some (n, rest) := by
  simp only [hexDigits, List.cons_append, List.nil_append, readUnit,
    hexValue_digitChar (Nat.mod_lt _ (by decide : 16 > 0)), Option.some.injEq, Prod.mk.injEq, and_true]
  omega

/-- The first character that is written, and what stands behind it. -/
def unescape : List Char → Option (Char × List Char)
  | [] => none
  | c :: rest =>
      if c ≠ backslash then some (c, rest)
      else
        match rest with
        | [] => none
        | letter :: rest =>
            if letter ≠ 'u' then (shortEscapes.find? (·.2 = letter)).map fun entry => (entry.1, rest)
            else
              match readUnit rest with
              | none => none
              | some (high, rest) =>
                  if 55296 ≤ high ∧ high < 56320 then
                    (readUnit (rest.drop 2)).map fun low =>
                      (Char.ofNat (65536 + (high - 55296) * 1024 + (low.1 - 56320)), low.2)
                  else some (Char.ofNat high, rest)

theorem unescape_escapeUnit {n : ℕ} (h : n < 65536) (rest : List Char) :
    unescape (escapeUnit n ++ rest)
      = if 55296 ≤ n ∧ n < 56320 then (readUnit (rest.drop 2)).map fun low =>
          (Char.ofNat (65536 + (n - 55296) * 1024 + (low.1 - 56320)), low.2)
        else some (Char.ofNat n, rest) := by
  rw [escapeUnit, List.cons_append, List.cons_append, unescape, if_neg (not_not.2 rfl)]
  simp only [ne_eq, not_true_eq_false, if_false, readUnit_hexDigits h]

theorem unescape_shortEscapes : ∀ entry ∈ shortEscapes, ∀ rest,
    unescape (backslash :: entry.2 :: rest) = some (entry.1, rest) := by
  simp only [shortEscapes, List.forall_mem_cons, List.not_mem_nil, false_imp_iff, implies_true,
    and_true]
  exact ⟨fun _ => rfl, fun _ => rfl, fun _ => rfl, fun _ => rfl, fun _ => rfl, fun _ => rfl,
    fun _ => rfl⟩

theorem ne_backslash_of_lookup {c : Char} (h : shortEscapes.lookup c = none) : c ≠ backslash := by
  rintro rfl
  exact absurd h (by decide)

/-- **A character is read back.** -/
theorem unescape_escapeChar (c : Char) (rest : List Char) :
    unescape (escapeChar c ++ rest) = some (c, rest) := by
  rw [escapeChar]
  split
  · rename_i letter hletter
    obtain ⟨before, after, hentries, _⟩ := List.lookup_eq_some_iff.1 hletter
    have hmem : (c, letter) ∈ shortEscapes := hentries ▸ List.mem_append_right _ List.mem_cons_self
    exact unescape_shortEscapes (c, letter) hmem rest
  · rename_i hnone
    split
    · exact if_pos (ne_backslash_of_lookup hnone)
    · split
      · rename_i hplane
        -- no character lies in the range of the surrogates
        have hvalid : ¬ (55296 ≤ c.toNat ∧ c.toNat < 56320) := by
          have hc := c.valid
          unfold UInt32.isValidChar Nat.isValidChar at hc
          have hval : c.toNat = c.val.toNat := rfl
          omega
        rw [unescape_escapeUnit hplane, if_neg hvalid, Char.ofNat_toNat]
      · have hc : c.toNat < 1114112 := by
          have hc := c.valid
          unfold UInt32.isValidChar Nat.isValidChar at hc
          have hval : c.toNat = c.val.toNat := rfl
          omega
        rw [List.append_assoc, unescape_escapeUnit (by omega), if_pos (by omega), escapeUnit,
          List.cons_append, List.cons_append, List.drop_succ_cons, List.drop_succ_cons, List.drop_zero,
          readUnit_hexDigits (by omega), Option.map_some]
        have hsum : 65536 + (55296 + (c.toNat - 65536) / 1024 - 55296) * 1024
            + (56320 + (c.toNat - 65536) % 1024 - 56320) = c.toNat := by
          omega
        rw [hsum, Char.ofNat_toNat]

theorem flatMap_escapeChar_append_inj {cs ds r s : List Char}
    (h : cs.flatMap escapeChar ++ quote :: r = ds.flatMap escapeChar ++ quote :: s) :
    cs = ds ∧ r = s := by
  -- a text that ends here is no text that goes on: the quote is escaped there
  have hends : ∀ (c : Char) (rest more : List Char), quote :: rest ≠ escapeChar c ++ more := by
    intro c rest more heq
    have hread := unescape_escapeChar c more
    rw [← heq] at hread
    obtain rfl : quote = c := congrArg Prod.fst (Option.some.inj hread)
    exact absurd (List.cons.inj heq).1 (by decide)
  induction cs generalizing ds with
  | nil =>
      cases ds with
      | nil => exact ⟨rfl, (List.cons.inj h).2⟩
      | cons d ds =>
          rw [List.flatMap_cons, List.append_assoc] at h
          exact absurd h (hends d r _)
  | cons c cs ih =>
      cases ds with
      | nil =>
          rw [List.flatMap_cons, List.append_assoc] at h
          exact absurd h.symm (hends c s _)
      | cons d ds =>
          rw [List.flatMap_cons, List.append_assoc, List.flatMap_cons, List.append_assoc] at h
          have hread := unescape_escapeChar c (cs.flatMap escapeChar ++ quote :: r)
          rw [h, unescape_escapeChar, Option.some.injEq, Prod.mk.injEq] at hread
          obtain ⟨rfl, hrest⟩ := hread
          obtain ⟨rfl, hr⟩ := ih hrest.symm
          exact ⟨rfl, hr⟩

theorem stringText_append_inj {s t : String} {r r' : List Char}
    (h : stringText s ++ r = stringText t ++ r') : s = t ∧ r = r' := by
  simp only [stringText, List.cons_append, List.append_assoc, List.nil_append, List.cons.injEq,
    true_and] at h
  obtain ⟨hchars, hr⟩ := flatMap_escapeChar_append_inj h
  exact ⟨String.toList_inj.1 hchars, hr⟩

/-! ### Reading a value back -/

variable {blank : List Char}

/-- What stands behind does not go on with a number. -/
def Ends (rest : List Char) : Prop := ∀ c ∈ rest.head?, c ∉ numberChars

theorem ends_nil : Ends [] := fun _ h => by cases h

theorem ends_cons {c : Char} (h : c ∉ numberChars) (rest : List Char) : Ends (c :: rest) :=
  fun _ hmem => Option.some.inj hmem ▸ h

theorem ends_itemsText (items : List Json) (rest : List Char) :
    Ends (itemsText blank items ++ rest) := by
  cases items with
  | nil => exact ends_cons (by decide) rest
  | cons item more => exact ends_cons (by decide) _

theorem ends_entriesText (entries : List (String × Json)) (rest : List Char) :
    Ends (entriesText blank entries ++ rest) := by
  cases entries with
  | nil => exact ends_cons (by decide) rest
  | cons entry more => exact ends_cons (by decide) _

theorem number_append_inj {t u : NumberText} {r s : List Char} (hr : Ends r) (hs : Ends s)
    (h : t.val ++ r = u.val ++ s) : t = u ∧ r = s := by
  have hcut : ∀ {a b : List Char} {x y : NumberText}, Ends a → x.val ++ a = y.val ++ b →
      ∀ more, y.val = x.val ++ more → more = [] := by
    intro a b x y ha heq more hmore
    rw [hmore, List.append_assoc] at heq
    cases more with
    | nil => rfl
    | cons c more =>
        refine absurd (y.2.2 c (hmore ▸ List.mem_append_right _ List.mem_cons_self)) (ha c ?_)
        rw [List.append_cancel_left heq]
        rfl
  rcases List.append_eq_append_iff.1 h with ⟨more, hu, hrest⟩ | ⟨more, ht, hrest⟩
  · obtain rfl := hcut hr h more hu
    rw [List.append_nil] at hu
    exact ⟨Subtype.ext hu.symm, hrest⟩
  · obtain rfl := hcut hs h.symm more ht
    rw [List.append_nil] at ht
    exact ⟨Subtype.ext ht, hrest.symm⟩

/-- The kind of a value, which its first character tells. -/
def kind : Json → ℕ
  | null => 0
  | bool false => 1
  | bool true => 2
  | number _ => 3
  | str _ => 4
  | array _ => 5
  | object _ => 6

/-- The kind of the values that begin with the character, or a number that is no kind. -/
def kindOf (c : Char) : ℕ :=
  if c ∈ numberChars then 3
  else if c = 'n' then 0 else if c = 'f' then 1 else if c = 't' then 2 else if c = quote then 4
  else if c = '[' then 5 else if c = Char.ofNat 123 then 6 else 7

theorem kind_lt (data : Json) : data.kind < 7 := by
  cases data with
  | bool b => cases b <;> exact of_decide_eq_true rfl
  | _ => exact of_decide_eq_true rfl

theorem text_eq_cons (blank : List Char) (data : Json) :
    ∃ c rest, data.text blank = c :: rest ∧ kindOf c = data.kind := by
  match data with
  | null => exact ⟨'n', "ull".toList, rfl, by decide⟩
  | bool true => exact ⟨'t', "rue".toList, rfl, by decide⟩
  | bool false => exact ⟨'f', "alse".toList, rfl, by decide⟩
  | number ⟨c :: rest, hnumber⟩ =>
      exact ⟨c, rest, rfl, if_pos (hnumber.2 c List.mem_cons_self)⟩
  | str s => exact ⟨quote, _, rfl, rfl⟩
  | array [] => exact ⟨'[', _, rfl, rfl⟩
  | array (item :: rest) => exact ⟨'[', _, rfl, rfl⟩
  | object [] => exact ⟨Char.ofNat 123, _, rfl, rfl⟩
  | object ((key, value) :: rest) => exact ⟨Char.ofNat 123, _, rfl, rfl⟩

theorem kind_eq {v w : Json} {r s : List Char} (h : v.text blank ++ r = w.text blank ++ s) :
    v.kind = w.kind := by
  obtain ⟨c, rest, hv, hc⟩ := text_eq_cons blank v
  obtain ⟨d, more, hw, hd⟩ := text_eq_cons blank w
  rw [hv, hw, List.cons_append, List.cons_append, List.cons.injEq] at h
  rw [← hc, ← hd, h.1]

/-- No value begins with a closing bracket. -/
theorem cons_ne_text {c : Char} (h : kindOf c = 7) (rest : List Char) (data : Json) (s : List Char) :
    c :: rest ≠ data.text blank ++ s := by
  intro heq
  obtain ⟨d, more, htext, hd⟩ := text_eq_cons blank data
  rw [htext, List.cons_append, List.cons.injEq] at heq
  rw [← heq.1, h] at hd
  exact absurd data.kind_lt (hd ▸ Nat.lt_irrefl 7)

mutual

/-- **A text is cut at the same place, whatever stands behind the value.** -/
theorem text_append_inj : ∀ {v w : Json} {r s : List Char}, Ends r → Ends s →
    v.text blank ++ r = w.text blank ++ s → v = w ∧ r = s
  | .null, w, _, _, _, _, h => by
      cases w with
      | null => exact ⟨rfl, List.append_cancel_left h⟩
      | bool b => cases b <;> exact absurd (kind_eq h) (of_decide_eq_false rfl)
      | _ => exact absurd (kind_eq h) (of_decide_eq_false rfl)
  | .bool b, w, _, _, _, _, h => by
      cases w with
      | bool b' =>
          cases b <;> cases b'
          · exact ⟨rfl, List.append_cancel_left h⟩
          · exact absurd (kind_eq h) (of_decide_eq_false rfl)
          · exact absurd (kind_eq h) (of_decide_eq_false rfl)
          · exact ⟨rfl, List.append_cancel_left h⟩
      | _ => cases b <;> exact absurd (kind_eq h) (of_decide_eq_false rfl)
  | .number t, w, _, _, hr, hs, h => by
      cases w with
      | number u =>
          obtain ⟨rfl, hrest⟩ := number_append_inj hr hs h
          exact ⟨rfl, hrest⟩
      | bool b => cases b <;> exact absurd (kind_eq h) (of_decide_eq_false rfl)
      | _ => exact absurd (kind_eq h) (of_decide_eq_false rfl)
  | .str s, w, _, _, _, _, h => by
      cases w with
      | str t =>
          obtain ⟨rfl, hrest⟩ := stringText_append_inj h
          exact ⟨rfl, hrest⟩
      | bool b => cases b <;> exact absurd (kind_eq h) (of_decide_eq_false rfl)
      | _ => exact absurd (kind_eq h) (of_decide_eq_false rfl)
  | .array items, w, _, _, _, _, h => by
      cases w with
      | array items' =>
          obtain ⟨rfl, hrest⟩ := arrayText_append_inj h
          exact ⟨rfl, hrest⟩
      | bool b => cases b <;> exact absurd (kind_eq h) (of_decide_eq_false rfl)
      | _ => exact absurd (kind_eq h) (of_decide_eq_false rfl)
  | .object entries, w, _, _, _, _, h => by
      cases w with
      | object entries' =>
          obtain ⟨rfl, hrest⟩ := objectText_append_inj h
          exact ⟨rfl, hrest⟩
      | bool b => cases b <;> exact absurd (kind_eq h) (of_decide_eq_false rfl)
      | _ => exact absurd (kind_eq h) (of_decide_eq_false rfl)

theorem arrayText_append_inj : ∀ {items items' : List Json} {r s : List Char},
    (array items).text blank ++ r = (array items').text blank ++ s → items = items' ∧ r = s
  | [], [], _, _, h => ⟨rfl, List.append_cancel_left h⟩
  | [], item :: rest, _, _, h => by
      simp only [text, List.cons_append, List.nil_append, List.append_assoc, List.cons.injEq,
        true_and] at h
      exact absurd h (cons_ne_text rfl _ item _)
  | item :: rest, [], _, _, h => by
      simp only [text, List.cons_append, List.nil_append, List.append_assoc, List.cons.injEq,
        true_and] at h
      exact absurd h.symm (cons_ne_text rfl _ item _)
  | item :: rest, item' :: rest', _, _, h => by
      simp only [text, List.cons_append, List.append_assoc, List.cons.injEq, true_and] at h
      obtain ⟨rfl, hrest⟩ := text_append_inj (ends_itemsText rest _) (ends_itemsText rest' _) h
      obtain ⟨rfl, hr⟩ := itemsText_append_inj hrest
      exact ⟨rfl, hr⟩

theorem itemsText_append_inj : ∀ {items items' : List Json} {r s : List Char},
    itemsText blank items ++ r = itemsText blank items' ++ s → items = items' ∧ r = s
  | [], [], _, _, h => ⟨rfl, List.append_cancel_left h⟩
  | [], item :: rest, _, _, h => absurd (List.cons.inj h).1 (by decide)
  | item :: rest, [], _, _, h => absurd (List.cons.inj h).1 (by decide)
  | item :: rest, item' :: rest', _, _, h => by
      simp only [itemsText, List.cons_append, List.append_assoc, List.cons.injEq, true_and] at h
      obtain ⟨rfl, hrest⟩ := text_append_inj (ends_itemsText rest _) (ends_itemsText rest' _)
        (List.append_cancel_left h)
      obtain ⟨rfl, hr⟩ := itemsText_append_inj hrest
      exact ⟨rfl, hr⟩

theorem objectText_append_inj : ∀ {entries entries' : List (String × Json)} {r s : List Char},
    (object entries).text blank ++ r = (object entries').text blank ++ s → entries = entries' ∧ r = s
  | [], [], _, _, h => ⟨rfl, List.append_cancel_left h⟩
  | [], (key, value) :: rest, _, _, h => by
      simp only [text, stringText, List.cons_append, List.nil_append, List.append_assoc,
        List.cons.injEq, true_and] at h
      exact absurd h.1 (by decide)
  | (key, value) :: rest, [], _, _, h => by
      simp only [text, stringText, List.cons_append, List.nil_append, List.append_assoc,
        List.cons.injEq, true_and] at h
      exact absurd h.1 (by decide)
  | (key, value) :: rest, (key', value') :: rest', _, _, h => by
      simp only [text, List.cons_append, List.append_assoc, List.cons.injEq, true_and] at h
      obtain ⟨rfl, hvalue⟩ := stringText_append_inj h
      obtain ⟨rfl, hrest⟩ := text_append_inj (ends_entriesText rest _) (ends_entriesText rest' _)
        (List.append_cancel_left (List.cons.inj hvalue).2)
      obtain ⟨rfl, hr⟩ := entriesText_append_inj hrest
      exact ⟨rfl, hr⟩

theorem entriesText_append_inj : ∀ {entries entries' : List (String × Json)} {r s : List Char},
    entriesText blank entries ++ r = entriesText blank entries' ++ s → entries = entries' ∧ r = s
  | [], [], _, _, h => ⟨rfl, List.append_cancel_left h⟩
  | [], (key, value) :: rest, _, _, h => absurd (List.cons.inj h).1 (by decide)
  | (key, value) :: rest, [], _, _, h => absurd (List.cons.inj h).1 (by decide)
  | (key, value) :: rest, (key', value') :: rest', _, _, h => by
      simp only [entriesText, List.cons_append, List.append_assoc, List.cons.injEq, true_and] at h
      obtain ⟨rfl, hvalue⟩ := stringText_append_inj (List.append_cancel_left h)
      obtain ⟨rfl, hrest⟩ := text_append_inj (ends_entriesText rest _) (ends_entriesText rest' _)
        (List.append_cancel_left (List.cons.inj hvalue).2)
      obtain ⟨rfl, hr⟩ := entriesText_append_inj hrest
      exact ⟨rfl, hr⟩

end

/-- **The text determines the data**, whatever blank is written. -/
theorem text_injective (blank : List Char) : Function.Injective (text blank) := by
  intro v w h
  have htext : v.text blank ++ [] = w.text blank ++ [] := by
    rw [List.append_nil, List.append_nil, h]
  exact (text_append_inj ends_nil ends_nil htext).1

theorem dumps_injective : Function.Injective dumps := fun _ _ h =>
  text_injective [] (String.ofList_injective h)

end Json

end Lib
