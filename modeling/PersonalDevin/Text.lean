import PersonalDevin.Value
import Mathlib.Data.List.DropRight

/-!
# Texts

`str` of an object, `str.strip`, `str.lower` and the text of a field. The white space is that of
`str.isspace`. Only letters of the ASCII alphabet are taken to lower case: the words that the program
compares a lowered text with have no letter that another character has for its lower case.
-/

namespace PersonalDevin

/-- What `str` makes of an object: its text, or the text of the exception that it raises. -/
abbrev Printed := Except String String

/-- `c.isspace()`. -/
def isSpace (c : Char) : Bool :=
  let n := c.toNat
  (9 ≤ n && n ≤ 13) || (28 ≤ n && n ≤ 32) || n = 0x85 || n = 0xA0 || n = 0x1680
    || (0x2000 ≤ n && n ≤ 0x200A) || n = 0x2028 || n = 0x2029 || n = 0x202F || n = 0x205F || n = 0x3000

/-- `s.strip()`. -/
def strip (s : String) : String :=
  String.ofList ((s.toList.dropWhile isSpace).reverse.dropWhile isSpace).reverse

theorem strip_ne_empty {s : String} {c : Char} (hmem : c ∈ s.toList) (hc : isSpace c = false) :
    strip s ≠ "" := by
  intro hblank
  have hnil : (s.toList.dropWhile isSpace).reverse.dropWhile isSpace = [] := by
    simpa [strip] using congrArg String.toList hblank
  rw [List.dropWhile_eq_nil_iff] at hnil
  rw [← List.takeWhile_append_dropWhile (p := isSpace) (l := s.toList), List.mem_append] at hmem
  have hspace : isSpace c = true := by
    rcases hmem with htaken | hdropped
    · exact List.mem_takeWhile_imp htaken
    · exact hnil c (List.mem_reverse.2 hdropped)
  rw [hc] at hspace
  cases hspace

theorem strip_strip (s : String) : strip (strip s) = strip s := by
  have hidem : ∀ chars : List Char,
      ((chars.dropWhile isSpace).rdropWhile isSpace).dropWhile isSpace
        = (chars.dropWhile isSpace).rdropWhile isSpace := by
    intro chars
    rw [List.dropWhile_eq_self_iff]
    intro hpos
    have hpre := List.rdropWhile_prefix isSpace (chars.dropWhile isSpace)
    have hlength := hpre.length_le
    rw [hpre.getElem hpos]
    exact List.dropWhile_get_zero_not isSpace chars (by omega)
  show String.ofList (((String.toList (String.ofList
      ((s.toList.dropWhile isSpace).rdropWhile isSpace))).dropWhile isSpace).rdropWhile isSpace)
    = String.ofList ((s.toList.dropWhile isSpace).rdropWhile isSpace)
  rw [String.toList_ofList, hidem, List.rdropWhile_idempotent]

/-- The characters of `s.lower()`. -/
def lowerChars (s : String) : List Char := s.toList.map Char.toLower

/-- `s.lower()`. -/
def lower (s : String) : String := String.ofList (lowerChars s)

/-- `token in text`. -/
def isIn (token : List Char) : List Char → Bool
  | [] => token.isEmpty
  | c :: rest => token.isPrefixOf (c :: rest) || isIn token rest

/-- `str(d.get(key, default))`. -/
def textField (fields : Fields) (key default : String) : String :=
  match fields.get? key with
  | some value => value.pyStr
  | none => default

example : strip " goal \t" = "goal" := by decide

end PersonalDevin
