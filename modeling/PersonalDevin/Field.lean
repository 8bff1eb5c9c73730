import PersonalDevin.Lib.Paired
import PersonalDevin.Text

/-!
# Declared fields

What the declared fields of a model accept of a dictionary: a text that must not be empty, a boolean, a
list of texts, a dictionary that may be missing.
-/

namespace PersonalDevin

/-- A field declared `str = Field(..., min_length=1)`. -/
def nonEmptyStr : Option Value → Option String
  | some (.str s) => if s = "" then none else some s
  | _ => none

def strItem : Value → Option String
  | .str s => some s
  | _ => none

theorem mapM_strItem_eq_some_iff {items : List Value} {texts : List String} :
    items.mapM strItem = some texts
      ↔ List.Forall₂ (fun item text => item = .str text) items texts := by
  have hitem : ∀ item text, strItem item = some text ↔ item = .str text := by
    intro item text
    cases item <;> simp [strItem]
  simp only [Lib.mapM_eq_some_iff, hitem]

/-- A field declared `list[str] = Field(...)`. -/
def strList : Option Value → Option (List String)
  | some (.list items) => items.mapM strItem
  | some (.tuple items) => items.mapM strItem
  | _ => none

def boolItem : Value → Option Bool
  | .bool b => some b
  | .int n => if n = 0 then some false else if n = 1 then some true else none
  | .float mantissa exponent =>
      if mantissa = 0 then some false else if mantissa = 1 ∧ exponent = 0 then some true else none
  | .str s =>
      if lower s ∈ ["0", "off", "f", "false", "n", "no"] then some false
      else if lower s ∈ ["1", "on", "t", "true", "y", "yes"] then some true
      else none
  | _ => none

/-- A field declared `bool = False`. -/
def boolOrFalse : Option Value → Option Bool
  | none => some false
  | some value => boolItem value

/-- A field declared `list[str] = Field(default_factory=list)`. -/
def strListOrEmpty : Option Value → Option (List String)
  | none => some []
  | value => strList value

/-- A field declared `dict = Field(default_factory=dict)`. -/
def dictOrEmpty : Option Value → Option Fields
  | none => some []
  | some (.dict entries) => some entries
  | _ => none

end PersonalDevin
