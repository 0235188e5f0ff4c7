import TreeBuild.Number.Binary64
import TreeBuild.Text.Units

/-!
JSON values. Whole numbers and fractions are kept apart, text is held as UTF-16 code units, and an
object is the list of its fields in the order in which their names first appeared.
-/
namespace TreeBuild

/-- A JSON value. -/
inductive Json where
  | null
  | bool (value : Bool)
  | int (value : Int)
  | float (value : Number.Binary64)
  | str (text : Text.Units)
  | arr (items : List Json)
  | obj (fields : List (Text.Units × Json))
  deriving Repr, Inhabited

namespace Json

/-- The fields of an object. -/
abbrev Fields := List (Text.Units × Json)

/-- A text value. -/
def ofString (text : String) : Json := .str (Text.Units.ofString text)

/-- A list of text values. -/
def ofStrings (texts : List String) : Json := .arr (texts.map ofString)

/-- An object with these names and values. -/
def ofFields (fields : List (String × Json)) : Json :=
  .obj (fields.map fun field => (Text.Units.ofString field.1, field.2))

/-- A value, or null where there is none. -/
def ofOption {α : Type} (write : α → Json) : Option α → Json
  | none => .null
  | some value => write value

/-- The value stored under a name. -/
def Fields.get? (name : Text.Units) : Fields → Option Json
  | [] => none
  | (key, value) :: rest => if key = name then some value else Fields.get? name rest

/-- The value stored under a name that is given as a string. -/
def Fields.find? (fields : Fields) (name : String) : Option Json :=
  fields.get? (Text.Units.ofString name)

/-- Stores a value: a name that is present keeps its place, a new one comes last. -/
def Fields.put (name : Text.Units) (value : Json) : Fields → Fields
  | [] => [(name, value)]
  | (key, old) :: rest =>
    if key = name then (key, value) :: rest else (key, old) :: Fields.put name value rest

/-- Stores a value under a name that is given as a string. -/
def Fields.set (fields : Fields) (name : String) (value : Json) : Fields :=
  fields.put (Text.Units.ofString name) value

/-- Stores a value under a name, if there is one. -/
def Fields.setIfGiven (fields : Fields) (name : String) : Option Json → Fields
  | some value => fields.set name value
  | none => fields

/-- The fields of a list of names and values, the last value of each name at its first place. -/
def Fields.ofPairs (pairs : List (Text.Units × Json)) : Fields :=
  pairs.foldl (fun fields pair => fields.put pair.1 pair.2) []

/-- The members of a value that is read as a sequence: the items of a list, the names of an object or
the characters of a text. -/
def members? : Json → Option (List Json)
  | .arr items => some items
  | .obj fields => some (fields.map fun field => .str field.1)
  | .str units => some (units.codes.map fun code => .str (Text.unitsOfCode code))
  | _ => none

/-- Whether a value counts as given: null, false, zero and all that is empty do not. -/
def isTruthy : Json → Bool
  | .null => false
  | .bool value => value
  | .int value => value != 0
  | .float value => !value.isZero
  | .str text => !text.isEmpty
  | .arr items => !items.isEmpty
  | .obj fields => !fields.isEmpty

/-- The value unless it is null, false, zero or empty. -/
def given? (value : Json) : Option Json :=
  if value.isTruthy then some value else none

/-- A stored value is found again. -/
theorem Fields.get?_put_self (name : Text.Units) (value : Json) (fields : Fields) :
    (fields.put name value).get? name = some value := by
  induction fields with
  | nil => simp [Fields.put, Fields.get?]
  | cons field rest ih =>
    obtain ⟨key, old⟩ := field
    by_cases same : key = name <;> simp [Fields.put, Fields.get?, same, ih]

/-- Storing a value leaves the other names as they were. -/
theorem Fields.get?_put_of_ne {name other : Text.Units} (different : other ≠ name) (value : Json)
    (fields : Fields) : (fields.put name value).get? other = fields.get? other := by
  induction fields with
  | nil => simp [Fields.put, Fields.get?, Ne.symm different]
  | cons field rest ih =>
    obtain ⟨key, old⟩ := field
    by_cases same : key = name
    · subst same
      simp [Fields.put, Fields.get?, Ne.symm different]
    · by_cases found : key = other
      · subst found
        simp [Fields.put, Fields.get?, same]
      · simp [Fields.put, Fields.get?, same, found, ih]

end Json

end TreeBuild
