import TreeBuild.Json.Printer

/-!
Dictionaries whose keys are values without members. Keys are told apart by what they denote: the
truth values are the numbers zero and one, and a number is the same whether or not it is written as
a fraction. When a dictionary is written as an object every key becomes text, so that two of its
fields can have one name.
-/
namespace TreeBuild.Json

/-- What a key denotes. -/
inductive Key where
  | null
  | whole (value : Int)
  /-- A number that is not whole, or none at all. -/
  | fraction (value : Number.Binary64)
  | text (units : Text.Units)
  deriving DecidableEq, Repr

/-- The key that a value makes, if it has no members. -/
def Key.ofJson? : Json → Option Key
  | .null => some .null
  | .bool value => some (.whole (if value then 1 else 0))
  | .int value => some (.whole value)
  | .float value =>
    match value.toInt? with
    | some number => some (.whole number)
    | none => some (.fraction value)
  | .str units => some (.text units)
  | .arr _ | .obj _ => none

/-- A value stored under a key, which keeps the form that it had first. -/
structure Binding where
  key : Key
  name : Text.Units
  value : Json
  deriving Repr

/-- A dictionary, in the order in which its keys first appeared. -/
abbrev Dictionary := List Binding

/-- The name that a value has as the key of a field. -/
def nameOf : Json → Text.Units
  | .str units => units
  | value => Text.Units.ofString value.compact

namespace Dictionary

/-- Stores a binding: a key that is present keeps its place and its name, a new one comes last. -/
def put (new : Binding) : Dictionary → Dictionary
  | [] => [new]
  | old :: rest =>
    if old.key = new.key then { old with value := new.value } :: rest else old :: put new rest

/-- The value stored under a name. -/
def find? (dictionary : Dictionary) (name : String) : Option Json :=
  (List.find? (fun binding : Binding => binding.key = .text (Text.Units.ofString name))
    dictionary).map Binding.value

/-- Stores a value under a name. -/
def set (dictionary : Dictionary) (name : String) (value : Json) : Dictionary :=
  let units := Text.Units.ofString name
  dictionary.put { key := .text units, name := units, value }

/-- Stores a value under a name, if there is one. -/
def setIfGiven (dictionary : Dictionary) (name : String) : Option Json → Dictionary
  | some value => dictionary.set name value
  | none => dictionary

/-- The dictionary that an object is. -/
def ofFields (fields : Fields) : Dictionary :=
  fields.map fun field => { key := .text field.1, name := field.1, value := field.2 }

/-- The fields that a dictionary is written as. -/
def toFields (dictionary : Dictionary) : Fields :=
  dictionary.map fun binding => (binding.name, binding.value)

/-- An object comes back as it was. -/
theorem toFields_ofFields (fields : Fields) : (ofFields fields).toFields = fields := by
  simp [ofFields, toFields, Function.comp_def]

/-- Storing a value in an object stores it under the same name. -/
theorem set_ofFields (fields : Fields) (name : String) (value : Json) :
    (ofFields fields).set name value = ofFields (fields.set name value) := by
  induction fields with
  | nil => rfl
  | cons field rest ih =>
    obtain ⟨key, old⟩ := field
    by_cases same : key = Text.Units.ofString name
    · simp [ofFields, set, put, Fields.set, Fields.put, same]
    · simpa [ofFields, set, put, Fields.set, Fields.put, same] using ih

end Dictionary

end TreeBuild.Json
