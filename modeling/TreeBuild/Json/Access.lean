import TreeBuild.Json.Display

/-!
Reading the parts of a value without asking first what it is. A part that is missing, or is not of
the kind that is asked for, reads as the empty value of that kind.
-/
namespace TreeBuild.Json

/-- The fields of an object. -/
def fields : Json → Fields
  | .obj fields => fields
  | _ => []

/-- The items of a list. -/
def items : Json → List Json
  | .arr items => items
  | _ => []

/-- The text of a value, if it is a text. -/
def asText? : Json → Option String
  | .str units => some units.toStringLossy
  | _ => none

/-- The whole number of a value, if it is one. -/
def asWhole? : Json → Option Int
  | .int number => some number
  | _ => none

/-- The fields of an object with their names as strings. -/
def entries (value : Json) : List (String × Json) :=
  value.fields.map fun field => (field.1.toStringLossy, field.2)

/-- Whether a value has a field. -/
def has (value : Json) (name : String) : Bool := (value.fields.find? name).isSome

/-- A field of a value. -/
def field (value : Json) (name : String) : Json := (value.fields.find? name).getD .null

/-- A field that is a text. -/
def text? (value : Json) (name : String) : Option String := (value.field name).asText?

/-- A field that is a text, or the text to use instead. -/
def text (value : Json) (name : String) (instead : String := "") : String :=
  (value.text? name).getD instead

/-- A field as running text shows it, or the text to use instead if there is no such field. -/
def shown (value : Json) (name instead : String) : String :=
  if value.has name then (value.field name).display else instead

/-- Whether a field is given and is not false, zero or empty. -/
def flag (value : Json) (name : String) : Bool := (value.field name).isTruthy

/-- The items of a field that is a list. -/
def list (value : Json) (name : String) : List Json := (value.field name).items

/-- The items of a field that is a list of texts. -/
def texts (value : Json) (name : String) : List String :=
  (value.list name).map fun item => item.asText?.getD ""

end TreeBuild.Json
