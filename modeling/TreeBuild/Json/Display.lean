import TreeBuild.Json.Basic
import TreeBuild.Number.Shortest
import TreeBuild.Text.Quoted

/-!
Values as messages show them: capitalised names for null and the truth values, quoted text inside
containers, and plain text where a text stands alone.
-/
namespace TreeBuild.Json

/-- How values are spelled in messages that are no numbers. -/
def displayNumbers : Number.SpecialNames := ⟨"inf", "nan"⟩

mutual

/-- The form of a value that shows its kind: text stands in quotes. -/
def quoted : Json → String
  | .null => "None"
  | .bool true => "True"
  | .bool false => "False"
  | .int value => toString value
  | .float value => value.text displayNumbers
  | .str units => Text.quoteCodes units.codes
  | .arr items => "[" ++ String.intercalate ", " (quotedItems items) ++ "]"
  | .obj fields => "\x7b" ++ String.intercalate ", " (quotedFields fields) ++ "\x7d"

/-- The forms of the items of a list. -/
def quotedItems : List Json → List String
  | [] => []
  | item :: rest => quoted item :: quotedItems rest

/-- The forms of the fields of an object. -/
def quotedFields : List (Text.Units × Json) → List String
  | [] => []
  | (name, value) :: rest =>
    (Text.quoteCodes name.codes ++ ": " ++ quoted value) :: quotedFields rest

end

/-- The form of a value in running text: a text as it is, all else as when quoted. -/
def display : Json → String
  | .str units => units.toStringLossy
  | value => quoted value

/-- The name of the kind of a value. -/
def kindName : Json → String
  | .null => "NoneType"
  | .bool _ => "bool"
  | .int _ => "int"
  | .float _ => "float"
  | .str _ => "str"
  | .arr _ => "list"
  | .obj _ => "dict"

end TreeBuild.Json
