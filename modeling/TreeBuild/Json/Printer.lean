import TreeBuild.Json.Basic
import TreeBuild.Number.Shortest
import TreeBuild.Text.Basic

/-!
Writing JSON: on one line, or indented with each member on a line of its own. Only printable ASCII
is written as it is; every other code unit is an escape. Each form is put in front of the text that
follows it, so that nothing is copied at every level of nesting.
-/
namespace TreeBuild.Json

/-- The form of one code unit inside a quoted text. -/
def writeUnit (unit : UInt16) : List Char :=
  let code := unit.toNat
  if code = 34 then ['\\', '"']
  else if code = 92 then ['\\', '\\']
  else if code = 10 then ['\\', 'n']
  else if code = 13 then ['\\', 'r']
  else if code = 9 then ['\\', 't']
  else if code = 12 then ['\\', 'f']
  else if code = 8 then ['\\', 'b']
  else if 32 ≤ code ∧ code < 127 then [Char.ofNat code]
  else '\\' :: 'u' :: (Text.hex 4 code).toList

/-- A quoted text. -/
def writeText (units : Text.Units) : List Char :=
  '"' :: units.flatMap writeUnit ++ ['"']

/-- How values are spelled that are no numbers. -/
def specialNumbers : Number.SpecialNames := ⟨"Infinity", "NaN"⟩

/-- The form of a value that has no members. -/
def writeScalar : Json → List Char
  | .null => "null".toList
  | .bool true => "true".toList
  | .bool false => "false".toList
  | .int value => (toString value).toList
  | .float value => (value.text specialNumbers).toList
  | .str units => writeText units
  | .arr _ => ['[', ']']
  | .obj _ => ['\x7b', '\x7d']

/-- What stands in front of a member on one line: nothing before the first one. -/
def separator (first : Bool) : List Char :=
  if first then [] else [',', ' ']

mutual

/-- The form of a value on one line, with `rest` behind it. -/
def writeLine : Json → (rest : List Char) → List Char
  | .arr items, rest => '[' :: writeLineItems true items (']' :: rest)
  | .obj fields, rest => '\x7b' :: writeLineFields true fields ('\x7d' :: rest)
  | value, rest => writeScalar value ++ rest

/-- The forms of the items of an array. -/
def writeLineItems (first : Bool) : List Json → (rest : List Char) → List Char
  | [], rest => rest
  | item :: others, rest => separator first ++ writeLine item (writeLineItems false others rest)

/-- The forms of the fields of an object. -/
def writeLineFields (first : Bool) : List (Text.Units × Json) → (rest : List Char) → List Char
  | [], rest => rest
  | (name, value) :: others, rest =>
    separator first ++ writeText name ++ ':' :: ' '
      :: writeLine value (writeLineFields false others rest)

end

/-- A line end and the indentation of a nesting depth, two blanks a level. -/
def newline (depth : Nat) : List Char :=
  '\n' :: List.replicate (2 * depth) ' '

/-- What stands in front of a member on a line of its own, at the depth of the members. -/
def lineStart (first : Bool) (depth : Nat) : List Char :=
  if first then newline depth else ',' :: newline depth

mutual

/-- The indented form of a value at some depth, with `rest` behind it. Members stand one level
deeper than the brackets around them. -/
def writeIndented (depth : Nat) : Json → (rest : List Char) → List Char
  | .arr (item :: others), rest =>
    '[' :: writeIndentedItems true (depth + 1) (item :: others) (newline depth ++ ']' :: rest)
  | .obj (field :: others), rest =>
    '\x7b' :: writeIndentedFields true (depth + 1) (field :: others)
      (newline depth ++ '\x7d' :: rest)
  | value, rest => writeScalar value ++ rest

/-- The forms of the items of an array. -/
def writeIndentedItems (first : Bool) (depth : Nat) : List Json → (rest : List Char) → List Char
  | [], rest => rest
  | item :: others, rest =>
    lineStart first depth
      ++ writeIndented depth item (writeIndentedItems false depth others rest)

/-- The forms of the fields of an object. -/
def writeIndentedFields (first : Bool) (depth : Nat) :
    List (Text.Units × Json) → (rest : List Char) → List Char
  | [], rest => rest
  | (name, value) :: others, rest =>
    lineStart first depth ++ writeText name ++ ':' :: ' '
      :: writeIndented depth value (writeIndentedFields false depth others rest)

end

/-- The text of a value on one line. -/
def compact (value : Json) : String := String.ofList (writeLine value [])

/-- The indented text of a value. -/
def pretty (value : Json) : String := String.ofList (writeIndented 0 value [])

end TreeBuild.Json
