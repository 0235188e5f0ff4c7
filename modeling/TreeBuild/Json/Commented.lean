import TreeBuild.Json.Reader
import TreeBuild.Text.Blank
import TreeBuild.Text.Scan

/-!
JSON with comments. Line comments, block comments and commas in front of a closing bracket are
taken out; what remains is read as JSON, and nothing at all counts as an object without fields.
Quoted text is passed over while comments are looked for, but not while commas are.
-/
namespace TreeBuild.Json

/-- The length of a quoted text behind its opening quote, the closing quote included. -/
def quotedLength? : List Char → Option Nat
  | [] => none
  | '"' :: _ => some 1
  | ['\\'] => none
  | '\\' :: _ :: rest => (quotedLength? rest).map (· + 2)
  | _ :: rest => (quotedLength? rest).map (· + 1)

/-- The length of a block comment behind its opening, the closing included. -/
def blockLength? : List Char → Option Nat
  | [] => none
  | '*' :: '/' :: _ => some 2
  | _ :: rest => (blockLength? rest).map (· + 1)

/-- Quoted texts, which stay, and comments, which go. -/
def commentPattern : Text.Pattern (List Char)
  | _, '"' :: rest => (quotedLength? rest).map fun length => ('"' :: rest.take length, length + 1)
  | _, '/' :: '/' :: rest => some ([], (rest.takeWhile (· ≠ '\n')).length + 2)
  | _, '/' :: '*' :: rest => (blockLength? rest).map fun length => ([], length + 2)
  | _, _ => none

/-- The text without its comments. -/
def withoutComments (text : List Char) : List Char :=
  Text.render id (Text.segments commentPattern text)

/-- A comma in front of a closing bracket, of which the blanks between them stay. -/
def trailingCommaPattern : Text.Pattern (List Char)
  | _, ',' :: rest =>
    let blanks := rest.takeWhile Text.isBlank
    match rest.dropWhile Text.isBlank with
    | ']' :: _ | '\x7d' :: _ => some (blanks, blanks.length + 1)
    | _ => none
  | _, _ => none

/-- The text without commas in front of closing brackets. -/
def withoutTrailingCommas (text : List Char) : List Char :=
  Text.render id (Text.segments trailingCommaPattern text)

/-- The value that a text with comments writes. -/
def readCommented (text : String) : Except ReadError Json :=
  let plain := withoutTrailingCommas (withoutComments text.toList)
  if plain.all Text.isBlank then .ok (.obj []) else read (String.ofList plain)

end TreeBuild.Json
