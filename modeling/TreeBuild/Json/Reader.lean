import TreeBuild.Json.Lexeme

/-!
Reading JSON. The reader is a pushdown machine over lexemes: it knows what it expects next and
which containers are open, and takes one step for each lexeme. The first lexeme that does not fit
decides the error.
-/
namespace TreeBuild.Json

/-- Why a text is not JSON. -/
inductive Malformed where
  | valueExpected
  | nameExpected
  | colonExpected
  | commaExpected
  | extraData
  | byteOrderMark
  | text (flaw : TextFlaw)
  deriving DecidableEq, Repr

/-- What is wrong, in words. -/
def Malformed.words : Malformed → String
  | .valueExpected => "Expecting value"
  | .nameExpected => "Expecting property name enclosed in double quotes"
  | .colonExpected => "Expecting ':' delimiter"
  | .commaExpected => "Expecting ',' delimiter"
  | .extraData => "Extra data"
  | .byteOrderMark => "Unexpected UTF-8 BOM (decode using utf-8-sig)"
  | .text .unterminated => "Unterminated string starting at"
  | .text .escape => "Invalid \\escape"
  | .text .unicodeEscape => "Invalid \\uXXXX escape"
  | .text .controlCharacter => "Invalid control character at"

/-- The two kinds of containers. -/
inductive Container where
  | array
  | object
  deriving DecidableEq, Repr

/-- The name of a kind of containers. -/
def Container.name : Container → String
  | .array => "array"
  | .object => "object"

/-- How many containers may be open at once. -/
def maxDepth : Nat := 990

/-- The error of a reading. -/
inductive ReadError where
  /-- The text is not JSON, which shows at this line, column and offset. -/
  | malformed (cause : Malformed) (line column offset : Nat)
  /-- A whole number has too many digits. -/
  | hugeNumber (digits : Nat)
  /-- A container begins when as many are open as may be. -/
  | tooDeep (container : Container)
  deriving DecidableEq, Repr

/-- The message of a failed reading. -/
def ReadError.message : ReadError → String
  | .malformed cause line column offset =>
    cause.words ++ s!": line {line} column {column} (char {offset})"
  | .hugeNumber digits =>
    s!"Exceeds the limit ({maxDigits} digits) for integer string conversion: value has {digits}"
      ++ " digits; use sys.set_int_max_str_digits() to increase the limit"
  | .tooDeep container =>
    s!"maximum recursion depth exceeded while decoding a JSON {container.name} from a unicode string"

/-- A container that is open. -/
inductive Frame where
  /-- An array with these items, last first. -/
  | array (before : List Json)
  /-- An object with these fields, waiting for a name. -/
  | object (before : Fields)
  /-- An object with these fields, waiting for the value of a name. -/
  | named (before : Fields) (name : Text.Units)
  deriving Repr

/-- What the reader expects next. -/
inductive Expecting where
  | value
  /-- The first item of an array, or its end. -/
  | itemOrEnd
  /-- The first name of an object, or its end. -/
  | nameOrEnd
  | name
  | colon (name : Text.Units)
  /-- What follows a complete value. -/
  | after (value : Json)
  deriving Repr

/-- The state of the reader. -/
structure State where
  expecting : Expecting
  frames : List Frame
  deriving Repr

/-- An error and its offset, before lines are counted. -/
inductive Stop where
  | malformed (cause : Malformed) (offset : Nat)
  | hugeNumber (digits : Nat)
  | tooDeep (container : Container)
  deriving Repr

/-- Whether one more container may be opened within these. -/
def hasRoom (frames : List Frame) : Bool := frames.length < maxDepth

/-- The step of a reader that expects a value. -/
def stepValue (frames : List Frame) (lexeme : Lexeme) : Except Stop State :=
  match lexeme.token with
  | .openArray =>
    if hasRoom frames then .ok ⟨.itemOrEnd, .array [] :: frames⟩ else .error (.tooDeep .array)
  | .openObject =>
    if hasRoom frames then .ok ⟨.nameOrEnd, .object [] :: frames⟩ else .error (.tooDeep .object)
  | .text units => .ok ⟨.after (.str units), frames⟩
  | .scalar value => .ok ⟨.after value, frames⟩
  | .brokenText flaw distance => .error (.malformed (.text flaw) (lexeme.offset + distance))
  | .hugeNumber digits => .error (.hugeNumber digits)
  | _ => .error (.malformed .valueExpected lexeme.offset)

/-- The step of a reader that expects a name. -/
def stepName (frames : List Frame) (lexeme : Lexeme) : Except Stop State :=
  match lexeme.token with
  | .text units => .ok ⟨.colon units, frames⟩
  | .brokenText flaw distance => .error (.malformed (.text flaw) (lexeme.offset + distance))
  | _ => .error (.malformed .nameExpected lexeme.offset)

/-- The step of a reader behind a complete value. -/
def stepAfter (value : Json) (frames : List Frame) (lexeme : Lexeme) : Except Stop State :=
  match frames, lexeme.token with
  | [], _ => .error (.malformed .extraData lexeme.offset)
  | .array before :: outer, .comma => .ok ⟨.value, .array (value :: before) :: outer⟩
  | .array before :: outer, .closeArray => .ok ⟨.after (.arr (value :: before).reverse), outer⟩
  | .named before name :: outer, .comma => .ok ⟨.name, .object (before.put name value) :: outer⟩
  | .named before name :: outer, .closeObject =>
    .ok ⟨.after (.obj (before.put name value)), outer⟩
  | _, _ => .error (.malformed .commaExpected lexeme.offset)

/-- One step of the reader. -/
def step (state : State) (lexeme : Lexeme) : Except Stop State :=
  match state.expecting, state.frames, lexeme.token with
  | .itemOrEnd, .array _ :: outer, .closeArray => .ok ⟨.after (.arr []), outer⟩
  | .nameOrEnd, .object _ :: outer, .closeObject => .ok ⟨.after (.obj []), outer⟩
  | .colon name, .object before :: outer, .colon => .ok ⟨.value, .named before name :: outer⟩
  | .colon _, _, _ => .error (.malformed .colonExpected lexeme.offset)
  | .value, frames, _ => stepValue frames lexeme
  | .itemOrEnd, frames, _ => stepValue frames lexeme
  | .name, frames, _ => stepName frames lexeme
  | .nameOrEnd, frames, _ => stepName frames lexeme
  | .after value, frames, _ => stepAfter value frames lexeme

/-- The outcome when the text ends, at offset `length`. -/
def finish (length : Nat) (state : State) : Except Stop Json :=
  match state.expecting, state.frames with
  | .after value, [] => .ok value
  | .after _, _ => .error (.malformed .commaExpected length)
  | .value, _ | .itemOrEnd, _ => .error (.malformed .valueExpected length)
  | .name, _ | .nameOrEnd, _ => .error (.malformed .nameExpected length)
  | .colon _, _ => .error (.malformed .colonExpected length)

/-- The reading of lexemes from a state on. -/
def readFrom (length : Nat) : State → List Lexeme → Except Stop Json
  | state, [] => finish length state
  | state, lexeme :: rest =>
    match step state lexeme with
    | .ok next => readFrom length next rest
    | .error stop => .error stop

/-- The reading of a text up to its first error. -/
def readLexemes (text : List Char) : Except Stop Json :=
  readFrom text.length ⟨.value, []⟩ (lexemes text)

/-- The line and column of an offset, both counted from one. -/
def lineAndColumn (text : List Char) (offset : Nat) : Nat × Nat :=
  let before := text.take offset
  (before.count '\n' + 1, (before.reverse.takeWhile (· ≠ '\n')).length + 1)

/-- The error that a stop at some place of the text amounts to. -/
def Stop.toError (text : List Char) : Stop → ReadError
  | .malformed cause offset =>
    let (line, column) := lineAndColumn text offset
    .malformed cause line column offset
  | .hugeNumber digits => .hugeNumber digits
  | .tooDeep container => .tooDeep container

/-- The value that a text writes. A byte order mark is not skipped. -/
def read (text : String) : Except ReadError Json :=
  let chars := text.toList
  if chars.head? = some (Char.ofNat 0xFEFF) then .error (.malformed .byteOrderMark 1 1 0)
  else (readLexemes chars).mapError (Stop.toError chars)

end TreeBuild.Json
