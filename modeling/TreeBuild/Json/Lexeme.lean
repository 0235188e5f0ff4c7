import TreeBuild.Json.Basic

/-!
The lexemes of a JSON text. Blanks separate lexemes and are dropped; the first place where no
lexeme can be read ends the sequence with a flaw, which the reader reports only when it gets there.
-/
namespace TreeBuild.Json

/-- Why a quoted text cannot be read. -/
inductive TextFlaw where
  | unterminated
  | escape
  | unicodeEscape
  | controlCharacter
  deriving DecidableEq, Repr

/-- A lexeme. -/
inductive Token where
  | openArray
  | closeArray
  | openObject
  | closeObject
  | comma
  | colon
  | text (units : Text.Units)
  /-- A number, or one of the names that stand for a value. -/
  | scalar (value : Json)
  /-- No lexeme begins here. -/
  | unknown
  /-- A text begins here that cannot be read; its flaw lies that far behind the opening quote. -/
  | brokenText (flaw : TextFlaw) (distance : Nat)
  /-- A whole number with too many digits. -/
  | hugeNumber (digits : Nat)
  deriving Repr

/-- A lexeme and the place of its first character. -/
structure Lexeme where
  token : Token
  offset : Nat
  deriving Repr

/-- The blanks between lexemes. -/
def isSpacing (c : Char) : Bool :=
  c = ' ' || c = '\t' || c = '\n' || c = '\r'

/-- The value of a hexadecimal digit. -/
def hexValue? (c : Char) : Option Nat :=
  if '0' ≤ c ∧ c ≤ '9' then some (c.toNat - '0'.toNat)
  else if 'a' ≤ c ∧ c ≤ 'f' then some (c.toNat - 'a'.toNat + 10)
  else if 'A' ≤ c ∧ c ≤ 'F' then some (c.toNat - 'A'.toNat + 10)
  else none

/-- The code unit written by four hexadecimal digits. -/
def hexUnit? (a b c d : Char) : Option UInt16 := do
  let a ← hexValue? a
  let b ← hexValue? b
  let c ← hexValue? c
  let d ← hexValue? d
  return (((a * 16 + b) * 16 + c) * 16 + d).toUInt16

/-- The character that a one-letter escape stands for. -/
def escaped? : Char → Option Char
  | '"' => some '"'
  | '\\' => some '\\'
  | '/' => some '/'
  | 'b' => some '\x08'
  | 'f' => some '\x0c'
  | 'n' => some '\n'
  | 'r' => some '\r'
  | 't' => some '\t'
  | _ => none

/-- Reads a text behind its opening quote: the units and the distance from the opening quote to
the place behind the closing one. An escape by number must not be the last thing in the input. -/
def textFrom (distance : Nat) (before : List Text.Units) :
    List Char → Except (TextFlaw × Nat) (Text.Units × Nat)
  | [] => .error (.unterminated, 0)
  | '"' :: _ => .ok (before.reverse.flatten, distance + 1)
  | ['\\'] => .error (.unterminated, 0)
  | '\\' :: 'u' :: a :: b :: c :: d :: next :: rest =>
    match hexUnit? a b c d with
    | some unit => textFrom (distance + 6) ([unit] :: before) (next :: rest)
    | none => .error (.unicodeEscape, distance + 1)
  | '\\' :: e :: rest =>
    if e = 'u' then .error (.unicodeEscape, distance + 1)
    else
      match escaped? e with
      | some c => textFrom (distance + 2) (Text.unitsOfChar c :: before) rest
      | none => .error (.escape, distance)
  | c :: rest =>
    if c.toNat < 32 then .error (.controlCharacter, distance)
    else textFrom (distance + 1) (Text.unitsOfChar c :: before) rest

/-- A run of ASCII digits and the characters behind it. -/
def digitRun (text : List Char) : List Char × List Char :=
  (text.takeWhile Char.isDigit, text.dropWhile Char.isDigit)

/-- The number that a run of ASCII digits writes. -/
def ofDigitRun (digits : List Char) : Nat :=
  digits.foldl (fun value c => 10 * value + (c.toNat - '0'.toNat)) 0

/-- The whole part of a number: a zero, or digits that do not begin with one. -/
def wholePart : List Char → List Char × List Char
  | '0' :: rest => (['0'], rest)
  | text => digitRun text

/-- The digits behind a decimal point, if there is one with digits. -/
def fractionPart : List Char → Option (List Char × List Char)
  | '.' :: rest =>
    match digitRun rest with
    | ([], _) => none
    | part => some part
  | _ => none

/-- The exponent of a number, if there is one with digits: its value, and the characters behind. -/
def exponentPart : List Char → Option (Int × List Char)
  | e :: rest =>
    if e = 'e' ∨ e = 'E' then
      let (negative, rest) :=
        match rest with
        | '-' :: rest => (true, rest)
        | '+' :: rest => (false, rest)
        | rest => (false, rest)
      match digitRun rest with
      | ([], _) => none
      | (digits, rest) =>
        let magnitude : Int := ofDigitRun digits
        some (if negative then -magnitude else magnitude, rest)
    else none
  | [] => none

/-- The greatest count of digits in a whole number. -/
def maxDigits : Nat := 4300

/-- The number at the start of a text, behind its sign, and the characters behind it. -/
def numberFrom (negative : Bool) (text : List Char) : Option (Token × List Char) :=
  match wholePart text with
  | ([], _) => none
  | (whole, rest) =>
    let fraction := fractionPart rest
    let (places, rest) := fraction.getD ([], rest)
    let exponent := exponentPart rest
    let (power, rest) := exponent.getD (0, rest)
    if fraction.isNone && exponent.isNone then
      if maxDigits < whole.length then some (.hugeNumber whole.length, rest)
      else
        let magnitude : Int := ofDigitRun whole
        some (.scalar (.int (if negative then -magnitude else magnitude)), rest)
    else
      let value := Number.Binary64.ofDecimal negative (ofDigitRun (whole ++ places))
        (power - places.length)
      some (.scalar (.float value), rest)

/-- The names that stand for a value. -/
def words : List (List Char × Json) :=
  [("null".toList, .null), ("true".toList, .bool true), ("false".toList, .bool false),
   ("NaN".toList, .float .nan), ("Infinity".toList, .float (.infinity false)),
   ("-Infinity".toList, .float (.infinity true))]

/-- The lexeme at the start of a text that does not begin with a blank, and its length. -/
def tokenAt : List Char → Token × Nat
  | '[' :: _ => (.openArray, 1)
  | ']' :: _ => (.closeArray, 1)
  | '\x7b' :: _ => (.openObject, 1)
  | '\x7d' :: _ => (.closeObject, 1)
  | ',' :: _ => (.comma, 1)
  | ':' :: _ => (.colon, 1)
  | '"' :: rest =>
    match textFrom 1 [] rest with
    | .ok (units, length) => (.text units, length)
    | .error (flaw, distance) => (.brokenText flaw distance, 1)
  | text =>
    match words.find? fun word => word.1.isPrefixOf text with
    | some (word, value) => (.scalar value, word.length)
    | none =>
      let (negative, body) :=
        match text with
        | '-' :: rest => (true, rest)
        | rest => (false, rest)
      match numberFrom negative body with
      | some (token, rest) => (token, text.length - rest.length)
      | none => (.unknown, 1)

/-- Whether reading can go on behind a lexeme. -/
def Token.isSound : Token → Bool
  | .unknown | .brokenText _ _ | .hugeNumber _ => false
  | _ => true

/-- The lexemes of a text that begins at `offset`, of which `skip` characters belong to the lexeme
before. -/
def lexemesFrom (offset : Nat) : (skip : Nat) → List Char → List Lexeme
  | _, [] => []
  | skip + 1, _ :: rest => lexemesFrom (offset + 1) skip rest
  | 0, c :: rest =>
    if isSpacing c then lexemesFrom (offset + 1) 0 rest
    else
      let (token, length) := tokenAt (c :: rest)
      if token.isSound then ⟨token, offset⟩ :: lexemesFrom (offset + 1) (length - 1) rest
      else [⟨token, offset⟩]

/-- The lexemes of a text. -/
def lexemes (text : List Char) : List Lexeme :=
  lexemesFrom 0 0 text

end TreeBuild.Json
