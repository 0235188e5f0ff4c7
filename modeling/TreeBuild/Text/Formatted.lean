import TreeBuild.Text.Basic
import TreeBuild.Text.Scan
import TreeBuild.Text.Utf8

/-!
Text from a format and words. A directive takes one word, and a word that is missing is empty; as
long as words are left over the format is used again. Escapes stand for single bytes, so that what is
written need not be text.
-/
namespace TreeBuild.Text.Formatted

/-- What a directive makes of its word. -/
inductive Conversion where
  /-- The word as it is, or no more than its first characters. -/
  | text
  /-- The word with its escapes read. -/
  | escaped
  /-- The first character. -/
  | char
  /-- The whole number that the word writes. -/
  | number
  deriving DecidableEq, Repr

/-- A part of a format. -/
inductive Directive where
  | bytes (value : Bytes)
  | convert (conversion : Conversion) (left zeros : Bool) (width : Nat) (precision : Option Nat)
  deriving Repr

/-- The bytes that characters after a backslash stand for. -/
def escapes : List (Char × UInt8) :=
  [('\\', 92), ('"', 34), ('\'', 39), ('a', 7), ('b', 8), ('f', 12), ('n', 10), ('r', 13),
   ('t', 9), ('v', 11)]

/-- Whether a character is a digit in base eight. -/
def isOctal (c : Char) : Bool := '0' ≤ c && c ≤ '7'

/-- The number that digits write. -/
def numberOf (base : Nat) (digits : List Char) : Nat :=
  digits.foldl (fun number c => number * base + (c.toNat - '0'.toNat)) 0

/-- The bytes of an escape behind its backslash, and how many characters it has there. -/
def escape? : List Char → Option (Bytes × Nat)
  | [] => none
  | c :: rest =>
    match escapes.lookup c with
    | some byte => some ([byte], 1)
    | none =>
      let digits := ((c :: rest).take 3).takeWhile isOctal
      if digits.isEmpty then none else some ([(numberOf 8 digits).toUInt8], digits.length)

/-- The conversions by their letters. -/
def conversions : List (Char × Conversion) :=
  [('s', .text), ('b', .escaped), ('c', .char), ('d', .number), ('i', .number), ('u', .number)]

/-- A directive behind its percent sign, and how many characters it has there. -/
def directive? (text : List Char) : Option (Directive × Nat) :=
  let flags := text.takeWhile fun c => c = '-' || c = '0' || c = '+' || c = ' '
  let afterFlags := text.drop flags.length
  let width := afterFlags.takeWhile Char.isDigit
  let afterWidth := afterFlags.drop width.length
  let precision := match afterWidth with
    | '.' :: rest => some (rest.takeWhile Char.isDigit)
    | _ => none
  let point := precision.elim 0 (·.length + 1)
  match afterWidth.drop point with
  | '%' :: _ => some (.bytes [37], flags.length + width.length + point + 1)
  | c :: _ =>
    (conversions.lookup c).map fun conversion =>
      (.convert conversion (flags.contains '-') (flags.contains '0') (numberOf 10 width)
        (precision.map (numberOf 10)), flags.length + width.length + point + 1)
  | [] => none

/-- The directives and escapes of a format. -/
def pattern : Pattern Directive
  | _, '%' :: rest => (directive? rest).map fun found => (found.1, found.2 + 1)
  | _, '\\' :: rest => (escape? rest).map fun found => (.bytes found.1, found.2 + 1)
  | _, _ => none

/-- The escapes of a word, of which those in base eight begin with a zero. -/
def wordPattern : Pattern Bytes
  | _, '\\' :: '0' :: rest =>
    let digits := (rest.take 3).takeWhile isOctal
    some ([(numberOf 8 digits).toUInt8], digits.length + 2)
  | _, '\\' :: rest => (escape? rest).map fun found => (found.1, found.2 + 1)
  | _, _ => none

/-- A word with its escapes read. -/
def unescape (word : String) : Bytes :=
  (segments wordPattern word.toList).flatMap fun segment =>
    match segment with
    | .char c => Utf8.encode (String.singleton c)
    | .found bytes => bytes

/-- The text of a whole number that a word begins with. -/
def numeral (word : String) : List Char :=
  let chars := word.toList.dropWhile (· = ' ')
  let (sign, digits) := match chars with
    | '-' :: rest => (['-'], rest)
    | '+' :: rest => ([], rest)
    | rest => ([], rest)
  let digits := (digits.takeWhile Char.isDigit).dropWhile (· = '0')
  if digits.isEmpty then ['0'] else sign ++ digits

/-- Text filled up to a width. -/
def pad (left zeros : Bool) (width : Nat) (text : List Char) : List Char :=
  let count := width - text.length
  if left then text ++ List.replicate count ' '
  else if zeros then
    match text with
    | '-' :: digits => '-' :: List.replicate count '0' ++ digits
    | digits => List.replicate count '0' ++ digits
  else List.replicate count ' ' ++ text

/-- What a directive with its word is written as. -/
def Directive.write (word : String) : Directive → Bytes
  | .bytes value => value
  | .convert .escaped _ _ _ _ => unescape word
  | .convert .number left zeros width _ =>
    Utf8.encode (String.ofList (pad left (zeros && !left) width (numeral word)))
  | .convert .char left _ width _ =>
    Utf8.encode (String.ofList (pad left false width (word.toList.take 1)))
  | .convert .text left _ width precision =>
    let shown := precision.elim word.toList word.toList.take
    Utf8.encode (String.ofList (pad left false width shown))

/-- One use of a format: what is written, and the words that are left. -/
def writeOnce (format : List (Segment Directive)) (words : List String) : Bytes × List String :=
  format.foldl (fun (written, words) segment =>
    match segment with
    | .char c => (written ++ Utf8.encode (String.singleton c), words)
    | .found (.bytes value) => (written ++ value, words)
    | .found directive => (written ++ directive.write (words.headD ""), words.tail)) ([], words)

/-- The uses of a format until no words are left. Each use but the last takes a word, so the number of
words is enough fuel. -/
def writeAll (format : List (Segment Directive)) : (fuel : Nat) → List String → Bytes
  | 0, words => (writeOnce format words).1
  | fuel + 1, words =>
    let (written, left) := writeOnce format words
    if left.isEmpty || left.length = words.length then written
    else written ++ writeAll format fuel left

/-- What a format and words are written as. -/
def write (format : String) (words : List String) : Bytes :=
  writeAll (segments pattern format.toList) words.length words

end TreeBuild.Text.Formatted
