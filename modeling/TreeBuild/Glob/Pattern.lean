import TreeBuild.Text.Scan

/-!
Patterns for a single name. A star stands for any stretch, a question mark for any character, and
brackets for one character of a class, which may have ranges and may be negated. Nothing can be
escaped except by putting it in brackets.
-/
namespace TreeBuild.Glob

/-- A class of characters. -/
structure CharClass where
  negated : Bool
  /-- The members, as ranges with both ends included. -/
  ranges : List (Char × Char)
  deriving DecidableEq, Repr

/-- Whether a character belongs to a class. -/
def CharClass.accepts (group : CharClass) (c : Char) : Bool :=
  (group.ranges.any fun range => range.1 ≤ c && c ≤ range.2) != group.negated

/-- An element of a pattern. -/
inductive Atom where
  | star
  | anyChar
  | char (c : Char)
  | oneOf (group : CharClass)
  deriving DecidableEq, Repr

/-- How many characters a class spans behind its opening bracket, up to the closing one. A closing
bracket in the first place, or the first behind a negation, is a member. -/
def classLength? (text : List Char) : Option Nat :=
  let negation := if text.head? = some '!' then 1 else 0
  let start := if (text.drop negation).head? = some ']' then negation + 1 else negation
  let inner := (text.drop start).takeWhile (· ≠ ']')
  if (text.drop start).length = inner.length then none else some (start + inner.length)

/-- The first hyphen at or behind a place: what stands before it and what behind. -/
def cutHyphen? (place : Nat) (text : List Char) : Option (List Char × List Char) :=
  match (text.drop place).dropWhile (· ≠ '-') with
  | [] => none
  | _ :: behind => some (text.take place ++ (text.drop place).takeWhile (· ≠ '-'), behind)

/-- A class cut at the hyphens that make ranges. A hyphen makes no range when it is the first
member, when it directly follows the end of a range, or when nothing follows it; the fuel is the
length of the text. -/
def chunks (place : Nat) : (fuel : Nat) → List Char → List (List Char)
  | 0, text => [text]
  | fuel + 1, text =>
    match cutHyphen? place text with
    | none => [text]
    | some (before, []) => [before ++ ['-']]
    | some (before, behind) => before :: chunks 2 fuel behind

/-- Drops the ranges that run backwards, with both their ends. -/
def dropBackward : List (List Char) → List (List Char)
  | [] => []
  | chunk :: rest =>
    match dropBackward rest with
    | [] => [chunk]
    | next :: others =>
      match chunk.getLast?, next.head? with
      | some last, some first =>
        if first < last then (chunk.dropLast ++ next.tail) :: others else chunk :: next :: others
      | _, _ => chunk :: next :: others

/-- The ranges of a class that is cut at its hyphens: every character by itself, and a range across
each cut. -/
def rangesOf : List (List Char) → List (Char × Char)
  | [] => []
  | [chunk] => chunk.map fun c => (c, c)
  | chunk :: next :: rest =>
    let singles := chunk.map fun c => (c, c)
    let across :=
      match chunk.getLast?, next.head? with
      | some low, some high => [(low, high)]
      | _, _ => []
    singles ++ across ++ rangesOf (next :: rest)

/-- The class that the text between two brackets describes. An exclamation mark that comes first
once backward ranges are dropped negates it; a hyphen that then follows makes no range. -/
def classOf (text : List Char) : CharClass :=
  let place := if text.head? = some '!' then 2 else 1
  let parts := if text.contains '-' then dropBackward (chunks place text.length text) else [text]
  match parts with
  | ['!'] :: next :: rest => ⟨true, ('-', '-') :: rangesOf (next :: rest)⟩
  | ('!' :: first) :: rest => ⟨true, rangesOf (first :: rest)⟩
  | parts => ⟨false, rangesOf parts⟩

/-- The element at the start of a pattern, and its length; stars in a row are one. -/
def atomPattern : Text.Pattern Atom
  | _, '*' :: rest => some (.star, (rest.takeWhile (· = '*')).length + 1)
  | _, '?' :: _ => some (.anyChar, 1)
  | _, '[' :: rest =>
    match classLength? rest with
    | some length => some (.oneOf (classOf (rest.take length)), length + 2)
    | none => some (.char '[', 1)
  | _, c :: _ => some (.char c, 1)
  | _, [] => none

/-- The elements of a pattern. -/
def atoms (pattern : List Char) : List Atom :=
  Text.findings atomPattern pattern

/-- Whether some end of a text satisfies a test, the whole text included. -/
def someEnd (test : List Char → Bool) : List Char → Bool
  | [] => test []
  | c :: rest => test (c :: rest) || someEnd test rest

/-- Whether an element other than a star stands for a character. -/
def Atom.accepts : Atom → Char → Bool
  | .star, _ => false
  | .anyChar, _ => true
  | .char expected, c => expected == c
  | .oneOf group, c => group.accepts c

/-- Whether elements match a whole text. -/
def matchAtoms : List Atom → List Char → Bool
  | [] => List.isEmpty
  | .star :: rest => someEnd (matchAtoms rest)
  | atom :: rest => fun text =>
    match text with
    | [] => false
    | c :: others => atom.accepts c && matchAtoms rest others

/-- Whether a name matches a pattern. -/
def matchName (pattern name : String) : Bool :=
  matchAtoms (atoms pattern.toList) name.toList

/-- Whether a pattern has a character that does not stand for itself. -/
def hasMagic (pattern : String) : Bool :=
  pattern.toList.any fun c => c = '*' || c = '?' || c = '['

/-- Whether a name is hidden. -/
def isHidden (name : String) : Bool :=
  name.toList.head? = some '.'

end TreeBuild.Glob
