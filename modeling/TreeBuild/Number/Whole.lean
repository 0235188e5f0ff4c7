import TreeBuild.Text.Blank
import TreeBuild.Text.Digit
import TreeBuild.Text.Basic

/-!
Whole numbers as people write them: decimal digits of any script with single underscores between
them, a sign, and blanks around. The separator controls, though blanks elsewhere, are not allowed.
-/
namespace TreeBuild.Number

/-- The blanks that may surround a whole number. -/
def isMargin (c : Char) : Bool :=
  Text.isBlank c && !(28 ≤ c.toNat && c.toNat ≤ 31)

/-- The values of digits with single underscores between them. -/
def groupedDigits? : List Char → Option (List Nat)
  | [] => none
  | [c] => (Text.digitValue? c).map ([·])
  | c :: '_' :: rest => do
    let digit ← Text.digitValue? c
    let digits ← groupedDigits? rest
    return digit :: digits
  | c :: rest => do
    let digit ← Text.digitValue? c
    let digits ← groupedDigits? rest
    return digit :: digits

/-- The number of a sequence of digits, first digit first. -/
def ofDigits (digits : List Nat) : Nat :=
  digits.foldl (fun value digit => 10 * value + digit) 0

/-- The greatest count of digits that is read. -/
def maxDigits : Nat := 4300

/-- The sign of a number, if it is written, and what follows it. -/
def signed : List Char → Bool × List Char
  | '-' :: rest => (true, rest)
  | '+' :: rest => (false, rest)
  | text => (false, text)

/-- The whole number that a text writes. -/
def whole? (text : String) : Option Int := do
  let (negative, rest) := signed (Text.trim isMargin text.toList)
  let digits ← groupedDigits? rest
  if maxDigits < digits.length then none
  else
    let magnitude : Int := ofDigits digits
    return if negative then -magnitude else magnitude

end TreeBuild.Number
