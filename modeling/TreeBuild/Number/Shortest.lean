import TreeBuild.Number.Binary64

/-!
The shortest decimal of a binary64 value: among the decimals with the fewest digits that round to
the value, the one nearest to it. On each decimal grid only the two neighbours of the value can be
wanted, so one looks at these for one digit, two digits and so on.
-/
namespace TreeBuild.Number

/-- A decimal `digits * 10 ^ power`. -/
structure Decimal where
  digits : Nat
  power : Int
  deriving DecidableEq, Repr

namespace Decimal

/-- The decimal without zeros at its end; the fuel bounds how many there can be. -/
def stripped : Nat → Decimal → Decimal
  | 0, d => d
  | fuel + 1, d =>
    if d.digits ≠ 0 ∧ d.digits % 10 = 0 then stripped fuel ⟨d.digits / 10, d.power + 1⟩ else d

/-- How many times ten goes into the ratio: the `k` with `10 ^ k ≤ num / den < 10 ^ (k + 1)`. -/
def orderOf (num den : Nat) : Int :=
  if den ≤ num then ((Nat.toDigits 10 (num / den)).length : Int) - 1
  else
    match (List.range 400).find? fun k => den ≤ num * Nat.pow 10 k with
    | some k => -(k : Int)
    | none => -400

/-- Whether the decimal, when read, rounds to the value with this significand and exponent. -/
def roundsTo (candidate : Decimal) (significand : Nat) (exponent : Int) : Bool :=
  Binary64.ofDecimal false candidate.digits candidate.power = .finite false significand exponent

/-- The two neighbours of `num / den` on the grid of the multiples of `10 ^ power`, the nearer one
first. -/
def neighbours (num den : Nat) (power : Int) : List Decimal :=
  let (top, bottom) := Binary64.overPower 10 num den power
  let below := top / bottom
  if 2 * (top % bottom) ≤ bottom then [⟨below, power⟩, ⟨below + 1, power⟩]
  else [⟨below + 1, power⟩, ⟨below, power⟩]

/-- The value itself, digit by digit. -/
def exact (significand : Nat) (exponent : Int) : Decimal :=
  if 0 ≤ exponent then ⟨significand * Nat.pow 2 exponent.toNat, 0⟩
  else ⟨significand * Nat.pow 5 (-exponent).toNat, exponent⟩

/-- The shortest decimal that rounds to `significand * 2 ^ exponent`, the nearest of those. -/
def shortest (significand : Nat) (exponent : Int) : Decimal :=
  let (num, den) :=
    if 0 ≤ exponent then (significand * Nat.pow 2 exponent.toNat, 1)
    else (significand, Nat.pow 2 (-exponent).toNat)
  let order := orderOf num den
  let found := (List.range 17).findSome? fun (places : Nat) =>
    (neighbours num den (order - (places : Int))).find? fun candidate =>
      candidate.roundsTo significand exponent
  stripped 400 (found.getD (exact significand exponent))

end Decimal

/-- How a number is written: positionally while the decimal point falls into this range, counted
from the first digit, and with an exponent of at least two digits otherwise. -/
structure NumeralStyle where
  /-- The least position of the point that is written positionally. -/
  leastPoint : Int
  /-- The greatest position of the point that is written positionally. -/
  greatestPoint : Int

/-- Numbers from 0.0001 up to below ten to the sixteenth are written positionally. -/
def plainNumerals : NumeralStyle := ⟨-3, 16⟩

/-- The numeral of a decimal; a whole number keeps one zero after the point. -/
def NumeralStyle.numeral (style : NumeralStyle) (d : Decimal) : String :=
  let digits := Nat.toDigits 10 d.digits
  let point : Int := digits.length + d.power
  let zeros (count : Int) := List.replicate count.toNat '0'
  if style.leastPoint ≤ point ∧ point ≤ style.greatestPoint then
    if point ≤ 0 then String.ofList ("0.".toList ++ zeros (-point) ++ digits)
    else if (digits.length : Int) ≤ point then
      String.ofList (digits ++ zeros (point - digits.length) ++ ".0".toList)
    else String.ofList (digits.take point.toNat ++ ['.'] ++ digits.drop point.toNat)
  else
    let exponent := point - 1
    let magnitude := Nat.toDigits 10 exponent.natAbs
    let mantissa := match digits with
      | [] => []
      | [single] => [single]
      | first :: others => first :: '.' :: others
    String.ofList (mantissa ++ ['e', if exponent < 0 then '-' else '+']
      ++ List.replicate (2 - magnitude.length) '0' ++ magnitude)

/-- The texts of the values that are no numbers. -/
structure SpecialNames where
  infinity : String
  nan : String

/-- The text of a value: its shortest decimal, with a sign for negative values and zeros. -/
def Binary64.text (names : SpecialNames) : Binary64 → String
  | .nan => names.nan
  | .infinity negative => (if negative then "-" else "") ++ names.infinity
  | .finite negative significand exponent =>
    let body := if significand = 0 then "0.0"
      else plainNumerals.numeral (Decimal.shortest significand exponent)
    (if negative then "-" else "") ++ body

end TreeBuild.Number
