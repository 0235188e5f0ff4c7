/-!
Binary floating-point numbers of 64 bits, held exactly: a sign, a significand below 2^53 and a
power of two. Decimal numerals are rounded to the nearest such number, a tie to the even
significand. All of it is exact arithmetic on naturals, so nothing depends on the machine.
-/
namespace TreeBuild.Number

/-- A binary64 value. A finite one is `± significand * 2 ^ exponent`. -/
inductive Binary64 where
  | finite (negative : Bool) (significand : Nat) (exponent : Int)
  | infinity (negative : Bool)
  | nan
  deriving DecidableEq, Repr

namespace Binary64

/-- The least exponent of a finite value. -/
def minExponent : Int := -1074

/-- The greatest exponent of a finite value. -/
def maxExponent : Int := 971

/-- The quotient rounded to the nearest natural, a tie to the even one. -/
def divNearestEven (num den : Nat) : Nat :=
  let quotient := num / den
  let twice := 2 * (num % den)
  if twice < den then quotient
  else if den < twice then quotient + 1
  else if quotient % 2 = 0 then quotient
  else quotient + 1

/-- Numerator and denominator of `num / den` over `base ^ power`. -/
def overPower (base num den : Nat) (power : Int) : Nat × Nat :=
  if 0 ≤ power then (num, den * Nat.pow base power.toNat)
  else (num * Nat.pow base (-power).toNat, den)

/-- The binary exponent at which `num / den` has a significand of 53 bits, or the least exponent
where that lies below it. -/
def exponentOf (num den : Nat) : Int :=
  let guess : Int := (num.log2 : Int) - (den.log2 : Int) - 52
  let (top, bottom) := overPower 2 num den guess
  max minExponent (if top / bottom < Nat.pow 2 52 then guess - 1 else guess)

/-- The value nearest to the positive ratio `num / den`. -/
def ofRatio (negative : Bool) (num den : Nat) : Binary64 :=
  if num = 0 then .finite negative 0 minExponent
  else
    let exponent := exponentOf num den
    let (top, bottom) := overPower 2 num den exponent
    let rounded := divNearestEven top bottom
    let (significand, exponent) :=
      if rounded = Nat.pow 2 53 then (Nat.pow 2 52, exponent + 1) else (rounded, exponent)
    if maxExponent < exponent then .infinity negative else .finite negative significand exponent

/-- The value nearest to `± digits * 10 ^ power`. A numeral far outside the range is decided by
its order of magnitude alone, so a huge exponent costs nothing. -/
def ofDecimal (negative : Bool) (digits : Nat) (power : Int) : Binary64 :=
  if digits = 0 then .finite negative 0 minExponent
  else
    let magnitude : Int := power + (Nat.toDigits 10 digits).length
    if 400 < magnitude then .infinity negative
    else if magnitude < -400 then .finite negative 0 minExponent
    else
      let (num, den) := if 0 ≤ power then (digits * Nat.pow 10 power.toNat, 1)
        else (digits, Nat.pow 10 (-power).toNat)
      ofRatio negative num den

/-- The integer that remains of a finite value when its fraction is dropped. -/
def truncate? : Binary64 → Option Int
  | .finite negative significand exponent =>
    let magnitude : Nat :=
      if 0 ≤ exponent then significand * Nat.pow 2 exponent.toNat
      else significand / Nat.pow 2 (-exponent).toNat
    some (if negative then -(magnitude : Int) else magnitude)
  | _ => none

/-- Whether a value is one of the two zeros. -/
def isZero : Binary64 → Bool
  | .finite _ significand _ => significand == 0
  | _ => false

/-- The value as an integer, if it is one. -/
def toInt? : Binary64 → Option Int
  | value@(.finite _ significand exponent) =>
    if 0 ≤ exponent ∨ significand % Nat.pow 2 (-exponent).toNat = 0 then value.truncate? else none
  | _ => none

end Binary64

end TreeBuild.Number
