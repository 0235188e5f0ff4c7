import TreeBuild.Text.Utf8

/-!
Bytes as text of 64 signs. Three bytes are four signs of six bits each; a shorter rest is filled up
with zero bits, and its text with padding. Reading skips whatever is no sign.
-/
namespace TreeBuild.Text.Base64

/-- The signs, in the order of their values. -/
def signs : List Char :=
  "ABCDEFGHIJKLMNOPQRSTUVWXYZabcdefghijklmnopqrstuvwxyz0123456789+/".toList

/-- The sign of a value below 64. -/
def sign (value : Nat) : Char := signs.getD value '='

/-- The value of a sign. -/
def value? (c : Char) : Option Nat :=
  if signs.contains c then some (signs.idxOf c) else none

/-- The signs of a list of bytes. -/
def encodeBytes : List Nat → List Char
  | a :: b :: c :: rest =>
    sign (a / 4) :: sign (a % 4 * 16 + b / 16) :: sign (b % 16 * 4 + c / 64) :: sign (c % 64)
      :: encodeBytes rest
  | [a, b] => [sign (a / 4), sign (a % 4 * 16 + b / 16), sign (b % 16 * 4), '=']
  | [a] => [sign (a / 4), sign (a % 4 * 16), '=', '=']
  | [] => []

/-- The bytes of a list of values of signs. -/
def decodeValues : List Nat → List Nat
  | a :: b :: c :: d :: rest =>
    (a * 4 + b / 16) :: (b % 16 * 16 + c / 4) :: (c % 4 * 64 + d) :: decodeValues rest
  | [a, b, c] => [a * 4 + b / 16, b % 16 * 16 + c / 4]
  | [a, b] => [a * 4 + b / 16]
  | _ => []

/-- The text of bytes. -/
def encode (bytes : Bytes) : String :=
  String.ofList (encodeBytes (bytes.map UInt8.toNat))

/-- The bytes of a text. -/
def decode (text : String) : Bytes :=
  (decodeValues (text.toList.filterMap value?)).map Nat.toUInt8

end TreeBuild.Text.Base64
