/-!
Text as a sequence of UTF-16 code units. Escapes in a JSON document may name half of a surrogate
pair, which no string of characters holds; as code units such text is kept and written back.

A text can also name a file. In a name, a half that stands alone is held as one of 2048 private
characters. A half of a pair from `DC80` to `DCFF` stands there for a byte that belongs to no
character; the others stand for nothing that a name can hold.
-/
namespace TreeBuild.Text

/-- A sequence of UTF-16 code units. -/
abbrev Units := List UInt16

/-- The one or two code units of a character. -/
def unitsOfChar (c : Char) : Units :=
  if c.toNat < 0x10000 then [c.toNat.toUInt16]
  else
    let offset := c.toNat - 0x10000
    [(0xD800 + offset / 0x400).toUInt16, (0xDC00 + offset % 0x400).toUInt16]

/-- The code units of a code point, which may be half of a pair. -/
def unitsOfCode (code : Nat) : Units :=
  if code < 0x10000 then [code.toUInt16] else unitsOfChar (Char.ofNat code)

/-- The code units of a string. -/
def Units.ofString (text : String) : Units :=
  text.toList.flatMap unitsOfChar

/-- Whether a code unit is the first half of a surrogate pair. -/
def isHighSurrogate (unit : UInt16) : Bool := 0xD800 ≤ unit && unit < 0xDC00

/-- Whether a code unit is the second half of a surrogate pair. -/
def isLowSurrogate (unit : UInt16) : Bool := 0xDC00 ≤ unit && unit < 0xE000

/-- The code points that the units spell: two halves of a pair make one, and a half that stands
alone counts as itself. -/
def Units.codes : Units → List Nat
  | [] => []
  | [unit] => [unit.toNat]
  | high :: low :: rest =>
    if isHighSurrogate high && isLowSurrogate low then
      (0x10000 + (high.toNat - 0xD800) * 0x400 + (low.toNat - 0xDC00)) :: Units.codes rest
    else high.toNat :: Units.codes (low :: rest)

/-- Whether a code point is half of a surrogate pair. -/
def isSurrogate (code : Nat) : Bool := 0xD800 ≤ code && code < 0xE000

/-- What has to be added to half of a pair for the character that holds it in a name. -/
def heldOffset : Nat := 0x105800 - 0xD800

/-- The half of a pair that a character of a name holds, if it holds one. -/
def heldSurrogate? (c : Char) : Option Nat :=
  if isSurrogate (c.toNat - heldOffset) then some (c.toNat - heldOffset) else none

/-- Whether a character of a name holds what no name can have. -/
def isUnnameable (c : Char) : Bool :=
  match heldSurrogate? c with
  | some code => !(0xDC80 ≤ code && code < 0xDD00)
  | none => false

/-- The units as the name of a file. -/
def Units.toName (units : Units) : String :=
  String.ofList (units.codes.map fun (code : Nat) =>
    Char.ofNat (if isSurrogate code then code + heldOffset else code))

/-- The units of the name of a file. -/
def Units.ofName (name : String) : Units :=
  name.toList.flatMap fun c => unitsOfCode ((heldSurrogate? c).getD c.toNat)

/-- The units as a string, if no half of a pair stands alone. -/
def Units.toString? (units : Units) : Option String :=
  (units.codes.mapM fun (code : Nat) => if code.isValidChar then some (Char.ofNat code) else none).map
    String.ofList

/-- The units as a string, with the replacement character for each half that stands alone. -/
def Units.toStringLossy (units : Units) : String :=
  String.ofList (units.codes.map fun (code : Nat) =>
    if code.isValidChar then Char.ofNat code else Char.ofNat 0xFFFD)

end TreeBuild.Text
