import TreeBuild.Text.Basic
import TreeBuild.Text.Printable
import TreeBuild.Text.Units

/-!
Quoted text, as messages show the names and values they complain about: between single quotes,
or between double quotes if only single ones occur inside, with escapes for the quote in use, the
backslash and all that is not printable.
-/
namespace TreeBuild.Text

/-- The escape of one code point inside text that is quoted with `quote`. -/
def escapeCode (quote : Char) (code : Nat) : String :=
  if code = quote.toNat ∨ code = '\\'.toNat then String.ofList ['\\', Char.ofNat code]
  else if code = 9 then "\\t"
  else if code = 10 then "\\n"
  else if code = 13 then "\\r"
  else if isPrintable code then String.singleton (Char.ofNat code)
  else if code < 0x100 then "\\x" ++ hex 2 code
  else if code < 0x10000 then "\\u" ++ hex 4 code
  else "\\U" ++ hex 8 code

/-- Double quotes are used only when they avoid escaping single ones. -/
def quoteFor (codes : List Nat) : Char :=
  if codes.contains '\''.toNat && !codes.contains '"'.toNat then '"' else '\''

/-- The quoted form of a sequence of code points, which may include lone surrogates. -/
def quoteCodes (codes : List Nat) : String :=
  let quote := quoteFor codes
  String.singleton quote ++ String.join (codes.map (escapeCode quote)) ++ String.singleton quote

/-- The quoted form of a string, which may hold halves of surrogate pairs. -/
def quoted (text : String) : String :=
  quoteCodes (text.toList.map fun c => (heldSurrogate? c).getD c.toNat)

end TreeBuild.Text
