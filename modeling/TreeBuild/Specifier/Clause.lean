import TreeBuild.Text.Blank
import TreeBuild.Text.Basic
import TreeBuild.Text.Scan
import TreeBuild.Text.Word

/-!
Import and export clauses in program text. A clause is found by its shape alone: a keyword, any
text without semicolons, quotes and back quotes up to the word `from`, and a quoted specifier; or
the keyword `import` with a quoted specifier right behind it.
-/
namespace TreeBuild

/-- A clause: the text up to the quote, the quote, and the specifier between the quotes. -/
structure Clause where
  head : List Char
  quote : Char
  specifier : List Char
  deriving DecidableEq, Repr

namespace Clause

/-- The characters that no clause extends over on its way to the specifier. -/
def endsHead (c : Char) : Bool :=
  c = ';' || c = '\'' || c = '"' || c = '\x60'

/-- Whether a character opens and closes a specifier. -/
def isQuote (c : Char) : Bool :=
  c = '\'' || c = '"'

/-- The characters that no specifier holds. -/
def endsSpecifier (c : Char) : Bool :=
  isQuote c || c = '\r' || c = '\n'

/-- The quoted specifier at the start of a text. -/
def quotedAt? : List Char → Option (Char × List Char)
  | [] => none
  | quote :: rest =>
    let specifier := rest.takeWhile (!endsSpecifier ·)
    if isQuote quote && !specifier.isEmpty
        && (rest.dropWhile (!endsSpecifier ·)).head? = some quote then
      some (quote, specifier)
    else none

/-- Whether a text ends with the word `from`, blanks at the end aside. -/
def endsWithFrom (text : List Char) : Bool :=
  match (Text.trimEnd Text.isBlank text).reverse with
  | 'm' :: 'o' :: 'r' :: 'f' :: before => Text.isBoundary before.head? (some 'f')
  | _ => false

/-- The clause that a keyword opens, given what follows the keyword, with the word `from`. -/
def fromClause? (keyword after : List Char) : Option Clause :=
  let gap := after.takeWhile (!endsHead ·)
  if Text.isBoundary keyword.getLast? after.head? && endsWithFrom gap then
    (quotedAt? (after.dropWhile (!endsHead ·))).map fun found =>
      ⟨keyword ++ gap, found.1, found.2⟩
  else none

/-- The clause that a keyword opens, given what follows the keyword, without anything between. -/
def bareClause? (keyword after : List Char) : Option Clause :=
  (quotedAt? (after.dropWhile Text.isBlank)).map fun found =>
    ⟨keyword ++ after.takeWhile Text.isBlank, found.1, found.2⟩

/-- The text of a clause. -/
def text (clause : Clause) : List Char :=
  clause.head ++ clause.quote :: clause.specifier ++ [clause.quote]

/-- The clause at the start of a text, given the character before. -/
def find? (before : Option Char) (text : List Char) : Option Clause :=
  if !Text.isBoundary before text.head? then none
  else
    match text with
    | 'i' :: 'm' :: 'p' :: 'o' :: 'r' :: 't' :: after =>
      (fromClause? "import".toList after).orElse fun _ => bareClause? "import".toList after
    | 'e' :: 'x' :: 'p' :: 'o' :: 'r' :: 't' :: after => fromClause? "export".toList after
    | _ => none

/-- Clauses as a pattern of text. -/
def pattern : Text.Pattern Clause := fun before text =>
  (find? before text).map fun clause => (clause, clause.text.length)

end Clause

/-- The specifiers of the clauses in a text, in order. -/
def specifiers (text : String) : List String :=
  (Text.findings Clause.pattern text.toList).map fun clause => String.ofList clause.specifier

/-- Whether a specifier names a module by its place and not by its package. -/
def isRelativeSpecifier (specifier : String) : Bool :=
  specifier = "." || specifier = ".." || "./".toList.isPrefixOf specifier.toList
    || "../".toList.isPrefixOf specifier.toList

end TreeBuild
