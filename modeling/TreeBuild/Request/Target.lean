import TreeBuild.Text.Basic
import TreeBuild.Text.Digit

/-!
The names of compilation targets: editions of the language, and engines with a version. The digits
of a version may be those of any script, and one line end behind the name is overlooked.
-/
namespace TreeBuild.Target

/-- The editions that are named by a word. -/
def editions : List String := ["esnext", "es5", "es6"]

/-- The engines whose versions have several parts. -/
def dottedEngines : List String := ["node", "safari", "deno"]

/-- The engines whose versions are one number. -/
def plainEngines : List String := ["chrome", "firefox", "edge"]

/-- Whether a text is a number. -/
def isNumber (text : List Char) : Bool :=
  !text.isEmpty && text.all Text.isDigit

/-- Whether a text is numbers with points between them. -/
def isDotted (text : List Char) : Bool :=
  (Text.splitAt '.' text).all isNumber

/-- What follows a word at the start of a text. -/
def after? (word : String) (text : List Char) : Option (List Char) :=
  if word.toList.isPrefixOf text then some (text.drop word.length) else none

/-- Whether a text is the name of a target. -/
def isName (text : List Char) : Bool :=
  (editions.any fun edition => edition.toList = text)
    || ((after? "es20" text).any fun year => year.length = 2 && year.all Text.isDigit)
    || (dottedEngines.any fun engine => (after? engine text).any isDotted)
    || (plainEngines.any fun engine => (after? engine text).any isNumber)

/-- Whether a target is accepted. -/
def accepts (target : String) : Bool :=
  let text := target.toList
  isName text || (text.getLast? = some '\n' && isName text.dropLast)

end TreeBuild.Target
