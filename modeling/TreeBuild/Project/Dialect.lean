import TreeBuild.Path.Basic

/-!
The dialects of source files. A file's dialect depends on its name alone, regardless of the case of
its letters, and decides how a build treats it.
-/
namespace TreeBuild

/-- How a source file is treated. -/
inductive Dialect where
  /-- Code with markup, which gets the imports of the rendering library put in front. -/
  | templatedUi
  | plain
  /-- A file that is copied as it is. -/
  | asset
  /-- Type declarations, which are neither compiled nor copied. -/
  | declaration
  deriving DecidableEq, Repr, Inhabited

namespace Dialect

/-- All dialects, in the order in which they are listed. -/
def all : List Dialect := [.templatedUi, .plain, .asset, .declaration]

/-- The name of a dialect. -/
def name : Dialect → String
  | .templatedUi => "templated-ui"
  | .plain => "plain"
  | .asset => "asset"
  | .declaration => "declaration"

/-- Whether files of a dialect are compiled. -/
def isCompiled : Dialect → Bool
  | .templatedUi | .plain => true
  | .asset | .declaration => false

/-- The endings of declaration files. -/
def declarationEndings : List String := [".d.ts", ".d.mts", ".d.cts"]

/-- The suffixes of code with markup. -/
def templatedUiSuffixes : List String := [".tsx", ".jsx"]

/-- The suffixes of plain code. -/
def plainSuffixes : List String := [".ts", ".mts", ".cts", ".js", ".mjs", ".cjs"]

/-- The dialect of a file with this name. All endings that count are ASCII, so other letters need
no lower case. -/
def ofName (name : String) : Dialect :=
  let lower := name.toList.map Text.lowerAscii
  let suffix := Path.suffixOf (String.ofList lower)
  if declarationEndings.any fun ending => ending.toList.isSuffixOf lower then .declaration
  else if templatedUiSuffixes.contains suffix then .templatedUi
  else if plainSuffixes.contains suffix then .plain
  else .asset

/-- The dialect of a file at this path. -/
def ofPath (path : Path) : Dialect := ofName path.name

end Dialect

end TreeBuild
