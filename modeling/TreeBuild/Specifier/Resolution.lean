import TreeBuild.Specifier.Clause
import TreeBuild.Project.Layout
import TreeBuild.Tree.Access

/-!
Resolving relative specifiers against the files that exist. A specifier that names a file is left
alone; otherwise the compiled module of that name is preferred to the index of a directory. The
specifiers of a text are replaced by what they resolve to, and nothing else of it changes.
-/
namespace TreeBuild

/-- A relative specifier that names nothing. -/
structure Unresolved where
  /-- The file in which it occurs. -/
  file : String
  specifier : String
  deriving DecidableEq, Repr

/-- The warning about a specifier that names nothing. -/
def Unresolved.message (unresolved : Unresolved) : String :=
  s!"{unresolved.file}: could not resolve " ++ Text.quoted unresolved.specifier

/-- What is told of a specifier that names nothing. -/
def Unresolved.summary (unresolved : Unresolved) : List (String × Json) :=
  [("file", .ofString unresolved.file), ("specifier", .ofString unresolved.specifier)]

namespace Specifier

/-- Whether a specifier can only name a directory. -/
def namesDirectory (specifier : String) : Bool :=
  specifier = "." || specifier = ".." || specifier.toList.getLast? = some '/'

/-- The path that a specifier names, seen from a directory. -/
def target (base : Path) (specifier : String) : Path :=
  (base / specifier).tidy

/-- The module that stands for a directory. -/
def indexName : String := "index" ++ Layout.compiledSuffix

/-- What a specifier resolves to. -/
inductive Outcome where
  /-- It names a file as it stands. -/
  | asIs
  /-- It has to be replaced by this one. -/
  | replaced (specifier : String)
  | unresolved
  deriving DecidableEq, Repr

/-- Whether the compiled module of a target exists. -/
def moduleExists (tree : Tree) (target : Path) : Except Fault Bool :=
  match target.withName? (target.name ++ Layout.compiledSuffix) with
  | some sibling => (tree.isFile sibling).mapError .file
  | none => .error (.emptyName target)

/-- Whether a target is a directory with an index. -/
def indexExists (tree : Tree) (target : Path) : Except Fault Bool := do
  if ← (tree.isDirectory target).mapError .file then
    (tree.isFile (target / indexName)).mapError .file
  else return false

/-- Resolves a relative specifier that occurs in a file of the directory `base`. -/
def resolve (tree : Tree) (base : Path) (specifier : String) : Except Fault Outcome := do
  let target := target base specifier
  if !namesDirectory specifier then
    if ← (tree.isFile target).mapError .file then return .asIs
  if Layout.compiledSuffix.toList.isSuffixOf specifier.toList then return .unresolved
  if !namesDirectory specifier then
    if ← moduleExists tree target then return .replaced (specifier ++ Layout.compiledSuffix)
  if ← indexExists tree target then
    let stem := String.ofList (Text.trimEnd (· = '/') specifier.toList)
    return .replaced (stem ++ "/" ++ indexName)
  return .unresolved

/-- The resolved form of a specifier, and whether there is one. -/
def Outcome.answer (specifier : String) : Outcome → String × Bool
  | .asIs => (specifier, true)
  | .replaced other => (other, true)
  | .unresolved => (specifier, false)

/-- What became of a clause: its text, whether its specifier changed, and what did not resolve. -/
structure Change where
  text : List Char
  rewritten : Bool := false
  unresolved : Option Unresolved := none
  deriving Repr

/-- Resolves the specifier of a clause in a file of the directory `base`. -/
def changeClause (tree : Tree) (base : Path) (label : String) (clause : Clause) :
    Except Fault Change := do
  let specifier := String.ofList clause.specifier
  if !isRelativeSpecifier specifier then return { text := clause.text }
  else
    match ← resolve tree base specifier with
    | .asIs => return { text := clause.text }
    | .unresolved => return { text := clause.text, unresolved := some ⟨label, specifier⟩ }
    | .replaced other =>
      if other = specifier then return { text := clause.text }
      else
        return { text := { clause with specifier := other.toList : Clause }.text, rewritten := true }

/-- A text whose specifiers have been resolved. -/
structure Normalized where
  text : String
  rewritten : Nat
  unresolved : List Unresolved
  deriving Repr

/-- The change of one segment of a text. -/
def changeSegment (tree : Tree) (base : Path) (label : String) :
    Text.Segment Clause → Except Fault Change
  | .char c => .ok { text := [c] }
  | .found clause => changeClause tree base label clause

/-- Resolves all specifiers of a text that belongs into the directory `base`. -/
def normalizeText (tree : Tree) (base : Path) (label text : String) :
    Except Fault Normalized := do
  let changes ← (Text.segments Clause.pattern text.toList).mapM (changeSegment tree base label)
  return {
    text := String.ofList (changes.flatMap (·.text))
    rewritten := changes.countP (·.rewritten)
    unresolved := changes.filterMap (·.unresolved) }

end Specifier

end TreeBuild
