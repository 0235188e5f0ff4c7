import TreeBuild.Project.Sources
import TreeBuild.Session
import TreeBuild.Specifier.Resolution

/-!
Rewriting the specifiers of emitted files in place. A file without a rewrite is not written at all,
and what does not resolve is logged as a warning.
-/
namespace TreeBuild.Specifier

/-- What became of an emitted file. -/
structure FileResult where
  path : Path
  /-- The source it was compiled from, if it is known. -/
  source : Option SourceFile
  /-- The specifiers that the file has now. -/
  specifiers : List String
  rewritten : Nat
  unresolved : List Unresolved
  deriving Repr

/-- What is told of an emitted file, but for the warnings about it. -/
def FileResult.summary (result : FileResult) : List (String × Json) :=
  [("path", .ofString result.path.toString), ("specifiers", .ofStrings result.specifiers),
   ("rewritten", .int result.rewritten),
   ("source", .ofOption (fun source => .ofString source.relative) result.source)]

/-- The name under which specifiers that do not resolve are logged. -/
def logSource : String := "modbuild.build.normalize"

/-- Rewrites the specifiers of one file. -/
def normalizeFile (path : Path) (source : Option SourceFile) : Action FileResult := do
  let text ← Action.readText path
  let normalized ← Action.ask fun tree => normalizeText tree path.parent path.toString text
  if normalized.rewritten ≠ 0 then Action.writeText path normalized.text
  for unresolved in normalized.unresolved do
    Action.record logSource .warning unresolved.message
  return {
    path, source
    specifiers := specifiers normalized.text
    rewritten := normalized.rewritten
    unresolved := normalized.unresolved }

/-- Rewrites the specifiers of those of the files that exist. All are done even if one fails; the
first failure is the one that counts. -/
def normalizeFiles (paths : List Path) (source : Path → Option SourceFile) :
    Action (List FileResult) := do
  let existing ← Action.askFiles fun tree => paths.filterM fun path => tree.isFile path
  Action.all (existing.map fun path => normalizeFile path (source path))

end TreeBuild.Specifier
