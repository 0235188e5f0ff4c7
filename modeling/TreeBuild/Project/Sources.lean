import TreeBuild.Glob.Expansion
import TreeBuild.Project.Layout

/-!
Finding the sources of a build. A pattern is expanded, every match is resolved to the file it leads
to, and each file is listed once, in the order of the matches.
-/
namespace TreeBuild

/-- A source file. -/
structure SourceFile where
  path : Path
  dialect : Dialect
  /-- The path from the project's root, or the name of a file from elsewhere. -/
  relative : String
  deriving DecidableEq, Repr, Inhabited

namespace SourceFile

/-- The source file at a path. -/
def ofPath (layout : Layout) (path : Path) : SourceFile :=
  { path
    dialect := Dialect.ofPath path
    relative :=
      match path.relativeTo? layout.root with
      | some relative => relative.toString
      | none => path.name }

/-- What is told of a source file. -/
def summary (file : SourceFile) : List (String × Json) :=
  [("path", .ofString file.path.toString), ("dialect", .ofString file.dialect.name),
   ("relative", .ofString file.relative), ("compiled", .bool file.dialect.isCompiled)]

end SourceFile

namespace Sources

/-- The path with its links resolved. A path that leads into a loop of links cannot be resolved. -/
def resolvePath (tree : Tree) (path : Path) : Except Fault Path :=
  let text := path.toString
  if text.toList.any Text.isUnnameable then .error (.file (.refused .unnameable text))
  else if text.toList.contains '\x00' then .error (.file (.refused .nullCharacter text))
  else
    let resolved := tree.realPath path
    match tree.status resolved with
    | .error .tooManyLinks => .error (.linkLoop resolved)
    | _ => .ok resolved

/-- The texts that a pattern matches. A relative one is read from the project's root. -/
def matchesOf (tree : Tree) (layout : Layout) (pattern : String) : Except Fault (List String) :=
  if (Path.ofString pattern).isAbsolute then (Glob.expand tree "" pattern).mapError .file
  else do
    let found ← (Glob.expand tree layout.root.toString pattern).mapError .file
    return found.map fun (text : String) => (layout.root / text).toString

/-- Adds the file that a match leads to, unless it is listed already or is no file. -/
def addMatch (tree : Tree) (listed : List Path) (text : String) : Except Fault (List Path) := do
  let path ← resolvePath tree (Path.ofString text)
  if listed.contains path then return listed
  else if ← (tree.isFile path).mapError .file then return listed ++ [path]
  else return listed

/-- The sources that a pattern stands for. An absolute path that matches nothing and is no pattern
is kept as it is. -/
def discover (tree : Tree) (layout : Layout) (pattern : String) :
    Except Fault (List SourceFile) := do
  let found ← matchesOf tree layout pattern
  let paths ← (Text.sorted found).foldlM (addMatch tree) []
  if paths.isEmpty && (Path.ofString pattern).isAbsolute && !Glob.hasMagic pattern then
    return [SourceFile.ofPath layout (Path.ofString pattern)]
  else return paths.map (SourceFile.ofPath layout)

/-- The sources of one dialect. -/
def ofDialect (dialect : Dialect) (files : List SourceFile) : List SourceFile :=
  files.filter fun file => file.dialect = dialect

end Sources

end TreeBuild
