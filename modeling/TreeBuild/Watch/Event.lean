import TreeBuild.Project.Sources

/-!
Events about source files. The observer reports raw changes, some of them twice or for paths that
no build looks at; each raw change is translated into the events that call for a rebuild or a
removal. A file that moves is removed in one place and added in another.
-/
namespace TreeBuild

/-- What happened to a source. -/
inductive EventKind where
  | added
  | modified
  | removed
  deriving DecidableEq, Repr, Inhabited

namespace EventKind

/-- The name of what happened. -/
def name : EventKind → String
  | .added => "added"
  | .modified => "modified"
  | .removed => "removed"

/-- What a name says that happened. -/
def ofName? (name : String) : Option EventKind :=
  [added, modified, removed].find? fun kind => kind.name = name

end EventKind

/-- An event about a source. -/
structure WatchEvent where
  path : Path
  kind : EventKind
  isDirectory : Bool := false
  deriving DecidableEq, Repr, Inhabited

/-- A change as the observer reports it. -/
inductive RawChange where
  | created (path : Path)
  | modified (path : Path)
  | deleted (path : Path)
  | moved (path target : Path)
  /-- A change that is of no interest. -/
  | other
  deriving Repr

namespace WatchEvent

/-- What is told of an event. -/
def summary (event : WatchEvent) : List (String × Json) :=
  [("path", .ofString event.path.toString), ("kind", .ofString event.kind.name),
   ("is_directory", .bool event.isDirectory)]

/-- The directories of packages and caches, whose files are never sources. -/
def ignoredDirectories : List String := ["node_modules", "__pycache__"]

/-- Whether a part of a path hides what is below it. -/
def hides (part : String) : Bool :=
  part.toList.head? = some '.' || ignoredDirectories.contains part

/-- The directories that sources are taken from and written to, with their links resolved. -/
structure Scope where
  sources : Path
  output : Path
  deriving Repr

/-- The scope of a project. -/
def Scope.ofLayout (tree : Tree) (layout : Layout) : Except Fault Scope := do
  return {
    sources := ← Sources.resolvePath tree layout.sources
    output := ← Sources.resolvePath tree layout.output }

/-- Whether a resolved path belongs to the sources. -/
def Scope.accepts (scope : Scope) (path : Path) : Bool :=
  match path.relativeTo? scope.sources with
  | none => false
  | some place => !(path = scope.output || path.parents.contains scope.output)
      && !place.parts.any hides

/-- The path that a change is about, if it belongs to the sources. -/
def Scope.accepted? (scope : Scope) (tree : Tree) (path : Path) : Except Fault (Option Path) :=
  match Sources.resolvePath tree path with
  | .error (.linkLoop _) => .ok none
  | .error fault => .error fault
  | .ok resolved => .ok (if scope.accepts resolved then some resolved else none)

/-- The event of a kind about a path, if the path belongs to the sources. -/
def Scope.event (scope : Scope) (tree : Tree) (kind : EventKind) (isDirectory : Bool)
    (path : Path) : Except Fault (List WatchEvent) := do
  match ← scope.accepted? tree path with
  | none => return []
  | some path => return [{ path, kind, isDirectory }]

/-- The events that a raw change amounts to. Directories count only when they go away. -/
def Scope.eventsOf (scope : Scope) (tree : Tree) (isDirectory : Bool) :
    RawChange → Except Fault (List WatchEvent)
  | .created path => if isDirectory then .ok [] else scope.event tree .added false path
  | .modified path => if isDirectory then .ok [] else scope.event tree .modified false path
  | .deleted path => scope.event tree .removed isDirectory path
  | .moved path target => do
    let gone ← scope.event tree .removed isDirectory path
    let come ← if isDirectory then .ok [] else scope.event tree .added false target
    return gone ++ come
  | .other => .ok []

end WatchEvent

end TreeBuild
