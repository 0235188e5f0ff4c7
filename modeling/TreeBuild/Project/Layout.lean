import TreeBuild.Project.Dialect

/-!
Where a project keeps its sources, its output and its descriptor, and which output belongs to a
source: the same place in the output tree, with the suffix of compiled code.
-/
namespace TreeBuild

/-- The directories of a project. -/
structure Layout where
  root : Path
  sources : Path
  output : Path
  deriving DecidableEq, Repr, Inhabited

namespace Layout

/-- The suffix of every compiled module. -/
def compiledSuffix : String := ".js"

/-- The layout of the project at a directory. -/
def ofRoot (root : Path) : Layout :=
  { root, sources := root / "src", output := root / "dist" }

/-- The project descriptor. -/
def descriptor (layout : Layout) : Path :=
  layout.root / "package.json"

/-- The descriptor that belongs to the output tree. -/
def outputDescriptor (layout : Layout) : Path :=
  layout.output / "package.json"

/-- A path read from the project's root. -/
def resolve (layout : Layout) (path : Path) : Path :=
  layout.root.join path

/-- Where a source lies below the source directory; one from elsewhere counts by its name alone. -/
def placeOf (layout : Layout) (path : Path) : Path :=
  (path.relativeTo? layout.sources).getD ⟨.relative, if path.parts = [] then [] else [path.name]⟩

/-- The output of the source at a path. -/
def destination (layout : Layout) (path : Path) : Path :=
  let source := layout.resolve path
  let place := layout.output.join (layout.placeOf source)
  if (Dialect.ofPath source).isCompiled then
    (place.withSuffix? compiledSuffix).getD place
  else place

end Layout

end TreeBuild
