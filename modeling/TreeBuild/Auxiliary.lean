import TreeBuild.Project.Descriptor
import TreeBuild.Project.Tools

/-!
The optional stages behind compilation: stylesheets, executables and type declarations. Each calls
an external tool; a tool that fails is a fault that names it.
-/
namespace TreeBuild.Auxiliary

/-- The name under which the optional stages are logged. -/
def logSource : String := "modbuild.build.auxiliary"

/-- Runs a tool in the root of the project and gives what it wrote to standard output. -/
def runTool (tools : Toolchain) (layout : Layout) (name : String) (arguments : List String) :
    Action String := do
  let program ← Tools.find (some layout.root) name
  match ← Action.call tools
      { command := program :: arguments, directory := layout.root, input := none } with
  | .interrupted => throw .interrupted
  | .broken fault => throw fault
  | .finished status output errors =>
    if status = 0 then return output
    else
      let detail := if errors ≠ "" then errors else output
      throw (.auxiliary (.toolFailed name status (Fault.trimmed detail)))

/-- Where the global stylesheet is written. -/
def stylesheetPath (layout : Layout) : Action Path :=
  Descriptor.path layout "style" (Path.ofString "dist/bundle.css")

/-- Compiles one stylesheet. -/
def buildStylesheet (tools : Toolchain) (layout : Layout) (development : Bool)
    (entry output : Path) : Action Path := do
  Action.alterFiles (·.makeDirectories output.parent)
  discard (runTool tools layout "tailwindcss"
    (["-i", entry.toString, "-o", output.toString] ++ if development then [] else ["--minify"]))
  return output

/-- Whether one path is listed before another: part by part. -/
def listedBefore (first second : Path) : Bool :=
  decide (¬ second.parts < first.parts)

/-- The stylesheets in the output tree. -/
def emittedStylesheets (layout : Layout) : Action (List Path) := do
  let paths ← Action.askFiles fun tree => tree.pathsBelow
    (fun name => ".css".toList.isSuffixOf name.toList) layout.output
  return paths.mergeSort listedBefore

/-- Compiles the global stylesheet and, for a bundle, every stylesheet in the output tree in place.
Without a global stylesheet there is nothing to do. -/
def buildStyles (tools : Toolchain) (layout : Layout) (styles : Path)
    (development bundle : Bool) : Action (List Path) := do
  let entry := layout.resolve styles
  if ← Action.askFiles (·.isPresent entry) then
    let global ← buildStylesheet tools layout development entry (← stylesheetPath layout)
    if bundle then
      let emitted ← emittedStylesheets layout
      let others ← Action.all (emitted.map fun path =>
        buildStylesheet tools layout development path path)
      return global :: others
    else return [global]
  else
    Action.record logSource .info s!"Bundle styles not found for this project. Checked: {entry}"
    return []

/-- The module that executables start with. -/
def binaryEntry (layout : Layout) : Action Path := do
  match Descriptor.fieldsOf (← Descriptor.read layout) with
  | .error fault => throw fault
  | .ok fields =>
    let value := match fields.find? "bin" with
      | some (.obj programs) => programs.head?.map Prod.snd
      | other => other
    match value.bind Json.given? with
    | none => return layout.output / "bin.js"
    | some value =>
      match Descriptor.pathOf value with
      | .ok path => return layout.resolve path
      | .error fault => throw fault

/-- Packages the output into executables. -/
def buildBinaries (tools : Toolchain) (layout : Layout) (targets : Option String) : Action Path := do
  let entry ← binaryEntry layout
  if ← Action.askFiles (·.isPresent entry) then
    Action.record logSource .warning
      "Top-level await is not supported by the binary packager; wrap it in an async IIFE."
    let targets := (targets.filter (· ≠ "")).getD (Tools.binaryTargets (← get).environment)
    discard (runTool tools layout "pkg" [entry.toString, "--targets", targets, "--output",
      (layout.root / "bin").toString])
    return entry
  else throw (.auxiliary (.binaryEntryMissing entry))

/-- Writes type declarations and tells how many there are in the output then. -/
def emitDeclarations (tools : Toolchain) (layout : Layout) (tsconfig : Path) : Action Nat := do
  let project := layout.resolve tsconfig
  let configured := if ← Action.askFiles (·.isPresent project) then ["-p", project.toString] else []
  discard (runTool tools layout "tsc" (configured ++
    ["--declaration", "--emitDeclarationOnly", "--outDir", layout.output.toString]))
  let paths ← Action.askFiles fun tree => tree.pathsBelow
    (fun name => ".d.ts".toList.isSuffixOf name.toList) layout.output
  return paths.length

end TreeBuild.Auxiliary
