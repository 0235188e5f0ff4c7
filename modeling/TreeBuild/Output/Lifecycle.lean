import TreeBuild.Json.Printer
import TreeBuild.Request.Basic
import TreeBuild.Session

/-!
The life of the output tree: it is removed as a whole before a full build, a single file of it
before that file is built again, and a directory of it when its source directory is gone. Its
descriptor declares how its modules are linked.
-/
namespace TreeBuild.Output

/-- Removes the output tree, if there is one. -/
def clear (output : Path) : Action Unit := do
  if ← Action.askFiles (·.isPresent output) then
    Action.alterFiles (·.removeTree output)

/-- Removes one file of the output and tells whether it was there. -/
def invalidate (destination : Path) : Action Bool := do
  match (← get).tree.unlink destination with
  | .ok tree =>
    modify fun session => { session with tree }
    return true
  | .error (.refused .noEntry _) => return false
  | .error fault => throw (.file fault)

/-- Removes the output of a source directory and tells whether there was any. The output tree
itself is never removed this way. -/
def removeCounterpart (directory : Path) (layout : Layout) : Action Bool := do
  match directory.relativeTo? layout.sources with
  | none => return false
  | some place =>
    let target := layout.output.join place
    if target = layout.output then return false
    else if ← Action.askFiles (·.isDirectory target) then
      Action.alterFiles (·.removeTree target)
      return true
    else return false

/-- The value in the descriptor of an output tree, if there is a descriptor. -/
def readDescriptor (descriptor : Path) : Action (Option Json) := do
  match ← Action.attempt (Action.readText descriptor) with
  | .error (.file (.refused .noEntry _)) => return none
  | .error fault => throw fault
  | .ok text =>
    match Json.read text with
    | .ok value => return some value
    | .error error => throw (.json error)

/-- The fields of a descriptor; anything but an object has none. -/
def descriptorFields : Option Json → Json.Fields
  | some (.obj fields) => fields
  | _ => []

/-- Whether fields declare this linkage. -/
def declares (fields : Json.Fields) (packageType : String) : Bool :=
  match fields.find? "type" with
  | some (.str units) => units = Text.Units.ofString packageType
  | _ => false

/-- Makes the descriptor of an output tree declare the linkage of a format, and tells whether it
had to be written. -/
def patchType (output : Path) (format : OutputFormat) : Action Bool := do
  let descriptor := output / "package.json"
  let fields := descriptorFields (← readDescriptor descriptor)
  if declares fields format.packageType then return false
  let patched := fields.set "type" (.ofString format.packageType)
  Action.alterFiles (·.makeDirectories output)
  Action.writeText descriptor ((Json.obj patched).pretty ++ "\n")
  return true

/-- Copies one asset to its place in the output, with the directories above it. -/
def copyAsset (layout : Layout) (file : SourceFile) : Action Path := do
  let destination := layout.destination file.path
  Action.alterFiles (·.makeDirectories destination.parent)
  Action.changeFiles (·.copyFile file.path destination)
  return destination

/-- Copies assets to their places in the output. All are copied even if one fails; the first
failure is the one that counts. -/
def copyAssets (files : List SourceFile) (layout : Layout) : Action (List Path) := do
  match ← Action.attempt (Action.all (files.map (copyAsset layout))) with
  | .ok destinations => return destinations
  | .error (.file cause) => throw (if cause.isSystemFault then .asset cause else .file cause)
  | .error fault => throw fault

end TreeBuild.Output
