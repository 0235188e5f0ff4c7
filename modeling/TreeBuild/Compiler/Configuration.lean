import TreeBuild.Compiler.Options
import TreeBuild.Json.Commented
import TreeBuild.Json.Dictionary

/-!
The compiler configuration of a build. It is derived from the project's own by setting how markup
is compiled and by writing relative paths as absolute ones, so that it means the same from another
place; a copy of it lies in the temporary directory for as long as it is used.
-/
namespace TreeBuild.Configuration

/-- The configuration that a file holds; a missing file holds an empty one. -/
def read (path : Path) : Action Json := do
  match ← Action.attempt (Action.readText path) with
  | .error (.file (.refused .noEntry _)) => return .obj []
  | .error fault => throw fault
  | .ok text =>
    match Json.readCommented text with
    | .ok value => return value
    | .error error => throw (.json error)

/-- The binding that the member at some place of a list of pairs stands for. -/
def pairBinding (index : Nat) (member : Json) : Except Fault Json.Binding :=
  match member.members? with
  | none => .error (.shape (.noPair index))
  | some [name, value] =>
    match Json.Key.ofJson? name with
    | some key => .ok { key, name := Json.nameOf name, value }
    | none => .error (.shape (.noName name.kindName))
  | some members => .error (.shape (.pairLength index members.length))

/-- The dictionary that a value is: an object, or a list of pairs. -/
def dictionaryOf (value : Json) : Except Fault Json.Dictionary :=
  match value with
  | .obj fields => .ok (.ofFields fields)
  | .arr members => do
    let bindings ← members.zipIdx.mapM fun member => pairBinding member.2 member.1
    return bindings.foldl (fun dictionary binding => dictionary.put binding) []
  | .str units =>
    .error (if units.isEmpty then .shape (.noMembers value.kindName) else .shape (.pairLength 0 1))
  | value => .error (.shape (.noMembers value.kindName))

/-- The absolute path that a relative one denotes from a directory. -/
def anchored (base : Path) (relative : Text.Units) : Action Json := do
  let path ← Action.ask fun tree => Sources.resolvePath tree (base / relative.toName)
  return .str (.ofName path.toString)

/-- Whether the text of a field is a path relative to the configuration that it extends. -/
def extendsRelative (text : String) : Bool := text.toList.head? = some '.'

/-- Whether the base of module names is relative to the configuration. -/
def isRelativeBase (text : String) : Bool := !(Path.ofString text).isAbsolute

/-- The absolute path for a value that is a relative one, if it has to be replaced at all. -/
def replacement? (base : Path) (isRelative : String → Bool) : Option Json → Action (Option Json)
  | some (.str units) =>
    if isRelative units.toName then return some (← anchored base units) else return none
  | _ => return none

/-- The options of a configuration whose relative paths are read from a directory. -/
def deriveOptions (base : Path) (options : Json.Dictionary) : Action Json.Dictionary := do
  let path ← replacement? base isRelativeBase (options.find? "baseUrl")
  return ((options.setIfGiven "baseUrl" path).set "jsx" (.ofString "react")).set "jsxFactory"
    (.ofString CompilerOptions.markupFactory)

/-- The fields of a configuration whose relative paths are read from a directory. -/
def deriveFields (base : Path) (fields : Json.Fields) : Action Json.Fields := do
  let path ← replacement? base extendsRelative (fields.find? "extends")
  let given := ((fields.find? "compilerOptions").bind Json.given?).getD (.obj [])
  match dictionaryOf given with
  | .error fault => throw fault
  | .ok options =>
    let derived ← deriveOptions base options
    return (fields.setIfGiven "extends" path).set "compilerOptions" (.obj derived.toFields)

/-- The configuration derived from the one in a file. -/
def derive (path : Path) : Action Json := do
  match ← read path with
  | .obj fields => return .obj (← deriveFields path.parent fields)
  | value => throw (.shape (.noFields value.kindName))

/-- Writes the derived configuration to a file of its own in the temporary directory. -/
def makeCopy (path : Path) : Action Path := do
  let session ← get
  let copy := session.temporary / s!"tsconfig.{session.clock}.json"
  set { session with clock := session.clock + 1 }
  let derived ← derive path
  Action.writeText copy derived.pretty
  return copy

/-- Removes the copy of a configuration, if it is still there. -/
def removeCopy (copy : Path) : Action Unit :=
  Action.changeFiles fun tree =>
    match tree.unlink copy with
    | .error (.refused .noEntry _) => .ok tree
    | result => result

/-- Does an action with a derived configuration, which is removed in any case. -/
def withCopy {α : Type} (path : Path) (action : Path → Action α) : Action α := do
  let copy ← makeCopy path
  Action.closing (removeCopy copy) (action copy)

end TreeBuild.Configuration
