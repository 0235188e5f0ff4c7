import TreeBuild.Glob.Expansion
import TreeBuild.Session
import TreeBuild.Project.Layout

/-!
Finding the external tools: an environment variable comes first, then the project's own packages,
then the directories that the search path lists, and at last the bare name.
-/
namespace TreeBuild.Tools

/-- The environment variable that names each tool. -/
def overridingVariables : List (String × String) :=
  [("esbuild", "ESBUILD_BIN"), ("tsc", "TSC_BIN"), ("tailwindcss", "TAILWIND_BIN"),
   ("pkg", "PKG_BIN")]

/-- What the environment names for a tool, if it names anything. -/
def override? (environment : Environment) (name : String) : Option String := do
  let key ← overridingVariables.lookup name
  let value := Fault.trimmed (← environment.get? key)
  if value = "" then none else some value

/-- Where a project keeps the programs of its packages. -/
def localPath (root : Path) (name : String) : Path :=
  root / "node_modules" / ".bin" / name

/-- Whether a program that can be run is at a place, which may be given from the directory that the
session runs in. -/
def isProgram (session : Session) (place : String) : Bool :=
  match session.tree.locateFrom session.directory place with
  | .error _ => false
  | .ok location =>
    match session.tree.get? location with
    | some (.file _ executable) => executable
    | _ => false

/-- The first program of a name in the directories of the search path. A name with a directory is
not searched for. -/
def onSearchPath? (session : Session) (name : String) : Option String :=
  if name.toList.contains '/' then if isProgram session name then some name else none
  else
    match session.environment.get? "PATH" with
    | none | some "" => none
    | some directories =>
      ((Text.split ':' directories).map (Glob.joinText · name)).find? (isProgram session)

/-- The program of a tool among the packages of a project, if it is there. -/
def ownProgram? (tree : Tree) (root : Path) (name : String) : Except FileFault (Option String) := do
  let path := localPath root name
  if ← tree.isPresent path then return some path.toString else return none

/-- The program to run for a tool, looked for in the project at `root` if one is given. -/
def resolve (session : Session) (root : Option Path) (name : String) :
    Except FileFault String := do
  match override? session.environment name with
  | some program => return program
  | none =>
    let own ← root.elim (.ok none) (ownProgram? session.tree · name)
    return (own.orElse fun _ => onSearchPath? session name).getD name

/-- The program to run for a tool in the present session. -/
def find (root : Option Path) (name : String) : Action String := do
  match resolve (← get) root name with
  | .ok program => return program
  | .error fault => throw (.file fault)

/-- The platforms that binaries are made for unless the environment says otherwise. -/
def defaultBinaryTargets : String := "node18-linux-x64,node18-macos-x64,node18-win-x64"

/-- The platforms that binaries are made for. -/
def binaryTargets (environment : Environment) : String :=
  match environment.get? "PKG_TARGETS" with
  | none | some "" => defaultBinaryTargets
  | some targets => targets

/-- Whether the environment forbids the rewriting of specifiers. -/
def rewritesDisabled (environment : Environment) : Bool :=
  Setting.flag environment "NO_REWRITES" false

end TreeBuild.Tools
