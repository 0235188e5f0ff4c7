import TreeBuild.Child.Launch
import TreeBuild.CommandLine.Program
import TreeBuild.Logging.Line
import TreeBuild.Tree.Difference

/-!
The command. It reads the present directory into a tree, carries out the call on it, and brings the
disk to the state that the tree is left in. It starts no other program: every external tool counts as
not installed, so a build that needs one says so. Nothing reports changes of the disk either, so
watching ends after the first full build.
-/
namespace TreeBuild.Command

/-- The tools when none is installed: a call of any of them ends as one that could not be started. -/
def nothingInstalled (environment : Environment) : Toolchain where
  run call tree :=
    let launch : Child.Launch :=
      { command := call.command, environment, directory := some call.directory.toString }
    match launch.start tree call.directory with
    | .error fault => (.finished Child.noStatus "" fault.message, tree)
    | .ok _ => (.finished Child.noStatus "" "", tree)

/-- The variables in the form in which the system keeps them, each ended by a null character. -/
def environmentOf (bytes : Text.Bytes) : Environment :=
  (Text.split '\x00' (Text.Utf8.decodeLossy bytes)).filterMap fun entry =>
    (Text.cut? '=' entry.toList).map fun parts => (String.ofList parts.1, String.ofList parts.2)

/-- The way to a location, from the root. -/
def placeOf (location : Location) : String := (Path.mk .root location).toString

/-- The location that a place given from the root names. -/
def locationOf (place : String) : Location := (Path.ofString place).parts

/-- What the disk holds at a location and below it. A link is known by leading elsewhere; one that
leads nowhere is passed over. -/
partial def readBelow (location : Location) : IO (List (Location × Entry)) := do
  let place := placeOf location
  match ← (IO.FS.realPath place).toBaseIO with
  | .error _ => return []
  | .ok actual =>
    if toString actual ≠ place then return [(location, .link (toString actual))]
    match ← actual.readDir.toBaseIO with
    | .ok entries =>
      let below ← entries.toList.mapM fun entry => readBelow (location ++ [entry.fileName])
      return (location, .directory) :: below.flatten
    | .error _ =>
      let content ← IO.FS.readBinFile place
      return [(location, .file content.toList false)]

/-- The tree of a directory, together with the directories above it. -/
def readTree (top : Location) : IO Tree := do
  let above := (List.range top.length).drop 1 |>.map fun count => (top.take count, Entry.directory)
  return ⟨above ++ (← readBelow top)⟩

/-- The entries that have to go before a tree can take the place of another, from the deepest to the
highest. -/
def goneEntries (before after : Tree) : List (Location × Entry) :=
  let gone := before.entries.filter fun entry =>
    !(after.get? entry.1).any (Tree.sameShape entry.2)
  gone.mergeSort fun first second => second.1.length ≤ first.1.length

/-- The entries that are new or have changed, from the highest to the deepest. -/
def newEntries (before after : Tree) : List (Location × Entry) :=
  let new := after.entries.filter fun entry => before.get? entry.1 ≠ some entry.2
  new.mergeSort fun first second => first.1.length ≤ second.1.length

/-- Brings the disk from the state of one tree to that of another. -/
def writeBack (before after : Tree) : IO Unit := do
  for (location, entry) in goneEntries before after do
    if entry = .directory then IO.FS.removeDir (placeOf location)
    else IO.FS.removeFile (placeOf location)
  for (location, entry) in newEntries before after do
    match entry with
    | .directory => IO.FS.createDir (placeOf location)
    | .file content _ => IO.FS.writeBinFile (placeOf location) ⟨content.toArray⟩
    | .link _ => pure ()

/-- What is written of the records of a session, each with the same time. -/
def writtenLog (environment : Environment) (debug : Bool) (time : String) (records : List Record) :
    Except Fault String := do
  let start ← if debug then
      Logging.Registry.start.setLevel environment (.int (Logging.number .debug))
    else pure Logging.Registry.start
  let (written, _) ← records.foldlM (fun (state : String × Logging.Registry) record => do
    let registry ← state.2.obtain environment record.source false
    return (state.1 ++ registry.write { time, record }, registry)) ("", start)
  return written

/-- The text of standard input, read only if the call asks for it. -/
def inputFor (line : Except CommandLine.Exit CommandLine.Call) : IO String := do
  match line with
  | .ok { command := .build arguments, .. } =>
    if arguments.fromStandardInput then (← IO.getStdin).readToEnd else return ""
  | _ => return ""

/-- Carries out a call of the program and gives the status that it ends with. -/
def call (arguments : List String) : IO UInt32 := do
  let line := CommandLine.read arguments
  let debug := (line.toOption.map (·.debug)).getD false
  let environment := environmentOf (← IO.FS.readBinFile "/proc/self/environ").toList
  let directory := locationOf (toString (← IO.currentDir))
  let tree ← readTree directory
  let session : Session :=
    { tree, environment, directory := ⟨.root, directory⟩, clock := ← IO.monoNanosNow
      temporary := Path.ofString ((environment.get? "TMPDIR").getD "/tmp") }
  let tools := nothingInstalled environment
  let (result, after) := CommandLine.run tools (Watcher.runOnce · tools)
    (← inputFor line) arguments |>.run session
  writeBack tree after.tree
  match writtenLog environment debug (toString (← IO.monoMsNow)) after.journal with
  | .ok written => IO.eprint written
  | .error fault => IO.eprintln fault.message
  match result with
  | .ok ending =>
    IO.print ending.output
    return ending.status.toUInt32
  | .error fault =>
    IO.eprintln fault.message
    return 1

end TreeBuild.Command

/-- The program. -/
def main (arguments : List String) : IO UInt32 :=
  TreeBuild.Command.call arguments
