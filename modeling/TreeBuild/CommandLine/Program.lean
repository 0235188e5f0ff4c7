import TreeBuild.Build.Pipeline
import TreeBuild.CommandLine.Arguments
import TreeBuild.Json.Printer
import TreeBuild.Logging.Registry
import TreeBuild.Project.Settings
import TreeBuild.Watch.Watcher

/-!
The program as it is called from a command line: what it writes to standard output and the status
that it ends with. A build writes its report, or the text that it compiled; a failure of a command writes
one line that says what went wrong. The level of the loggers is set before that: if it cannot be, the
program fails without an ending of its own.
-/
namespace TreeBuild.CommandLine

/-- How a call of the program ends. -/
structure Ending where
  status : Nat
  output : String := ""
  deriving DecidableEq, Repr

/-- The name and the version of the program. -/
def versionText : String := "modbuild 0.1.0"

/-- The status of a call whose command line cannot be understood. -/
def misuseStatus : Nat := 2

/-- The status of a call that the user interrupts. -/
def interruptedStatus : Nat := 130

/-- The ending of a call that does not get as far as a command. -/
def Exit.ending : Exit → Ending
  | .help => { status := 0 }
  | .version => { status := 0, output := versionText ++ "\n" }
  | _ => { status := misuseStatus }

/-- The ending of a command that fails. -/
def failure (fault : Fault) : Ending :=
  if fault.isInterruption then { status := interruptedStatus }
  else { status := 1, output := fault.report.compact ++ "\n" }

/-- What a build ends with. -/
def outcome : Build.Outcome → Ending
  | .text compiled => { status := 0, output := compiled }
  | .written => { status := 0 }
  | .report report =>
    { status := if report.isOk then 0 else 1
      output := (Json.ofFields report.summary).pretty ++ "\n" }

/-! ### Loggers -/

/-- The loggers that the modules of a command ask for when they are loaded. -/
def loggersOf : Command → List String
  | .build _ => buildLoggers
  | .watch _ => buildLoggers ++ [Watch.logSource]
where
  buildLoggers : List String :=
    [Auxiliary.logSource, Compiler.logSource, Specifier.logSource, "modbuild.build.output",
      Pass.logSource]

/-- The loggers before a command is carried out. They are told to write everything if the command line
asks for that. -/
def firstLoggers (environment : Environment) (debug : Bool) : Except Fault Logging.Registry :=
  if debug then Logging.Registry.start.setLevel environment (.int (Logging.number .debug))
  else .ok Logging.Registry.start

/-- Asks for the loggers of a command. -/
def loadLoggers (environment : Environment) (loggers : Logging.Registry) (command : Command) :
    Except Fault Logging.Registry :=
  (loggersOf command).foldlM (fun loggers name => loggers.obtain environment name false) loggers

/-! ### Commands -/

section

variable (reader : EnvironmentFile.Reader)

/-- The layout of the project at a path, with its settings loaded. -/
def openProject (path : String) : Action Layout := do
  let directory := (← get).directory
  let place := if path = "" then directory else directory.join (Path.ofString path)
  let root ← Action.ask (Sources.resolvePath · place)
  Settings.loadBy reader root
  return Layout.ofRoot root

/-- Builds the project in the present directory once. -/
def runBuild (tools : Toolchain) (standardInput : String)
    (arguments : BuildArguments) : Action Ending := do
  let layout ← openProject reader ""
  let request ← Action.ask fun _ => arguments.toRequest standardInput
  return outcome (← Build.run tools request layout)

/-- Watches a project. How long that goes on is up to `keepWatching`; the user ends it by an
interruption, which counts as success. -/
def runWatch (keepWatching : Watcher → Action Unit)
    (arguments : WatchArguments) : Action Ending := do
  let layout ← openProject reader arguments.path
  let request ← Action.ask fun _ => arguments.toRequest
  let watcher ← Watcher.create layout request none none
  match ← Action.attempt (keepWatching watcher) with
  | .ok () => return { status := 0 }
  | .error fault => if fault.isInterruption then return { status := 0 } else throw fault

/-- Carries out a command, with loggers that may not have their level yet. -/
def carryOut (tools : Toolchain) (keepWatching : Watcher → Action Unit) (standardInput : String)
    (loggers : Logging.Registry) (command : Command) : Action Ending := do
  let environment := (← get).environment
  discard (Action.ask fun _ => loadLoggers environment loggers command)
  match command with
  | .build arguments => runBuild reader tools standardInput arguments
  | .watch arguments => runWatch reader keepWatching arguments

/-- Carries out a call of the program, with some reader of environment files. A fault of the command is
told of in the ending; one of setting the level of the loggers is not, and the call fails with it. -/
def runBy (tools : Toolchain) (keepWatching : Watcher → Action Unit) (standardInput : String)
    (arguments : List String) : Action Ending := do
  match read arguments with
  | .error exit => return exit.ending
  | .ok line =>
    let environment := (← get).environment
    let loggers ← Action.ask fun _ => firstLoggers environment line.debug
    match ← Action.attempt (carryOut reader tools keepWatching standardInput loggers line.command) with
    | .ok ending => return ending
    | .error fault => return failure fault

end

/-- Carries out a call of the program. -/
def run (tools : Toolchain) (keepWatching : Watcher → Action Unit) (standardInput : String)
    (arguments : List String) : Action Ending :=
  runBy EnvironmentFile.reader tools keepWatching standardInput arguments

end TreeBuild.CommandLine
