import TreeBuild.Session

/-!
Keeping account of child processes. A manager numbers the calls it is asked for and counts how they
end. A call that is under way is active; it ends by itself or by running out of time. Calls may overlap
in any way, so each moment of a call is a step of its own: asking for it, its start or the failure to
start, and its end. A call lasts as long as something holds the output of its process open, which may be
longer than the process itself.
-/
namespace TreeBuild.Child

/-- How many calls began and how they ended. -/
structure Statistics where
  started : Nat := 0
  completed : Nat := 0
  failed : Nat := 0
  timedOut : Nat := 0
  deriving DecidableEq, Repr

/-- A manager of processes. -/
structure Manager where
  /-- How many calls were asked for. -/
  calls : Nat := 0
  /-- The numbers of the calls that are under way. -/
  active : List Nat := []
  statistics : Statistics := {}
  deriving Repr

/-- What is told of a call that has ended. -/
structure Result where
  number : Nat
  status : Int
  output : String := ""
  errors : String := ""
  /-- Why the call could not be started. -/
  startFailure : Option String := none
  timedOut : Bool := false
  deriving DecidableEq, Repr

/-- How a call ends. -/
inductive Ending where
  | notStarted (failure : String)
  | exited (status : Int) (output errors : Text.Bytes)
  /-- The time ran out. The process may have ended before, with this status, while something that it had
  started still held its output. -/
  | timedOut (status : Option Int)
  deriving Repr

/-- What has become of a process that was started. -/
inductive Process where
  | running
  /-- The process has ended, but something still holds its output. -/
  | ended (status : Int)
  /-- The process has ended, and its output is closed. -/
  | closed (status : Int)
  /-- That the process has ended and its output is closed has been noted, and it has been let go. -/
  | gone (status : Int)
  deriving DecidableEq, Repr

namespace Process

/-- The status with which the process has ended. -/
def status? : Process → Option Int
  | .running => none
  | .ended status | .closed status | .gone status => some status

/-- The fault of killing a process that has been let go. -/
def noProcess : Fault := .foreign "ProcessLookupError" ""

/-- Kills the process. One that has ended is left as it is, and one that has been let go cannot be
killed any more. -/
def kill : Process → Except Fault Unit
  | .gone _ => .error noProcess
  | _ => .ok ()

end Process

namespace Result

/-- Whether a call succeeded. -/
def isOk (result : Result) : Bool := result.status = 0

/-- The name of a call. -/
def nameOf (number : Nat) : String := s!"proc_{number}"

/-- The name of the call that the result is about. -/
def name (result : Result) : String := nameOf result.number

/-- What is told of a result. -/
def summary (result : Result) : List (String × Json) :=
  [("ok", .bool result.isOk), ("code", .int result.status), ("stdout", .ofString result.output),
   ("stderr", .ofString result.errors), ("process_id", .ofString result.name)]
  ++ (result.startFailure.map fun failure => ("error", Json.ofString failure)).toList
  ++ if result.timedOut then [("timeout", .bool true)] else []

end Result

/-- The name under which processes are logged. -/
def logSource : String := "modbuild.async_subprocess"

/-- The status of a call that has none of its own. -/
def noStatus : Int := -1

/-- What is logged of a call that could not be started. The program is given in quoted form. -/
def startFailureText (program failure : String) : String :=
  s!"Could not start subprocess {program}: {failure}"

/-- What is logged of a call that ran out of time. -/
def timeoutText (number : Nat) (limit : String) : String :=
  s!"Async subprocess {Result.nameOf number} timed out after {limit}s"

/-- What is told of a call that ran out of time, in place of what it wrote. -/
def timeoutErrors (limit : String) : String := s!"Process timed out after {limit}s"

namespace Manager

/-- What is told of the calls so far. -/
def summary (manager : Manager) : List (String × Json) :=
  let counted := manager.statistics
  [("started", .int counted.started), ("completed", .int counted.completed),
   ("failed", .int counted.failed), ("timeout", .int counted.timedOut),
   ("active_processes", .int manager.active.length)]

/-- Asks for a call and gives its number. -/
def request (manager : Manager) : Manager × Nat :=
  ({ manager with calls := manager.calls + 1 }, manager.calls + 1)

/-- Notes that a call could not be started. -/
def refuse (manager : Manager) (number : Nat) (failure : String) : Manager × Result :=
  let statistics := { manager.statistics with failed := manager.statistics.failed + 1 }
  ({ manager with statistics },
    { number, status := noStatus, errors := failure, startFailure := some failure })

/-- Notes that a call has started. -/
def start (manager : Manager) (number : Nat) : Manager :=
  { manager with
    active := manager.active ++ [number]
    statistics := { manager.statistics with started := manager.statistics.started + 1 } }

/-- The manager without an active call. -/
def drop (manager : Manager) (number : Nat) : Manager :=
  { manager with active := manager.active.erase number }

/-- Notes that a call has ended by itself. What it wrote is read with replacement characters for
what is not UTF-8. -/
def finish (manager : Manager) (number : Nat) (status : Int) (output errors : Text.Bytes) :
    Manager × Result :=
  let known := manager.statistics
  let statistics := if status = 0 then { known with completed := known.completed + 1 }
    else { known with failed := known.failed + 1 }
  ({ manager.drop number with statistics },
    { number, status, output := Text.Utf8.decodeLossy output
      errors := Text.Utf8.decodeLossy errors })

/-- Notes that a call ran out of time and its process has been killed. If it cannot be killed, the call
is given up by `drop` alone, and nothing is counted. -/
def expire (manager : Manager) (number : Nat) (limit : String) : Manager × Result :=
  let statistics := { manager.statistics with timedOut := manager.statistics.timedOut + 1 }
  ({ manager.drop number with statistics },
    { number, status := noStatus, errors := timeoutErrors limit, timedOut := true })

/-- A whole call with nothing between its steps, and what is logged of it with its level. The
program is given in quoted form, and the limit of time as it is shown. -/
def run (manager : Manager) (program limit : String) (ending : Ending) :
    Manager × Result × Option (Level × String) :=
  let (manager, number) := manager.request
  match ending with
  | .notStarted failure =>
    let (manager, result) := manager.refuse number failure
    (manager, result, some (.error, startFailureText program failure))
  | .exited status output errors =>
    let (manager, result) := (manager.start number).finish number status output errors
    (manager, result, none)
  | .timedOut _ =>
    let (manager, result) := (manager.start number).expire number limit
    (manager, result, some (.warning, timeoutText number limit))

end Manager

end TreeBuild.Child
