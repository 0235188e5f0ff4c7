import TreeBuild.Environment
import TreeBuild.Tree.Access

/-!
The state that a build works on and what it leaves behind: the tree, the environment, the log and
the calls of external tools. An action is a computation on this state that may fail; what it did up to
its failure stays done.
-/
namespace TreeBuild

/-- How much a log record matters. -/
inductive Level where
  | debug
  | info
  | warning
  | error
  | critical
  deriving DecidableEq, Repr

/-- The name of a level in the log. -/
def Level.name : Level → String
  | .debug => "DEBUG"
  | .info => "INFO"
  | .warning => "WARNING"
  | .error => "ERROR"
  | .critical => "CRITICAL"

/-- A log record. -/
structure Record where
  /-- The dotted name of the part of the program that speaks. -/
  source : String
  level : Level
  message : String
  fields : List (String × Json) := []
  deriving Repr

/-- The fields of a context with those of a record put over them: a name that is present keeps its
place, a new one comes last. -/
def Record.joinFields (context own : List (String × Json)) : List (String × Json) :=
  own.foldl (fun fields field =>
    if (fields.lookup field.1).isSome then
      fields.map fun known => if known.1 = field.1 then field else known
    else fields ++ [field]) context

/-- What a tolerant reading leaves in the log: its complaint, if it has one and a logger takes it. -/
def Setting.Tolerated.records {α : Type} (read : Setting.Tolerated α) (logger : Option String) :
    List Record :=
  match logger, read.complaint with
  | some source, some message => [{ source, level := .warning, message }]
  | _, _ => []

/-- A call of an external tool. -/
structure Invocation where
  command : List String
  directory : Path
  input : Option String
  deriving Repr

/-- How a call of an external tool ends. -/
inductive ToolOutcome where
  | finished (status : Int) (output errors : String)
  /-- The user interrupts the call. -/
  | interrupted
  /-- There is no outcome, because the call itself fails. -/
  | broken (fault : Fault)
  deriving Repr

/-- The external tools: how each call ends and what it does to the tree. -/
structure Toolchain where
  run : Invocation → Tree → ToolOutcome × Tree

/-- The state of a project while a build works on it. -/
structure Session where
  tree : Tree
  environment : Environment
  /-- The directory in which the program runs. -/
  directory : Path
  /-- Where temporary files are written. -/
  temporary : Path
  /-- The next reading of the clock, which names temporary files. -/
  clock : Nat
  journal : List Record := []
  /-- The calls of external tools, each with the tree that the tool saw. -/
  invocations : List (Invocation × Tree) := []

/-- A computation on a session that may fail. -/
abbrev Action := ExceptT Fault (StateM Session)

namespace Action

/-- A question to the tree that may fail. -/
def ask {α : Type} (question : Tree → Except Fault α) : Action α := do
  match question (← get).tree with
  | .ok answer => return answer
  | .error fault => throw fault

/-- A question to the tree that the system may refuse. -/
def askFiles {α : Type} (question : Tree → Except FileFault α) : Action α :=
  ask fun tree => (question tree).mapError .file

/-- A change of the tree that the system may refuse. -/
def changeFiles (change : Tree → Except FileFault Tree) : Action Unit := do
  let tree ← askFiles change
  modify fun session => { session with tree }

/-- A change of the tree that the system may refuse when a part of it is already done. -/
def alterFiles (change : Tree → Except FileFault Unit × Tree) : Action Unit := do
  let (result, tree) := change (← get).tree
  modify fun session => { session with tree }
  match result with
  | .ok () => return ()
  | .error fault => throw (.file fault)

/-- Writes a record to the log. -/
def record (source : String) (level : Level) (message : String) : Action Unit :=
  modify fun session => { session with journal := session.journal ++ [{ source, level, message }] }

/-- The text of a file, which must be UTF-8. Line ends of every kind are read as line feeds. -/
def readText (path : Path) : Action String := do
  let bytes ← askFiles (·.read path)
  match Text.Utf8.decode bytes with
  | .ok text => return String.ofList (Text.unifyLineEnds text.toList)
  | .error error => throw (.undecodable error)

/-- Writes a text to a file. -/
def writeText (path : Path) (text : String) : Action Unit :=
  changeFiles (·.write path (Text.Utf8.encode text))

/-- Calls an external tool and notes the call. -/
def call (tools : Toolchain) (invocation : Invocation) : Action ToolOutcome := do
  let session ← get
  let (outcome, tree) := tools.run invocation session.tree
  set { session with tree, invocations := session.invocations ++ [(invocation, session.tree)] }
  return outcome

/-- Does an action, then `last` in any case; a failure of `last` counts more than one of the action. -/
def closing {α : Type} (last : Action Unit) (action : Action α) : Action α := fun session =>
  match action session with
  | (result, after) =>
    match last after with
    | (.error fault, final) => (.error fault, final)
    | (.ok _, final) => (result, final)

/-- Does an action and tells how it ended. -/
def attempt {α : Type} (action : Action α) : Action (Except Fault α) := fun session =>
  match action session with
  | (result, after) => (.ok result, after)

/-- Does actions that do not wait for each other, in the order in which they are listed, and tells how
each ended. A failure does not keep the others from being done, but an interruption does. -/
def settle {α : Type} : List (Action α) → Action (List (Except Fault α))
  | [] => return []
  | action :: rest => do
    match ← attempt action with
    | .error .interrupted => throw .interrupted
    | result => return result :: (← settle rest)

/-- The answers of all results, or the first failure among them. -/
def allOrFirst {α : Type} : List (Except Fault α) → Except Fault (List α)
  | [] => .ok []
  | .error fault :: _ => .error fault
  | .ok answer :: rest => (allOrFirst rest).map (answer :: ·)

/-- Does actions that do not wait for each other; the first failure in their order counts, once all
are done. -/
def all {α : Type} (actions : List (Action α)) : Action (List α) := do
  match allOrFirst (← settle actions) with
  | .ok answers => return answers
  | .error fault => throw fault

end Action

end TreeBuild
