import TreeBuild.Child.Manager
import TreeBuild.Glob.Expansion

/-!
Starting a child process. Its working directory has to be there, and its program is looked for in
the directories of the search path, unless it is given with a directory. A file can be run if it may
be and if it is a program of its own or a script whose interpreter can be run. When several places
fail, the first failure counts that says more than that nothing is there.
-/
namespace TreeBuild.Child

/-- What a file that can be run holds. -/
inductive Image where
  /-- A program of its own. -/
  | program
  /-- Text for another program, which may be given one argument before the text. -/
  | script (interpreter : String) (argument : Option String)
  deriving DecidableEq, Repr

namespace Image

/-- How a program of its own begins. -/
def programMark : Text.Bytes := [0x7F, 0x45, 0x4C, 0x46]

/-- How a script begins. -/
def scriptMark : Text.Bytes := [0x23, 0x21]

/-- Whether a character separates the words of the first line of a script. -/
def isGap (c : Char) : Bool := c = ' ' || c = '\t'

/-- The script that a first line announces. -/
def ofFirstLine? (line : List Char) : Option Image :=
  let words := Text.trim isGap line
  let interpreter := words.takeWhile (!isGap ·)
  let argument := (words.drop interpreter.length).dropWhile isGap
  if interpreter.isEmpty then none
  else some (.script (String.ofList interpreter)
    (if argument.isEmpty then none else some (String.ofList argument)))

/-- What the content of a file can be run as. -/
def ofContent? (content : Text.Bytes) : Option Image :=
  if programMark.isPrefixOf content then some .program
  else if scriptMark.isPrefixOf content then
    let line := (content.drop scriptMark.length).takeWhile (· ≠ 10)
    ofFirstLine? (Text.Utf8.decodeLossy line).toList
  else none

end Image

/-- A process that has been started. -/
structure Started where
  /-- Where the program lies that runs. -/
  program : Location
  /-- The words that the program is given, the first of which is what it was called by. -/
  command : List String
  directory : Path
  environment : Environment
  deriving Repr

/-- How many scripts may be interpreted by one another. -/
def maxInterpreters : Nat := 5

/-- Finds the program that runs when the file at a place is run with some arguments, and the words
that it is given. A script is run by running its interpreter. -/
def execute (tree : Tree) (directory : Path) :
    (interpreters : Nat) → (place : String) → (command : List String) →
    Except Refusal (Location × List String)
  | interpreters, place, command =>
    match tree.locateFrom directory place with
    | .error refusal => .error refusal
    | .ok location =>
      match tree.get? location with
      | none => .error .noEntry
      | some (.file content true) =>
        match Image.ofContent? content with
        | none => .error .notExecutable
        | some .program => .ok (location, command)
        | some (.script interpreter argument) =>
          match interpreters with
          | 0 => .error .tooManyLinks
          | interpreters + 1 =>
            execute tree directory interpreters interpreter
              (interpreter :: argument.toList ++ place :: command.tail)
      | some _ => .error .notPermitted

/-- The outcome that counts of those at several places: the first success, then the first refusal
that says more than that nothing is there, then the last one. -/
def firstSuccess {α : Type} (outcomes : List (Except Refusal α)) : Except Refusal α :=
  match outcomes.findSome? Except.toOption with
  | some found => .ok found
  | none =>
    let refusals := outcomes.filterMap fun outcome =>
      match outcome with
      | .error refusal => some refusal
      | .ok _ => none
    match refusals.find? fun refusal => refusal ≠ .noEntry && refusal ≠ .notDirectory with
    | some refusal => .error refusal
    | none => .error (refusals.getLast?.getD .noEntry)

/-- A process that is to be started. -/
structure Launch where
  command : List String
  environment : Environment
  /-- The working directory, if it is not the present one. -/
  directory : Option String
  deriving Repr

namespace Launch

/-- The search path of an environment that has none. -/
def standardSearchPath : String := "/bin:/usr/bin"

/-- The program that is asked for. -/
def program (launch : Launch) : String := launch.command.headD ""

/-- The places at which the program is looked for. -/
def places (launch : Launch) : List String :=
  if launch.program.toList.contains '/' then [launch.program]
  else
    (Text.split ':' ((launch.environment.get? "PATH").getD standardSearchPath)).map
      (Glob.joinText · launch.program)

/-- The first thing about a launch that no process can have. -/
def malformed? (launch : Launch) : Option Fault :=
  let hasNull (text : String) : Bool := text.toList.contains '\x00'
  match launch.environment.find? fun entry => entry.1.toList.contains '=' with
  | some entry => some (.badVariable entry.1)
  | none =>
    if launch.command.any hasNull || launch.directory.any hasNull
        || launch.environment.any (fun entry => hasNull entry.1 || hasNull entry.2) then
      some (.file (.refused .nullCharacter launch.program))
    else none

/-- The directory in which the process works. -/
def workingDirectory (launch : Launch) (tree : Tree) (present : Path) : Except Fault Path :=
  match launch.directory with
  | none => .ok present
  | some text =>
    match tree.locateFrom present text with
    | .error refusal => .error (.file (.refused refusal text))
    | .ok location =>
      match tree.get? location with
      | some .directory => .ok ⟨.root, location⟩
      | some _ => .error (.file (.refused .notDirectory text))
      | none => .error (.file (.refused .noEntry text))

/-- Starts a process from the present directory. -/
def start (launch : Launch) (tree : Tree) (present : Path) : Except Fault Started :=
  match launch.malformed? with
  | some fault => .error fault
  | none => do
    let directory ← launch.workingDirectory tree present
    let attempts := launch.places.map fun place =>
      execute tree directory maxInterpreters place launch.command
    match firstSuccess attempts with
    | .ok (program, command) => .ok { program, command, directory, environment := launch.environment }
    | .error refusal => .error (.file (.refused refusal launch.program))

end Launch

end TreeBuild.Child
