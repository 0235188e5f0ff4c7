import TreeBuild.Child.Launch
import TreeBuild.Child.Script
import TreeBuild.Text.Formatted

/-!
What programs do. A few standard programs and the shell are described by what they write, how they
end and how long they take; time is counted, not spent. The shell starts other programs by the same
rules by which it is started itself, so scripts can call scripts.
-/
namespace TreeBuild.Child

/-- What a program did. A status below zero stands for the signal that ended it. -/
structure Performance where
  status : Int := 0
  output : Text.Bytes := []
  errors : Text.Bytes := []
  /-- How long it took, in microseconds. -/
  time : Nat := 0
  /-- How long after its start the program, or something that it left to itself, holds its output open. -/
  held : Nat := 0
  deriving Repr

namespace Performance

/-- A program that only writes a text. -/
def saying (text : String) : Performance := { output := Text.Utf8.encode text }

/-- A program that fails with a message. -/
def complaining (status : Int) (message : String) : Performance :=
  { status, errors := Text.Utf8.encode (message ++ "\n") }

/-- One program done after another. -/
def andThen (first second : Performance) : Performance :=
  { status := second.status, output := first.output ++ second.output
    errors := first.errors ++ second.errors, time := first.time + second.time
    held := max first.held (first.time + second.held) }

/-- A program holds its output at least as long as it runs. -/
def holding (performance : Performance) : Performance :=
  { performance with held := max performance.time performance.held }

end Performance

/-- What a program finds when it runs. -/
structure Surroundings where
  tree : Tree
  directory : Path
  environment : Environment
  input : Text.Bytes

namespace Program

/-- The status of a command that cannot be found. -/
def notFoundStatus : Int := 127

/-- The status of a command that cannot be run. -/
def notRunnableStatus : Int := 126

/-- The least number of microseconds in a time that is given in seconds. -/
def microseconds (seconds : String) : Nat :=
  let (whole, fraction) := (Text.cut? '.' seconds.toList).getD (seconds.toList, [])
  (String.ofList (whole ++ (fraction ++ List.replicate 6 '0').take 6)).toNat?.getD 0

/-- The content of a file that a program is given by name, or why there is none. -/
def contentOf (around : Surroundings) (name : String) : Except Refusal Text.Bytes :=
  match around.tree.locateFrom around.directory name with
  | .error refusal => .error refusal
  | .ok location =>
    match around.tree.get? location with
    | some (.file content _) => .ok content
    | some _ => .error .isDirectory
    | none => .error .noEntry

/-- Writes the content of files, or of its input where no name or a hyphen is given. -/
def concatenate (around : Surroundings) (names : List String) : Performance :=
  (if names.isEmpty then ["-"] else names).foldl (fun done name =>
    let next : Performance :=
      if name = "-" then { status := done.status, output := around.input }
      else
        match contentOf around name with
        | .ok content => { status := done.status, output := content }
        | .error refusal => .complaining 1 s!"cat: {name}: {refusal.words}"
    done.andThen next) {}

/-- Writes its words with a blank between them; a first word can keep the line from being ended. -/
def echo (escapes : Bool) (words : List String) : Performance :=
  let bare := words.head? = some "-n"
  let text := String.intercalate " " (if bare then words.tail else words)
  let written := if escapes then Text.Formatted.unescape text else Text.Utf8.encode text
  { output := written ++ if bare then [] else [10] }

/-- Whether the condition of a test holds; none if it cannot be understood. -/
def holds? (around : Surroundings) : List String → Option Bool
  | [] => some false
  | [word] => some (word ≠ "")
  | ["!", word] => some (word = "")
  | ["-n", word] => some (word ≠ "")
  | ["-z", word] => some (word = "")
  | ["-f", name] => some (contentOf around name).toOption.isSome
  | ["-d", name] => some ((around.tree.locateFrom around.directory name).toOption.any
      around.tree.isDirectoryAt)
  | ["-e", name] => some ((around.tree.locateFrom around.directory name).toOption.any
      fun location => (around.tree.get? location).isSome)
  | [first, "=", second] => some (first = second)
  | [first, "!=", second] => some (first ≠ second)
  | [first, "-eq", second] => (fun (m n : Int) => m = n) <$> first.toInt? <*> second.toInt?
  | [first, "-ne", second] => (fun (m n : Int) => m ≠ n) <$> first.toInt? <*> second.toInt?
  | _ => none

/-- Tests a condition. -/
def test (around : Surroundings) (words : List String) : Performance :=
  { status := match holds? around words with
      | some true => 0
      | some false => 1
      | none => 2 }

/-- What a standard program does; the shell has its own way with escapes in what it echoes. -/
def standard? (inShell : Bool) (around : Surroundings) : List String → Option Performance
  | "true" :: _ => some {}
  | "false" :: _ => some { status := 1 }
  | "cat" :: names => if inShell then none else some (concatenate around names)
  | "pwd" :: _ => some (.saying (around.directory.toString ++ "\n"))
  | "sleep" :: times =>
    if inShell then none
    else some { time := times.foldl (fun total time => total + microseconds time) 0 }
  | "printf" :: form :: words => some { output := Text.Formatted.write form words }
  | "echo" :: words => some (echo inShell words)
  | "test" :: words => some (test around words)
  | "[" :: words => some (test around words.dropLast)
  | "env" :: [] =>
    if inShell then none
    else some (.saying (String.join (around.environment.map fun entry =>
      entry.1 ++ "=" ++ entry.2 ++ "\n")))
  | "wc" :: "-c" :: [] =>
    if inShell then none else some (.saying s!"{around.input.length}\n")
  | "head" :: "-c" :: count :: [] =>
    if inShell then none else some { output := around.input.take (count.toNat?.getD 0) }
  | _ => none

/-- The names of the standard programs that are files. -/
def standardNames : List String :=
  ["sh", "dash", "true", "false", "cat", "pwd", "sleep", "printf", "echo", "test", "[", "env", "wc",
   "head"]

/-- The names of the shell. -/
def shellNames : List String := ["sh", "dash"]

/-! ### The shell -/

/-- The signals that a process can be sent. -/
def signals : List (String × Nat) :=
  [("HUP", 1), ("INT", 2), ("QUIT", 3), ("ABRT", 6), ("KILL", 9), ("USR1", 10), ("USR2", 12),
   ("PIPE", 13), ("ALRM", 14), ("TERM", 15)]

/-- The signal that is sent if none is named. -/
def terminate : Nat := 15

/-- The signal of a name or number. -/
def signalOf (text : String) : Nat :=
  (text.toNat?.orElse fun _ => signals.lookup text).getD terminate

/-- The number by which a shell knows itself. -/
def ownNumber : String := "1"

/-- A shell while it carries out a script. -/
structure Shell where
  around : Surroundings
  /-- The name and the arguments of the script. -/
  parameters : List String
  done : Performance := {}
  /-- Whether the shell has left its script. -/
  hasLeft : Bool := false

namespace Shell

/-- The status that a script can ask for. -/
def last (shell : Shell) : Int := shell.done.status

/-- The name of the script. -/
def name (shell : Shell) : String := shell.parameters.headD "sh"

/-- The value of a parameter. -/
def value (shell : Shell) (name : String) : String :=
  let arguments := shell.parameters.drop 1
  if name = "?" then toString shell.last
  else if name = "$" then ownNumber
  else if name = "#" then toString arguments.length
  else if name = "*" || name = "@" then String.intercalate " " arguments
  else
    match name.toNat? with
    | some index => shell.parameters.getD index ""
    | none => (shell.around.environment.get? name).getD ""

/-- Whether a character separates the words in the value of a parameter. -/
def isGap (c : Char) : Bool := c = ' ' || c = '\t' || c = '\n'

/-- The pieces of a value between gaps. -/
def piecesOf (value : List Char) : List String :=
  (Text.splitAt ' ' (value.map fun c => if isGap c then ' ' else c)).map String.ofList

/-- The fields that pieces make: `open?` is the one that is not yet ended. -/
def fieldsFrom (shell : Shell) (open? : Option String) : List Piece → List String
  | [] => open?.toList
  | .text text :: rest => fieldsFrom shell (some (open?.getD "" ++ text)) rest
  | .parameter name true :: rest =>
    match (if name = "@" then shell.parameters.drop 1 else [shell.value name]) with
    | [] => fieldsFrom shell (if open? = some "" then none else open?) rest
    | [value] => fieldsFrom shell (some (open?.getD "" ++ value)) rest
    | first :: others =>
      (open?.getD "" ++ first) :: others.dropLast ++ fieldsFrom shell others.getLast? rest
  | .parameter name false :: rest =>
    match piecesOf (shell.value name).toList with
    | [] => fieldsFrom shell open? rest
    | [value] =>
      fieldsFrom shell (if value = "" then open? else some (open?.getD "" ++ value)) rest
    | first :: others =>
      let begun := if first = "" then open?.toList else [open?.getD "" ++ first]
      let middle := others.dropLast.filter (· ≠ "")
      begun ++ middle ++ fieldsFrom shell (others.getLast?.filter (· ≠ "")) rest

/-- The fields that a word makes. -/
def fields (shell : Shell) (word : List Piece) : List String := shell.fieldsFrom none word

/-- The variable that a word sets, and the rest of the word. -/
def assignment? : List Piece → Option (String × List Piece)
  | .text c :: rest =>
    if c = "=" then some ("", rest)
    else if c.toList.all Script.inName then
      (assignment? rest).map fun found => (c ++ found.1, found.2)
    else none
  | _ => none

/-- Where what a program writes goes to. -/
inductive Sink where
  | output
  | errors
  | nowhere
  deriving DecidableEq, Repr

/-- Where the output and the errors of a command go to after a redirection. -/
def redirected (sinks : Sink × Sink) (redirection : Script.Redirection) : Sink × Sink :=
  if redirection.sign = ">&2" || redirection.sign = "1>&2" then (sinks.2, sinks.2)
  else if redirection.sign = "2>&1" then (sinks.1, sinks.1)
  else if redirection.sign = "2>" then (sinks.1, .nowhere)
  else if [">", "1>", ">>"].contains redirection.sign then (.nowhere, sinks.2)
  else sinks

/-- What a program did, with its output and errors put where they are to go. -/
def divert (redirections : List Script.Redirection) (performance : Performance) : Performance :=
  let sinks := redirections.foldl redirected (.output, .errors)
  let taken (sink : Sink) :=
    (if sinks.1 = sink then performance.output else [])
      ++ if sinks.2 = sink then performance.errors else []
  { performance with
    output := taken .output, errors := taken .errors
    held := if sinks = (.nowhere, .nowhere) then 0 else performance.held }

/-- The input of a command. -/
def inputOf (shell : Shell) (given : Text.Bytes) (redirections : List Script.Redirection) :
    Text.Bytes :=
  match redirections.find? fun redirection => redirection.sign = "<" with
  | some redirection =>
    (contentOf shell.around (String.join (shell.fields redirection.target))).toOption.getD []
  | none => given

/-- The shell after a performance that is its own or that of a program it started. -/
def note (shell : Shell) (performance : Performance) : Shell :=
  { shell with done := shell.done.andThen performance }

/-- The shell with a variable set. -/
def setVariable (shell : Shell) (name value : String) : Shell :=
  { shell with around :=
      { shell.around with environment := shell.around.environment.set name value } }

/-- The status that `exit` is given. -/
def exitStatus (shell : Shell) (words : List String) : Performance :=
  match words with
  | [] => { status := shell.last }
  | word :: _ =>
    match word.toNat? with
    | some status => { status := (status % 256 : Nat) }
    | none => .complaining 2 s!"{shell.name}: 1: exit: Illegal number: {word}"

/-- The signal that `kill` sends, and whom it sends it to. -/
def killArguments : List String → Nat × List String
  | "-s" :: signal :: targets => (signalOf signal, targets)
  | word :: targets =>
    match word.toList with
    | '-' :: signal => (signalOf (String.ofList signal), targets)
    | _ => (terminate, word :: targets)
  | [] => (terminate, [])

/-- How the shell runs a program that is a file: the surroundings and the words are given. -/
abbrev Runner := Surroundings → List String → Except Refusal Performance

/-- What a command that is a file did. -/
def runFile (shell : Shell) (run : Runner) (line : Nat) (around : Surroundings)
    (words : List String) : Performance :=
  let program := words.headD ""
  match run around words with
  | .ok performance =>
    if performance.status < 0 then { performance with status := 128 - performance.status }
    else performance
  | .error .noEntry | .error .notDirectory =>
    .complaining notFoundStatus s!"{shell.name}: {line}: {program}: not found"
  | .error refusal =>
    .complaining notRunnableStatus s!"{shell.name}: {line}: {program}: {refusal.words}"

/-- Carries out a command whose words are known. -/
def perform (shell : Shell) (run : Runner) (line : Nat) (input : Text.Bytes)
    (redirections : List Script.Redirection) (words : List String) : Shell :=
  let around := { shell.around with input }
  match words with
  | [] => shell.note {}
  | ":" :: _ | "export" :: [] => shell.note {}
  | "exit" :: status =>
    { shell.note (shell.exitStatus status) with hasLeft := true }
  | "kill" :: arguments =>
    let (signal, targets) := killArguments arguments
    if targets.contains ownNumber && signal ≠ 0 then
      { shell.note { status := -(signal : Int) } with hasLeft := true }
    else shell.note {}
  | "cd" :: place :: _ =>
    match shell.around.tree.locateFrom shell.around.directory place with
    | .ok location =>
      if shell.around.tree.isDirectoryAt location then
        { shell.note {} with around := { shell.around with directory := ⟨.root, location⟩ } }
      else shell.note (.complaining 2 s!"{shell.name}: {line}: cd: can't cd to {place}")
    | .error _ => shell.note (.complaining 2 s!"{shell.name}: {line}: cd: can't cd to {place}")
  | words =>
    let performance := (standard? true around words).getD (shell.runFile run line around words)
    shell.note (divert redirections performance.holding)

/-- Carries out one command of a pipeline. Variables that are set in front of a program are set for
that program alone. -/
def command (shell : Shell) (run : Runner) (line : Nat) (input : Text.Bytes)
    (command : Script.Command) : Shell :=
  let settings := (command.words.map assignment?).takeWhile Option.isSome
  let changed := (settings.filterMap id).foldl (fun (shell : Shell) setting =>
    shell.setVariable setting.1 (String.join (shell.fields setting.2))) shell
  let words := (command.words.drop settings.length).flatMap shell.fields
  match words with
  | [] => if settings.isEmpty then shell else changed.note {}
  | "export" :: names =>
    names.foldl (fun (shell : Shell) name =>
      match Text.cut? '=' name.toList with
      | some (name, value) => shell.setVariable (String.ofList name) (String.ofList value)
      | none => shell) (shell.note {})
  | words =>
    let after := changed.perform run line (shell.inputOf input command.redirections)
      command.redirections words
    { after with around := { after.around with environment := shell.around.environment } }

/-- Carries out the commands of a pipeline, each reading what the one before wrote. -/
def pipeline (shell : Shell) (run : Runner) (line : Nat) (input : Text.Bytes) :
    List Script.Command → Shell
  | [] => shell
  | [only] => shell.command run line input only
  | first :: rest =>
    let apart := Shell.command { shell with done := { status := shell.last } } run line input first
    let errorsAlone := { apart.done with output := [] }
    pipeline (shell.note errorsAlone) run line apart.done.output rest

/-- Whether a pipeline is carried out. -/
def applies (shell : Shell) : Script.Condition → Bool
  | .always => true
  | .afterSuccess => shell.last = 0
  | .afterFailure => shell.last ≠ 0

/-- Carries out the pipelines of a list as far as their conditions allow it. -/
def sequence (shell : Shell) (run : Runner) (pipelines : List Script.Pipeline) : Shell :=
  pipelines.foldl (fun (shell : Shell) next =>
    if shell.hasLeft || !shell.applies next.condition then shell
    else shell.pipeline run next.line shell.around.input next.commands) shell

/-- Starts the pipelines of a list in a shell of their own, without input, and goes on at once. That shell
holds the output, too, unless it has become the only command that it was started for. -/
def detach (shell : Shell) (run : Runner) (pipelines : List Script.Pipeline) : Shell :=
  let apart : Shell :=
    { shell with around := { shell.around with input := [] }, done := { status := shell.last } }
  let done := (apart.sequence run pipelines).done
  let done := match pipelines with
    | [{ commands := [_], .. }] => done
    | _ => done.holding
  shell.note { done with status := 0, time := 0 }

/-- Carries out a script. -/
def script (shell : Shell) (run : Runner) (text : String) : Shell :=
  (Script.sequences text).foldl (fun (shell : Shell) next =>
    if shell.hasLeft then shell
    else if next.isDetached then shell.detach run next.pipelines
    else shell.sequence run next.pipelines) shell

/-- What the shell does when it is called with some words. -/
def call (run : Runner) (around : Surroundings) : List String → Performance
  | _ :: "-c" :: text :: [] => (script { around, parameters := ["sh"] } run text).done
  | _ :: "-c" :: text :: parameters => (script { around, parameters } run text).done
  | _ :: file :: arguments =>
    match contentOf around file with
    | .ok content =>
      (script { around, parameters := file :: arguments } run (Text.Utf8.decodeLossy content)).done
    | .error _ => .complaining 2 s!"sh: 0: cannot open {file}: No such file"
  | _ =>
    (script { around := { around with input := [] }, parameters := ["sh"] } run
      (Text.Utf8.decodeLossy around.input)).done

end Shell

/-- What a started program does. Programs that start each other without end are cut off. -/
def perform (tree : Tree) : (depth : Nat) → Started → (input : Text.Bytes) → Performance
  | 0, _, _ => { status := notRunnableStatus }
  | depth + 1, started, input =>
    let around : Surroundings :=
      { tree, directory := started.directory, environment := started.environment, input }
    let name := started.program.getLast?.getD ""
    let run : Shell.Runner := fun around words =>
      let launch : Launch :=
        { command := words, environment := around.environment, directory := none }
      match launch.start tree around.directory with
      | .ok inner => .ok (perform tree depth inner around.input)
      | .error (.file (.refused refusal _)) => .error refusal
      | .error _ => .error .notPermitted
    if shellNames.contains name then Shell.call run around started.command
    else
      (standard? false around (name :: started.command.drop 1)).getD { status := notFoundStatus }

/-- How deep programs may start each other. -/
def maxDepth : Nat := 50

/-- How a launch ends if it may take some time, given in seconds. It lasts until nothing holds the output
of its process any more. -/
def ending (tree : Tree) (present : Path) (launch : Launch) (limit : Option String)
    (input : Text.Bytes) : Ending :=
  match launch.start tree present with
  | .error fault => .notStarted fault.message
  | .ok started =>
    let performance := (perform tree maxDepth started input).holding
    if limit.any (microseconds · ≤ performance.held) then
      .timedOut (if limit.any (microseconds · ≤ performance.time) then none
        else some performance.status)
    else .exited performance.status performance.output performance.errors

/-- The tree with the standard programs in it. -/
def install (tree : Tree) : Tree :=
  let place : Location := ["usr", "bin"]
  let linked := (tree.ensureDirectory place).put ["bin"] (.link "usr/bin")
  standardNames.foldl (fun tree name =>
    tree.put (place ++ [name]) (.file Image.programMark true)) linked

end Program

end TreeBuild.Child
