import TreeBuild.CommandLine.Grammar
import TreeBuild.Request.Basic

/-!
The commands of the program and their options. One command builds a project once, the other one
builds it and then watches it.
-/
namespace TreeBuild.CommandLine

/-- The options of the program itself. -/
def programGrammar : Grammar where
  positional := .command
  options :=
    [{ key := "help", names := ["-h", "--help"], arity := .none, purpose := .showHelp },
     { key := "debug", names := ["--debug"], arity := .none },
     { key := "version", names := ["-v", "--version"], arity := .none, purpose := .showVersion }]

/-- The options that both commands have. -/
def sharedOptions : List Switch :=
  [{ key := "help", names := ["-h", "--help"], arity := .none, purpose := .showHelp },
   { key := "format", names := ["--format"], choices := OutputFormat.all.map OutputFormat.name },
   { key := "tsconfig", names := ["--tsconfig"] },
   { key := "external", names := ["--external"], arity := .atLeastOne }]

/-- The options of a single build. -/
def buildGrammar : Grammar where
  positional := .atMostOne
  options := sharedOptions ++
    [{ key := "dev", names := ["-d", "--dev"], arity := .none },
     { key := "bundle", names := ["-b", "--bundle"], arity := .none },
     { key := "standalone", names := ["--standalone"], arity := .none },
     { key := "binary", names := ["--binary"], arity := .none },
     { key := "runtime_only", names := ["-r", "--runtime-only"], arity := .none },
     { key := "js_only", names := ["--js-only"], arity := .none },
     { key := "no_write", names := ["--no-write"], arity := .none },
     { key := "no_clear", names := ["--no-clear"], arity := .none },
     { key := "stdin", names := ["--stdin"], arity := .atMostOne },
     { key := "stdin_file", names := ["--stdin-file"] },
     { key := "target", names := ["--target"] },
     { key := "styles", names := ["--styles"] }]

/-- The options of watching. -/
def watchGrammar : Grammar where
  positional := .atMostOne
  options := sharedOptions

/-- What a build is asked for on the command line. -/
structure BuildArguments where
  development : Bool
  format : Given String
  options : Request
  /-- Whether the text to compile is what comes from standard input. -/
  fromStandardInput : Bool
  deriving Repr

/-- What watching is asked for on the command line. -/
structure WatchArguments where
  path : String
  format : Given String
  tsconfig : Given String
  external : Option (List String)
  deriving Repr

/-- A command. -/
inductive Command where
  | build (arguments : BuildArguments)
  | watch (arguments : WatchArguments)
  deriving Repr

/-- A command line that can be carried out. -/
structure Call where
  debug : Bool
  command : Command
  deriving Repr

/-- Whether an option was given. -/
def Reading.gives (reading : Reading) (key : String) : Bool := (reading.last? key).isSome

/-- The argument that an option was given last. One that was given without an argument has an empty
list in its place. -/
def Reading.argument? (reading : Reading) (key : String) : Option (Given String) :=
  (reading.last? key).map fun arguments =>
    arguments.head?.elim (.stray (.arr [])) .proper

/-- The argument that an option was given last, or the one that stands for it. -/
def Reading.argument (reading : Reading) (key : String) (standard : Given String) : Given String :=
  (reading.argument? key).getD standard

/-- The argument of the positional parameter. -/
def Reading.place? (reading : Reading) : Option String := reading.positional.bind List.head?

/-- The format of the output. -/
def Reading.format (reading : Reading) : Given String :=
  reading.argument "format" OutputFormat.esm.name

/-- The name by which a text is asked for from standard input. -/
def standardInput : String := "-"

/-- What a build is asked for. An empty input counts as none. -/
def BuildArguments.ofReading (reading : Reading) : BuildArguments :=
  let standard : Request := {}
  let source := (reading.last? "stdin").map fun given => given.head?.getD standardInput
  let input := match reading.place? with
    | none | some "" => standard.input
    | some input => .proper input
  { development := reading.gives "dev"
    format := reading.format
    fromStandardInput := source = some standardInput
    options := {
      input
      literalSource := source
      stdinFile := reading.argument? "stdin_file"
      target := reading.argument "target" standard.target
      tsconfig := reading.argument "tsconfig" standard.tsconfig
      styles := reading.argument "styles" standard.styles
      bundle := reading.gives "bundle"
      standalone := reading.gives "standalone"
      binary := reading.gives "binary"
      runtimeOnly := reading.gives "runtime_only"
      jsOnly := reading.gives "js_only"
      noWrite := reading.gives "no_write"
      clear := !reading.gives "no_clear"
      external := .proper ((reading.last? "external").getD []) } }

/-- The request of a build; `standardInput` is the text that comes from standard input. -/
def BuildArguments.toRequest (arguments : BuildArguments) (standardInput : String) :
    Except Fault Request :=
  let options := if arguments.fromStandardInput
    then { arguments.options with literalSource := some standardInput } else arguments.options
  Request.create arguments.development arguments.format options

/-- What watching is asked for. -/
def WatchArguments.ofReading (reading : Reading) : WatchArguments :=
  { path := reading.place?.getD "."
    format := reading.format
    tsconfig := reading.argument "tsconfig" ({} : Request).tsconfig
    external := reading.last? "external" }

/-- The request of watching, which is always for development. -/
def WatchArguments.toRequest (arguments : WatchArguments) : Except Fault Request :=
  Request.create true arguments.format
    { tsconfig := arguments.tsconfig, external := .proper (arguments.external.getD []) }

/-- The command of a name, read from its arguments, and what these leave over. -/
def readCommand (name : String) (arguments : List String) :
    Except Exit (Command × List String) := do
  match name with
  | "build" =>
    let reading ← buildGrammar.read arguments
    return (.build (.ofReading reading), reading.extra)
  | "dev" =>
    let reading ← watchGrammar.read arguments
    return (.watch (.ofReading reading), reading.extra)
  | other => throw (.invalidChoice other)

/-- Reads the arguments of the program. -/
def read (arguments : List String) : Except Exit Call := do
  let reading ← programGrammar.read arguments
  match reading.positional with
  | none | some [] => throw .missingCommand
  | some (name :: rest) =>
    let (command, extra) ← readCommand name rest
    if reading.extra ++ extra ≠ [] then throw (.unrecognized (reading.extra ++ extra))
    return { debug := reading.gives "debug", command }

end TreeBuild.CommandLine
