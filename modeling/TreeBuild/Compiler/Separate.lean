import TreeBuild.Session
import TreeBuild.Text.Basic

/-!
Compilers that treat every file by itself. What such a compiler does to one text is a function of the
text and of the name it goes by; how texts are found and where their compiled forms go is read off
the command line. A single text may come from standard input, and may go to standard output.
-/
namespace TreeBuild

/-- What a compiler does to one text. -/
structure TextCompiler where
  /-- The compiled form of a text with the warnings about it, or the errors. -/
  compile (label text : String) : Except String (String × String)
  /-- What is written to standard output of a compiled text that has no other place to go to. -/
  display (label compiled : String) : String

namespace TextCompiler

/-- A text that is to be compiled, and where its compiled form goes. -/
structure Job where
  label : String
  text : String
  target : Option Path
  deriving Repr

/-- The settings of a command line, which have the form `--name=value`. -/
def settingsOf (command : List String) : List (String × String) :=
  (command.drop 1).filterMap fun argument =>
    match argument.toList with
    | '-' :: '-' :: rest =>
      (Text.cut? '=' rest).map fun parts => (String.ofList parts.1, String.ofList parts.2)
    | _ => none

/-- The arguments of a command line that name files. -/
def filesOf (command : List String) : List String :=
  (command.drop 1).filter fun argument => !("--".toList.isPrefixOf argument.toList)

/-- Where the compiled form of a file goes: below the output directory as the file lies below its
base, or directly into the output directory. -/
def targetOf (settings : List (String × String)) (directory : Path) (file : String) :
    Option Path := do
  let output ← settings.lookup "outdir"
  let base := Path.ofString ((settings.lookup "outbase").getD "")
  let place := ((Path.ofString file).relativeTo? base).getD
    (Path.ofString (Path.ofString file).name)
  let joined := (directory / output).join place
  return (joined.withSuffix? ".js").getD joined

/-- The job for a file, or what is said if it is none. -/
def jobOf (invocation : Invocation) (tree : Tree) (file : String) : Except String Job :=
  match tree.read (invocation.directory / file) with
  | .error _ => .error s!"error: Could not resolve \"{file}\"\n"
  | .ok bytes =>
    .ok { label := file
          text := Text.Utf8.decodeLossy bytes
          target := targetOf (settingsOf invocation.command) invocation.directory file }

/-- The jobs that a call asks for: one for the text of standard input if a name for it is given, and
otherwise one for each file. -/
def jobsOf (invocation : Invocation) (tree : Tree) : Except String (List Job) :=
  let settings := settingsOf invocation.command
  match settings.lookup "sourcefile" with
  | some label =>
    .ok [{ label, text := invocation.input.getD ""
           target := (settings.lookup "outfile").map fun (file : String) =>
            invocation.directory / file }]
  | none => (filesOf invocation.command).mapM (jobOf invocation tree)

/-- Does the jobs in their order, up to the first text that cannot be compiled. -/
def runJobs (compiler : TextCompiler) (tree : Tree) (warnings : String) :
    List Job → ToolOutcome × Tree
  | [] => (.finished 0 "" warnings, tree)
  | job :: rest =>
    match compiler.compile job.label job.text with
    | .error errors => (.finished 1 "" (warnings ++ errors), tree)
    | .ok (compiled, more) =>
      let warnings := warnings ++ more
      match job.target with
      | none => (.finished 0 (compiler.display job.label compiled) warnings, tree)
      | some target =>
        match tree.makeDirectories target.parent with
        | (.error fault, made) => (.broken (.file fault), made)
        | (.ok (), made) =>
          match made.write target (Text.Utf8.encode compiled) with
          | .error fault => (.broken (.file fault), made)
          | .ok written => compiler.runJobs written warnings rest

/-- A toolchain whose every call is one of this compiler. Nothing is written unless all files can be
read. -/
def toolchain (compiler : TextCompiler) : Toolchain where
  run invocation tree :=
    match jobsOf invocation tree with
    | .error errors => (.finished 1 "" errors, tree)
    | .ok jobs => compiler.runJobs tree "" jobs

end TextCompiler

end TreeBuild
