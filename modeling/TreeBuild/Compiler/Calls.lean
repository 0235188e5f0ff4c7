import TreeBuild.Compiler.Options
import TreeBuild.Project.Tools

/-!
Calls of the compiler: for several files at once, for one text that stands for a file, and for one
text whose compiled form is only returned. A call that fails is a fault with what the compiler
wrote about it; what it writes about a call that succeeds is logged as a warning.
-/
namespace TreeBuild

/-- The compiler of a project. -/
structure Compiler where
  tools : Toolchain
  layout : Layout
  program : String

namespace Compiler

/-- The name under which calls of the compiler are logged. -/
def logSource : String := "modbuild.build.engine"

/-- The compiler of a project, found unless it is given. -/
def ofLayout (tools : Toolchain) (layout : Layout) (program : Option String) : Action Compiler := do
  match program.filter (· ≠ "") with
  | some program => return { tools, layout, program }
  | none => return { tools, layout, program := ← Tools.find (some layout.root) "esbuild" }

/-- Runs the compiler and gives what it wrote to standard output. -/
def run (compiler : Compiler) (arguments : List String) (input : Option String)
    (directory : Path) : Action String := do
  match ← Action.call compiler.tools
      { command := compiler.program :: arguments, directory, input } with
  | .interrupted => throw .interrupted
  | .broken fault => throw fault
  | .finished status output errors =>
    if status ≠ 0 then throw (.compile s!"esbuild exited with status {status}" errors)
    if errors ≠ "" then Action.record logSource .warning (Fault.trimmed errors)
    return output

/-- Compiles files, each to its place in the output tree; without files there is no call. -/
def buildEntryPoints (compiler : Compiler) (paths : List Path) (options : CompilerOptions)
    (layout : Layout) : Action Unit := do
  if paths.isEmpty then return ()
  let places := [CompilerOptions.valued "outbase" layout.sources.toString,
    CompilerOptions.valued "outdir" layout.output.toString]
  discard (compiler.run (paths.map Path.toString ++ places ++ options.flags .entryPoints) none
    layout.root)

/-- How texts are read that are given to the compiler. -/
def loaderFlag : String := "--loader=tsx"

/-- Compiles a text that stands for a file, to an output file. Its imports are read from the
directory of the file it stands for, if that exists. -/
def buildBuffer (compiler : Compiler) (source : String) (sourceFile outFile : Path)
    (options : CompilerOptions) : Action Unit := do
  let arguments := [CompilerOptions.valued "sourcefile" sourceFile.toString, loaderFlag,
    CompilerOptions.valued "outfile" outFile.toString] ++ options.flags .buffer
  let exists? ← Action.askFiles (·.isDirectory sourceFile.parent)
  let directory := if exists? then sourceFile.parent else compiler.layout.root
  discard (compiler.run arguments (some source) directory)

/-- The compiled form of a text that stands for a file. -/
def transform (compiler : Compiler) (source sourceFile : String) (options : CompilerOptions) :
    Action String :=
  compiler.run ([CompilerOptions.valued "sourcefile" sourceFile, loaderFlag]
    ++ options.flags .transform) (some source) compiler.layout.root

/-- The imports that code with markup needs. -/
def markupPreamble : String :=
  "import React from \"react\";\nimport ReactDOM from \"react-dom\";\n"

/-- Code with markup together with the imports that it needs. -/
def withPreamble (source : String) : String := markupPreamble ++ source

end Compiler

end TreeBuild
