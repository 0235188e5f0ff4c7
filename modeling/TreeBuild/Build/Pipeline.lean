import TreeBuild.Auxiliary
import TreeBuild.Build.Progress
import TreeBuild.Compiler.Calls
import TreeBuild.Compiler.Configuration
import TreeBuild.Output.Lifecycle
import TreeBuild.Specifier.Files

/-!
A build. Files are cleared, classified, compiled, copied and have their specifiers rewritten, the
descriptor of the output is patched, and unless only running code is wanted, styles, executables
and type declarations follow. A build of a given text goes straight to the compiler.
-/
namespace TreeBuild.Build

/-- The outcome of a build. -/
inductive Outcome where
  /-- Files were built. -/
  | report (report : Report)
  /-- A text was compiled and is returned. -/
  | text (compiled : String)
  /-- A text was compiled to a file. -/
  | written
  deriving Repr

/-- The fields of every record of a build. -/
def contextOf (request : Request) : List (String × Json) :=
  [("mode", .ofString request.mode.name)]

/-- Compiles one file with markup and gives its output. -/
def compileMarkup (compiler : Compiler) (options : CompilerOptions) (layout : Layout)
    (file : SourceFile) : Action Path := do
  let source ← Action.readText file.path
  let output := layout.destination file.path
  compiler.buildBuffer (Compiler.withPreamble source) file.path output options
  return output

/-- Compiles plain files with one call and gives their outputs. -/
def compilePlain (compiler : Compiler) (options : CompilerOptions) (layout : Layout)
    (files : List SourceFile) : Action (List Path) := do
  compiler.buildEntryPoints (files.map SourceFile.path) options layout
  return files.map fun file => layout.destination file.path

/-- The outputs of both kinds of files, or the failure that counts: the first one of a file with
markup, and that of the plain files only if there is no other. -/
def verdict (markup : List (Except Fault Path)) (plain : Except Fault (List Path)) :
    Except Fault (List Path) := do
  let markup ← Action.allOrFirst markup
  let plain ← plain
  return markup ++ plain

/-- Compiles all files. Every call is made, whichever fails, before a failure counts; the call for
the plain files comes first. -/
def compile (compiler : Compiler) (options : CompilerOptions) (layout : Layout)
    (files : List SourceFile) : Action (List Path) := do
  let plainFiles := Sources.ofDialect .plain files
  let plain ← Action.settle [compilePlain compiler options layout plainFiles]
  let markup ← Action.settle
    ((Sources.ofDialect .templatedUi files).map (compileMarkup compiler options layout))
  match verdict markup ((Action.allOrFirst plain).map List.flatten) with
  | .ok outputs => return outputs
  | .error fault => throw fault

/-- Clears what a build is going to write: one output for a single file, unless it is left to
another tool, and otherwise the whole tree if that is asked for. -/
def clear (request : Request) (layout : Layout) : Action Unit := do
  if ← Action.ask fun _ => request.isSinglePath then
    let path ← Action.ask fun _ => request.input.path
    if Dialect.ofPath path ≠ .declaration then
      discard (Output.invalidate (layout.destination path))
  else if request.clear then Output.clear layout.output

/-- The source that an output was compiled from. -/
def sourceOf (layout : Layout) (files : List SourceFile) (output : Path) : Option SourceFile :=
  files.reverse.find? fun file => file.dialect.isCompiled && layout.destination file.path = output

/-- The report with the results of the rewriting of specifiers. -/
def addResults (results : List Specifier.FileResult) (report : Report) : Report :=
  { report with
    rewritten := report.rewritten + results.foldl (fun count result => count + result.rewritten) 0
    unresolved := report.unresolved ++ results.flatMap (·.unresolved) }

/-- Makes the copy of the compiler configuration that a request names. -/
def copyConfiguration (request : Request) (layout : Layout) : Action Path := do
  Configuration.makeCopy (layout.resolve (← Action.ask fun _ => request.tsconfig.path))

/-- Compiles a given text, to its output or to a text that is returned. -/
def buildLiteral (compiler : Compiler) (request : Request) (layout : Layout) : Pass Outcome := do
  let context := contextOf request
  let source := request.literalSource.getD ""
  let place := request.stdinFile.getD (.proper "")
  if request.noWrite then
    let options ← Pass.ofAction (CompilerOptions.ofRequest request layout none)
    let compiled ← Pass.stage context .compiling
      ⟨"Transforming stdin.", "Transformed stdin.", "Error transforming stdin."⟩
      (Pass.ofAction (compiler.transform source place.shown options))
    return .text (compiled.getD "")
  else
    let sourceFile := layout.resolve (← Pass.ofAction (Action.ask fun _ => place.path))
    let output := layout.destination sourceFile
    let copy ← Pass.ofAction (copyConfiguration request layout)
    Pass.closing (Configuration.removeCopy copy) do
      let options ← Pass.ofAction (CompilerOptions.ofRequest request layout (some copy))
      discard (Pass.stage context .compiling
        ⟨s!"Building stdin to {output}.", s!"Built stdin to {output}.", "Error building stdin."⟩
        (Pass.ofAction (compiler.buildBuffer source sourceFile output options)))
    Pass.log context .info "Use --no-write to print to stdout instead." []
    return .written

/-- Finds the sources that a request names. -/
def discoverInput (request : Request) (layout : Layout) : Action (List SourceFile) :=
  Action.ask fun tree => do
    discard request.input.path
    Sources.discover tree layout request.input.shown

/-- The stages that every build of files has, up to the descriptor of the output. -/
def requiredStages (compiler : Compiler) (request : Request) (layout : Layout) : Pass Unit := do
  let context := contextOf request
  discard (Pass.stage context .clearing
    ⟨"Clearing output.", "Cleared output.", "Failed to clear output."⟩
    (Pass.ofAction (clear request layout)))
  let files ← Pass.stage context .classifying
    ⟨"Discovering source files.", "Discovered source files.", "Failed to discover source files."⟩
    (do
      let files ← Pass.ofAction (discoverInput request layout)
      Pass.update fun report =>
        { report with declarations := (Sources.ofDialect .declaration files).length }
      return files)
  let files := files.getD []
  let copy ← Pass.ofAction (copyConfiguration request layout)
  Pass.closing (Configuration.removeCopy copy) do
    let options ← Pass.ofAction (CompilerOptions.ofRequest request layout (some copy))
    discard (Pass.stage context .compiling
      ⟨"Compiling TSX/TS/JS files.", "Compiled TSX/TS/JS files.", "Failed to compile files."⟩
      (do
        let compiled ← Pass.ofAction (compile compiler options layout files)
        Pass.update fun report => { report with compiled }))
  discard (Pass.stage context .copyingAssets
    ⟨"Copying non-source files to dist/.", "Copied non-source files to dist/.",
      "Failed to copy non-source files to dist/."⟩
    (do
      let copied ← Pass.ofAction (Output.copyAssets (Sources.ofDialect .asset files) layout)
      Pass.update fun report => { report with copied }))
  if !Tools.rewritesDisabled (← get).session.environment then
    discard (Pass.stage context .normalizing
      ⟨"Normalizing import specifiers.", "Normalized import specifiers.",
        "Failed to normalize import specifiers."⟩
      (do
        let compiled := (← get).report.compiled
        let results ← Pass.ofAction (Specifier.normalizeFiles compiled (sourceOf layout files))
        Pass.update (addResults results)))
  discard (Pass.stage context .patchingMetadata
    ⟨"Checking package type in dist/.", "Checked package type in dist/.",
      "Failed to patch dist/package.json."⟩
    (do
      let patched ← Pass.ofAction (Output.patchType layout.output request.format)
      Pass.update fun report => { report with patchedMetadata := patched }
      if patched then
        Pass.log context .info
          s!"Forced \"type\" package.json field in dist ({request.format.packageType})." []))

/-- The stages that follow once the output can be run. -/
def optionalStages (tools : Toolchain) (request : Request) (layout : Layout) : Pass Unit := do
  let context := contextOf request
  if !request.jsOnly then
    discard (Pass.stage context .styles
      ⟨"Bundling styles.", "Bundled styles.", "Failed to bundle styles."⟩
      (Pass.ofAction do
        let entry ← Action.ask fun _ => request.styles.path
        Auxiliary.buildStyles tools layout entry request.isDevelopment request.bundle))
    if request.binary then
      discard (Pass.stage context .binaries
        ⟨"Building binary executables.", "Built binary executables.", "Failed to build binaries."⟩
        (Pass.ofAction (Auxiliary.buildBinaries tools layout none)))
  discard (Pass.stage context .declarations
    ⟨"Generating type declarations.", "Generated type declarations.",
      "Failed to generate type declarations."⟩
    (do
      let tsconfig ← Pass.ofAction (Action.ask fun _ => request.tsconfig.path)
      let emitted ← Pass.ofAction (Auxiliary.emitDeclarations tools layout tsconfig)
      Pass.update fun report => { report with declarationsEmitted := emitted }))

/-- Builds files. -/
def buildFiles (tools : Toolchain) (compiler : Compiler) (request : Request) (layout : Layout) :
    Pass Outcome := do
  let context := contextOf request
  Pass.log context .info s!"modbuild [{request.mode.name}]" [("input", request.input.toJson .ofString)]
  requiredStages compiler request layout
  if request.runtimeOnly then
    Pass.update fun report => { report with state := .done }
  else
    optionalStages tools request layout
    Pass.update fun report => { report with state := .done }
    let report := (← get).report
    Pass.log context .info "Build complete."
      [("compiled", .int report.compiled.length), ("declarations", .int report.declarations),
       ("failures", .int report.failures.length)]
  return .report (← get).report

/-- Carries out a request in a project. -/
def run (tools : Toolchain) (request : Request) (layout : Layout) : Action Outcome := do
  let request ← Action.ask fun _ => request.normalized
  let compiler ← Compiler.ofLayout tools layout none
  let body := if request.isLiteral then buildLiteral compiler request layout
    else buildFiles tools compiler request layout
  fun session =>
    match body { session, report := { mode := request.mode.name } } with
    | (result, after) => (result, after.session)

end TreeBuild.Build
