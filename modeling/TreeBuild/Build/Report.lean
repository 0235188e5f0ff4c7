import TreeBuild.Session
import TreeBuild.Specifier.Resolution

/-!
The stages of a build and the report about them. A report lists every start and end of a stage;
failures of stages that are not required are kept in it and do not end the build.
-/
namespace TreeBuild

/-- The stages of a build. -/
inductive Stage where
  | idle
  | clearing
  | classifying
  | compiling
  | copyingAssets
  | normalizing
  | patchingMetadata
  | styles
  | binaries
  | declarations
  | done
  | failed
  deriving DecidableEq, Repr, Inhabited

namespace Stage

/-- All stages. -/
def all : List Stage :=
  [.idle, .clearing, .classifying, .compiling, .copyingAssets, .normalizing, .patchingMetadata,
   .styles, .binaries, .declarations, .done, .failed]

/-- The name of a stage. -/
def name : Stage → String
  | .idle => "idle"
  | .clearing => "clearing"
  | .classifying => "classifying"
  | .compiling => "compiling"
  | .copyingAssets => "copying-assets"
  | .normalizing => "normalizing-specifiers"
  | .patchingMetadata => "patching-metadata"
  | .styles => "styles"
  | .binaries => "binaries"
  | .declarations => "emitting-declarations"
  | .done => "done"
  | .failed => "failed"

/-- The stage of a name. -/
def ofName? (name : String) : Option Stage :=
  all.find? fun stage => stage.name = name

/-- Whether the build fails when the stage does. -/
def isRequired : Stage → Bool
  | .clearing | .classifying | .compiling | .copyingAssets | .normalizing | .patchingMetadata =>
    true
  | _ => false

end Stage

/-- What happened to a stage. -/
inductive StageStatus where
  | started
  | succeeded
  | failed
  deriving DecidableEq, Repr

/-- The name of what happened to a stage. -/
def StageStatus.name : StageStatus → String
  | .started => "started"
  | .succeeded => "succeeded"
  | .failed => "failed"

/-- The report of a build. -/
structure Report where
  mode : String := "production"
  state : Stage := .idle
  /-- What happened to which stage, in order. -/
  stages : List (Stage × StageStatus) := []
  /-- The modules that were written. -/
  compiled : List Path := []
  /-- The assets that were copied. -/
  copied : List Path := []
  /-- How many declaration files there are among the sources. -/
  declarations : Nat := 0
  /-- How many declaration files were written. -/
  declarationsEmitted : Nat := 0
  /-- How many specifiers were rewritten. -/
  rewritten : Nat := 0
  unresolved : List Unresolved := []
  /-- Whether the descriptor of the output was written. -/
  patchedMetadata : Bool := false
  /-- The failures that did not end the build, and their messages. -/
  failures : List (Stage × String) := []
  deriving Repr

namespace Report

/-- Whether the build got to its end. -/
def isOk (report : Report) : Bool := report.state = .done

/-- Whether the build got to its end with failures. -/
def isPartial (report : Report) : Bool := report.isOk && !report.failures.isEmpty

/-- What happened last to a stage. -/
def statusOf (report : Report) (stage : Stage) : Option StageStatus :=
  (report.stages.reverse.find? fun entry => entry.1 = stage).map (·.2)

/-- The report once a stage has started. -/
def start (report : Report) (stage : Stage) : Report :=
  { report with state := stage, stages := report.stages ++ [(stage, StageStatus.started)] }

/-- The report once a stage has succeeded. -/
def succeed (report : Report) (stage : Stage) : Report :=
  { report with stages := report.stages ++ [(stage, StageStatus.succeeded)] }

/-- The report once a stage has failed: a required one fails the build, another one leaves its
message. -/
def fail (report : Report) (stage : Stage) (message : String) : Report :=
  let marked := { report with stages := report.stages ++ [(stage, StageStatus.failed)] }
  if stage.isRequired then { marked with state := .failed }
  else { marked with failures := marked.failures ++ [(stage, message)] }

/-- What is told of a report. -/
def summary (report : Report) : List (String × Json) :=
  [("ok", .bool report.isOk),
   ("mode", .ofString report.mode),
   ("state", .ofString report.state.name),
   ("stages", .arr (report.stages.map fun entry =>
      .ofFields [("stage", .ofString entry.1.name), ("status", .ofString entry.2.name)])),
   ("compiled", .int report.compiled.length),
   ("copied_assets", .int report.copied.length),
   ("declarations", .int report.declarations),
   ("declarations_emitted", .int report.declarationsEmitted),
   ("rewritten_specifiers", .int report.rewritten),
   ("unresolved_specifiers", .arr (report.unresolved.map fun unresolved =>
      .ofFields unresolved.summary)),
   ("patched_metadata", .bool report.patchedMetadata),
   ("failures", .arr (report.failures.map fun failure =>
      .ofFields [("stage", .ofString failure.1.name), ("error", .ofString failure.2)]))]

end Report

end TreeBuild
