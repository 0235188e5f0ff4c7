import TreeBuild.Build.Report

/-!
Running the stages of a build. Each stage is noted when it starts and when it ends. A required one
passes its failure on; another one leaves it in the report, so that the next stage runs. The user's
interruption passes every stage without a note.
-/
namespace TreeBuild

/-- What a stage says when it starts, succeeds and fails. -/
structure StageTexts where
  start : String
  success : String
  failure : String

/-- The state of a build: the session and the report so far. -/
structure BuildState where
  session : Session
  report : Report

/-- A computation within a build. -/
abbrev Pass := ExceptT Fault (StateM BuildState)

namespace Pass

/-- The name under which the stages of a build are logged. -/
def logSource : String := "modbuild.build.pipeline"

/-- Adds a record to the log of a state. -/
def noted (context : List (String × Json)) (level : Level) (message : String)
    (own : List (String × Json)) (state : BuildState) : BuildState :=
  let record : Record :=
    { source := logSource, level, message, fields := Record.joinFields context own }
  { state with session := { state.session with journal := state.session.journal ++ [record] } }

/-- Writes a record with the fields of the context and its own. -/
def log (context : List (String × Json)) (level : Level) (message : String)
    (own : List (String × Json)) : Pass Unit :=
  modify (noted context level message own)

/-- An action as part of a build. -/
def ofAction {α : Type} (action : Action α) : Pass α := fun state =>
  match action state.session with
  | (result, session) => (result, { state with session })

/-- Changes the report. -/
def update (change : Report → Report) : Pass Unit :=
  modify fun state => { state with report := change state.report }

/-- Does a part of a build, then `last` in any case; a failure of `last` counts more. -/
def closing {α : Type} (last : Action Unit) (body : Pass α) : Pass α := fun state =>
  match body state with
  | (result, after) =>
    match ofAction last after with
    | (.error fault, final) => (.error fault, final)
    | (.ok _, final) => (result, final)

/-- Runs one stage. The answer is `none` if the stage failed and the build goes on. -/
def stage {α : Type} (context : List (String × Json)) (stage : Stage) (texts : StageTexts)
    (body : Pass α) : Pass (Option α) := fun state =>
  let own := [("stage", Json.ofString stage.name)]
  let started := noted context .info texts.start own { state with report := state.report.start stage }
  match body started with
  | (.ok answer, after) =>
    let ended := { after with report := after.report.succeed stage }
    (.ok (some answer), noted context .info texts.success own ended)
  | (.error fault, after) =>
    if fault.isInterruption then (.error fault, after)
    else
      let message := fault.message
      let ended := noted context .error s!"{texts.failure} {message}" own
        { after with report := after.report.fail stage message }
      (if stage.isRequired then .error fault else .ok none, ended)

end Pass

end TreeBuild
