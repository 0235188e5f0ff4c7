import TreeBuild.Environment.File
import TreeBuild.Session

/-!
The settings that a project keeps for itself: an environment file in its root adds to the
environment before anything else is done.
-/
namespace TreeBuild.Settings

/-- The environment file of a project. -/
def file (root : Path) : Path := root / ".env"

/-- Adds the variables of the environment file of a project, if it has one, as they are read by `reader`. -/
def loadBy (reader : EnvironmentFile.Reader) (root : Path) : Action Unit := do
  if ← Action.askFiles (·.isFile (file root)) then
    let content ← Action.askFiles (·.read (file root))
    let loaded := reader content (← get).environment
    modify fun session => { session with environment := loaded.environment }
    if let some (kind, message) := loaded.failure then throw (.foreign kind message)

/-- Adds the variables of the environment file of a project, if it has one. -/
def load (root : Path) : Action Unit := loadBy EnvironmentFile.reader root

end TreeBuild.Settings
