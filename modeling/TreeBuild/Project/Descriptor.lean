import TreeBuild.Session
import TreeBuild.Project.Layout

/-!
The descriptor of a project. A missing or malformed one counts as empty, so that every question to
it has an answer; only one that is not an object at all is a fault.
-/
namespace TreeBuild.Descriptor

/-- The value that the descriptor holds. -/
def read (layout : Layout) : Action Json := do
  match ← Action.attempt (Action.readText layout.descriptor) with
  | .error (.file (.refused .noEntry _)) => return .obj []
  | .error fault => throw fault
  | .ok text =>
    match Json.read text with
    | .ok value => return value
    | .error (.malformed _ _ _ _) => return .obj []
    | .error fault => throw (.json fault)

/-- The fields of a value, which must be an object. -/
def fieldsOf (value : Json) : Except Fault Json.Fields :=
  match value with
  | .obj fields => .ok fields
  | value => .error (.shape (.noFields value.kindName))

/-- The value of a field of a descriptor, unless it is missing, null, false, zero or empty. -/
def givenIn? (descriptor : Json) (name : String) : Except Fault (Option Json) := do
  return ((← fieldsOf descriptor).find? name).bind Json.given?

/-- The value of a field of the descriptor of a project. -/
def given? (layout : Layout) (name : String) : Action (Option Json) := do
  match givenIn? (← read layout) name with
  | .error fault => throw fault
  | .ok value => return value

/-- The path that a value names, which must be text. -/
def pathOf (value : Json) : Except Fault Path :=
  match value with
  | .str units => .ok (Path.ofString units.toName)
  | value => .error (.shape (.noPath value.kindName))

/-- The path that a field of the descriptor names, read from the root, or a default. -/
def path (layout : Layout) (name : String) (default : Path) : Action Path := do
  match ← given? layout name with
  | none => return layout.resolve default
  | some value =>
    match pathOf value with
    | .ok path => return layout.resolve path
    | .error fault => throw fault

end TreeBuild.Descriptor
