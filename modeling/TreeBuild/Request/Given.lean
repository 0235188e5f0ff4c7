import TreeBuild.Fault
import TreeBuild.Path.Basic

/-!
Values that are given from outside. A value is proper if it is of the kind that is asked for. Any
other value is kept as it stands, and found fault with where it is used and not before, so that what
is never used does no harm.
-/
namespace TreeBuild

/-- A value of the kind that is asked for, or another one. -/
inductive Given (α : Type) where
  | proper (value : α)
  | stray (value : Json)
  deriving Repr

namespace Given

instance {α : Type} [Inhabited α] : Inhabited (Given α) := ⟨.proper default⟩

instance {α : Type} : Coe α (Given α) := ⟨.proper⟩

/-- The text that a value is, if it is one. -/
def text : Json → Given String
  | .str units => .proper units.toStringLossy
  | value => .stray value

/-- The value that was given. -/
def toJson {α : Type} (write : α → Json) : Given α → Json
  | .proper value => write value
  | .stray value => value

/-- The text that was given, or that a message shows in its place. -/
def shown : Given String → String
  | .proper text => text
  | .stray value => value.display

/-- Whether something was given: no empty text, and no other value that stands for nothing. -/
def isSet : Given String → Bool
  | .proper text => text ≠ ""
  | .stray value => value.isTruthy

/-- The path that was given. -/
def path : Given String → Except Fault Path
  | .proper text => .ok (Path.ofString text)
  | .stray value => .error (.shape (.noPath value.kindName))

/-- The members of a list that was given. -/
def members : Given (List String) → Except Fault (List String)
  | .proper members => .ok members
  | .stray value => .error (.shape (.noSequence value.kindName))

end Given

end TreeBuild
