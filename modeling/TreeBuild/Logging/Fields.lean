import TreeBuild.Fault
import TreeBuild.Json.Access
import TreeBuild.Session

/-!
The fields of log records as they are given by name. A name that already belongs to what is done
with the fields cannot be used, and a failure among them is told of in its own way.
-/
namespace TreeBuild.Logging

/-- Named values. -/
abbrev NamedValues := List (String × Json)

/-- The names that no field of a context can have. -/
def contextNames : List String := ["self", "logger"]

/-- The names that no field of a record can have. -/
def recordNames : List String := ["self", "msg", "level"]

/-- The name under which a record is given its failure. -/
def failureName : String := "exc_info"

/-- The named values that are given, none of which may have a name that is taken. -/
def namedValues (taken : List String) (given : Json) : Except Fault NamedValues :=
  match given with
  | .null => .ok []
  | .obj _ =>
    match given.entries.find? fun entry => taken.contains entry.1 with
    | some entry => .error (.shape (.takenName entry.1))
    | none => .ok given.entries
  | value => .error (.shape (.noMapping value.kindName))

/-- The fields of a context that is given in several steps, a later one over the earlier ones. -/
def contextOf (given : List Json) : Except Fault NamedValues :=
  given.foldlM (fun fields more => do
    return Record.joinFields fields (← namedValues contextNames more)) []

/-- The fields that are given with a record, without its failure. -/
def recordFields (given : Json) : Except Fault NamedValues := do
  return (← namedValues recordNames given).filter fun entry => entry.1 ≠ failureName

/-- The level that the name of a way to log stands for. -/
def levelNamed (name : String) : Except Fault Level :=
  match [Level.debug, .info, .warning, .error].find? fun level => level.name.toLower = name with
  | some level => .ok level
  | none =>
    .error (.shape (if ["bind", "_log", "context", "logger", "isEnabledFor"].contains name then
      .notCallable name else .noAttribute name))

end TreeBuild.Logging
