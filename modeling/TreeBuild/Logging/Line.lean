import TreeBuild.Json.Printer
import TreeBuild.Logging.Registry

/-!
The written form of log records: a line of text with the fields of the record behind the message, or
one structured value in which a field of the record replaces what it has the name of.
-/
namespace TreeBuild.Logging

/-- A failure that a record tells of. -/
structure Failure where
  kind : String
  /-- The kind with the part of the program that defines it. -/
  fullKind : String
  message : String
  deriving Repr

/-- A record together with the time at which it was made. -/
structure Entry where
  time : String
  record : Record
  failure : Option Failure := none
  deriving Repr

/-- The failure in one line, or in several if its message has several. -/
def Failure.line (failure : Failure) : String :=
  if failure.message = "" then failure.fullKind else failure.fullKind ++ ": " ++ failure.message

/-- The message of a record, and the failure on a line of its own. -/
def Entry.withFailure (entry : Entry) (message : String) : String :=
  match entry.failure with
  | none => message
  | some failure =>
    message ++ (if message.toList.getLast? = some '\n' then "" else "\n") ++ failure.line

/-- A record as a line of text. -/
def Entry.text (entry : Entry) : String :=
  let record := entry.record
  let head := s!"{entry.time} {record.level.name} {record.source}: {record.message}"
  let fields := record.fields.map fun field => " " ++ field.1 ++ "=" ++ field.2.display
  entry.withFailure head ++ String.join fields

/-- A failure as a structured value. -/
def Failure.json (failure : Failure) : Json :=
  .ofFields [("type", .ofString failure.kind), ("message", .ofString failure.message),
    ("traceback", .ofStrings [failure.line ++ "\n"])]

/-- A record as a structured value. -/
def Entry.json (entry : Entry) : Json :=
  let record := entry.record
  let head := [("timestamp", Json.ofString entry.time), ("level", .ofString record.level.name),
    ("logger", .ofString record.source), ("message", .ofString record.message)]
    ++ (entry.failure.map fun failure => ("exception", failure.json)).toList
  let fields := (head ++ record.fields).foldl (fun (fields : Json.Fields) field =>
    fields.set field.1 field.2) []
  .obj fields

/-- The written form of a record. -/
def Entry.write (entry : Entry) : Style → String
  | .text => entry.text ++ "\n"
  | .json => entry.json.compact ++ "\n"
  | .bare => entry.withFailure entry.record.message ++ "\n"

/-- What is written of a record: nothing if its level is too low, and otherwise its form for every
handler. A record that no handler takes is written bare if it is at least a warning. -/
def Registry.write (registry : Registry) (entry : Entry) : String :=
  let level := number entry.record.level
  let name := entry.record.source
  if !registry.isEnabled name level then ""
  else
    let handlers := match registry.handlers name with
      | [] => if number .warning ≤ level then [Style.bare] else []
      | handlers => handlers
    String.join (handlers.map entry.write)

end TreeBuild.Logging
