import TreeBuild.Compiler.Options
import TreeBuild.Request.Basic

/-!
Requests from named arguments whose values may be anything. An argument of the wrong kind is kept
as it is and shows only where it is used: an option counts as set if its value is not empty, and a
target that is no text cannot be compared with the known ones. `Draft` is a request in this state.
-/
namespace TreeBuild

/-- A request whose fields other than format and mode hold any value. -/
structure Draft where
  format : OutputFormat
  mode : BuildMode
  fields : Json.Fields
  deriving Repr

namespace Draft

/-- The fields of a request and their values when they are not given. -/
def defaults : Json.Fields :=
  let standard : Request := {}
  let text (given : Given String) := given.toJson Json.ofString
  [("input", text standard.input), ("literal_source", .null), ("stdin_file", .null),
   ("target", text standard.target), ("tsconfig", text standard.tsconfig),
   ("styles", text standard.styles), ("bundle", .bool false), ("standalone", .bool false),
   ("binary", .bool false), ("runtime_only", .bool false), ("js_only", .bool false),
   ("no_write", .bool false), ("clear", .bool true), ("external", .arr [])].map fun field =>
    (Text.Units.ofString field.1, field.2)

/-- The value of a field. -/
def get (draft : Draft) (name : String) : Json :=
  (draft.fields.find? name).getD .null

/-- Whether an option is set. -/
def has (draft : Draft) (name : String) : Bool := (draft.get name).isTruthy

/-- The draft with another value of a field. -/
def set (draft : Draft) (name : String) (value : Json) : Draft :=
  { draft with fields := draft.fields.set name value }

/-- The members of a value that is read as a sequence. -/
def members (value : Json) : Except Fault (List Json) :=
  match value.members? with
  | some members => .ok members
  | none => .error (.shape (.noMembers value.kindName))

/-- The draft with these arguments, every name of which must be known. -/
def ofFields (format : OutputFormat) (mode : BuildMode) (arguments : Json.Fields) :
    Except Fault Draft :=
  match List.find? (fun argument => (defaults.get? argument.1).isNone) arguments with
  | some argument => .error (.shape (.unexpectedArgument argument.1.toStringLossy))
  | none =>
    .ok { format, mode
          fields := arguments.foldl (fun fields argument => fields.put argument.1 argument.2) defaults }

/-- The arguments with the externals read as a sequence; without any if they are null. -/
def settleExternals (arguments : Json.Fields) : Except Fault Json.Fields := do
  let name := Text.Units.ofString "external"
  match arguments.get? name with
  | none => return arguments
  | some .null => return arguments.filter fun argument => argument.1 ≠ name
  | some value => return arguments.put name (.arr (← members value))

/-- The text to compile: another value that counts as given is taken by the text that shows it. -/
def literalSource (draft : Draft) : Option String :=
  match draft.get "literal_source" with
  | .null => none
  | value => some ((value.given?.map Json.display).getD "")

/-- The externals: the members of whatever has members. -/
def external (draft : Draft) : Given (List String) :=
  let value := draft.get "external"
  value.members?.elim (.stray value) fun members => .proper (members.map Json.display)

/-- The request of a draft: options count by whether they are set. -/
def toRequest (draft : Draft) : Request :=
  { input := .text (draft.get "input")
    literalSource := draft.literalSource
    stdinFile :=
      match draft.get "stdin_file" with
      | .null => none
      | value => some (.text value)
    format := draft.format
    mode := draft.mode
    target := .text (draft.get "target")
    tsconfig := .text (draft.get "tsconfig")
    styles := .text (draft.get "styles")
    bundle := draft.has "bundle"
    standalone := draft.has "standalone"
    binary := draft.has "binary"
    runtimeOnly := draft.has "runtime_only"
    jsOnly := draft.has "js_only"
    noWrite := draft.has "no_write"
    clear := draft.has "clear"
    external := draft.external }

/-- A value that stands for no, as a number would: false or zero. -/
def isZero : Json → Bool
  | .bool value => !value
  | .int value => value == 0
  | .float value => value.isZero
  | _ => false

/-- The value of an option that another one implies, and whether it is the value it had. -/
def implied (value other : Json) : Json × Bool :=
  if value.isTruthy then
    match value with
    | .float .nan => (value, false)
    | _ => (value, true)
  else
    match value, other with
    | .null, .null => (other, true)
    | .str _, .str text => (other, text.isEmpty)
    | .arr _, .arr items => (other, items.isEmpty)
    | .obj _, .obj fields => (other, fields.isEmpty)
    | _, _ => (other, isZero value && isZero other)

/-- The draft with the options settled that follow from others, if it can be carried out, and
whether that changes anything. An option that already has an equal value keeps its own. -/
def normalized (draft : Draft) : Except Fault (Draft × Bool) := do
  match draft.toRequest.fault? with
  | some fault => .error fault
  | none =>
    let (runtimeOnly, sameRuntime) :=
      implied (draft.get "runtime_only") (.bool (draft.mode = .development))
    let (bundle, sameBundle) := implied (draft.get "bundle") (draft.get "standalone")
    if sameRuntime && sameBundle then return (draft, true)
    else return ((draft.set "runtime_only" runtimeOnly).set "bundle" bundle, false)

/-- The draft for the file that a path leads to. -/
def forPath (tree : Tree) (draft : Draft) (path : Path) : Except Fault Draft := do
  let resolved ← Sources.resolvePath tree path
  return ((draft.set "input" (.ofString resolved.toString)).set "literal_source" .null).set
    "no_write" (.bool false)

/-- Makes a draft from named arguments: `dev` and `format` choose mode and format, and the draft is
normalized. -/
def create (arguments : Json.Fields) : Except Fault Draft := do
  let format ← match arguments.find? "format" with
    | none => pure .esm
    | some format => Request.formatOf (.text format)
  let mode := if ((arguments.find? "dev").getD .null).isTruthy then .development else .production
  let others ← settleExternals (arguments.filter fun argument =>
    argument.1 ≠ Text.Units.ofString "dev" ∧ argument.1 ≠ Text.Units.ofString "format")
  return (← (← ofFields format mode others).normalized).1

/-- Makes a draft from named arguments without checking or settling anything; format and mode are
given by name. -/
def bare (arguments : Json.Fields) : Except Fault Draft := do
  let unknown (kind : String) (value : Json) : Fault :=
    .foreign "ValueError" (value.quoted ++ s!" is not a valid {kind}")
  let format ← match arguments.find? "format" with
    | none => pure .esm
    | some value =>
      match OutputFormat.ofName? value.display with
      | some format => pure format
      | none => throw (unknown "OutputFormat" value)
  let mode ← match arguments.find? "mode" with
    | none => pure .production
    | some value =>
      match BuildMode.ofName? value.display with
      | some mode => pure mode
      | none => throw (unknown "BuildMode" value)
  ofFields format mode (arguments.filter fun argument =>
    argument.1 ≠ Text.Units.ofString "mode" ∧ argument.1 ≠ Text.Units.ofString "format")

/-- Whether bundles share chunks of code; a bundle option that is not set is given as it is. -/
def splitting (draft : Draft) : Json :=
  if draft.has "bundle" then .bool draft.toRequest.splitting else draft.get "bundle"

/-- What an answer about the options of the compiler takes over from a draft as it stands. -/
def takenOver (draft : Draft) : List (String × Json) :=
  let external := if draft.has "bundle" then
      CompilerOptions.standardExternals.map Json.ofString
        ++ ((draft.get "external").members?.getD [])
    else []
  [("target", draft.get "target"), ("bundle", draft.get "bundle"),
   ("splitting", draft.splitting), ("external", .arr external)]

/-- All fields of a draft and what follows from them. -/
def describe (draft : Draft) : Except Fault Json := do
  let single ← draft.toRequest.isSinglePath
  return .obj (Json.Fields.ofPairs (draft.fields ++
    [("format", Json.ofString draft.format.name), ("mode", .ofString draft.mode.name),
     ("development", .bool (draft.mode = .development)), ("is_literal", .bool draft.toRequest.isLiteral),
     ("is_single_path", .bool single), ("splitting", draft.splitting),
     ("package_type", .ofString draft.format.packageType)].map fun field =>
      (Text.Units.ofString field.1, field.2)))

/-- The draft that holds a request. -/
def ofRequest (request : Request) : Draft :=
  { format := request.format
    mode := request.mode
    fields :=
      [("input", request.input.toJson .ofString),
       ("literal_source", Json.ofOption Json.ofString request.literalSource),
       ("stdin_file", Json.ofOption (Given.toJson .ofString) request.stdinFile),
       ("target", request.target.toJson .ofString),
       ("tsconfig", request.tsconfig.toJson .ofString),
       ("styles", request.styles.toJson .ofString), ("bundle", .bool request.bundle),
       ("standalone", .bool request.standalone), ("binary", .bool request.binary),
       ("runtime_only", .bool request.runtimeOnly), ("js_only", .bool request.jsOnly),
       ("no_write", .bool request.noWrite), ("clear", .bool request.clear),
       ("external", request.external.toJson .ofStrings)].map fun field =>
        (Text.Units.ofString field.1, field.2) }

end Draft

end TreeBuild
