import TreeBuild.Json.Reader
import TreeBuild.Json.Display
import TreeBuild.Text.Blank
import TreeBuild.Text.Utf8
import TreeBuild.Tree.Walk

/-!
What can go wrong, by cause. Each cause has one message and belongs to one kind; the kind is the
name under which a failure is reported. An interruption by the user is kept among the faults, but
nothing that handles failures handles it.
-/
namespace TreeBuild

/-- The number by which the system knows a refusal. -/
def Refusal.number : Refusal → Nat
  | .noEntry => 2
  | .notExecutable => 8
  | .notPermitted => 13
  | .alreadyThere => 17
  | .notDirectory => 20
  | .isDirectory => 21
  | .nameTooLong => 36
  | .notEmpty => 39
  | .tooManyLinks => 40
  | .nullCharacter | .unnameable => 0

/-- A refusal in words. -/
def Refusal.words : Refusal → String
  | .noEntry => "No such file or directory"
  | .notExecutable => "Exec format error"
  | .notPermitted => "Permission denied"
  | .alreadyThere => "File exists"
  | .notDirectory => "Not a directory"
  | .isDirectory => "Is a directory"
  | .nameTooLong => "File name too long"
  | .notEmpty => "Directory not empty"
  | .tooManyLinks => "Too many levels of symbolic links"
  | .nullCharacter => "embedded null byte"
  | .unnameable => "surrogates not allowed"

/-- The kind of failure that a refusal is reported as. -/
def Refusal.kind : Refusal → String
  | .noEntry => "FileNotFoundError"
  | .alreadyThere => "FileExistsError"
  | .notPermitted => "PermissionError"
  | .notDirectory => "NotADirectoryError"
  | .isDirectory => "IsADirectoryError"
  | .nullCharacter => "ValueError"
  | .unnameable => "UnicodeEncodeError"
  | _ => "OSError"

/-- A failed operation on files. -/
inductive FileFault where
  /-- The system refuses the operation on this path. -/
  | refused (refusal : Refusal) (path : String)
  /-- What is to be removed with all that is below it is a plain file. -/
  | notATree (path : Path)
  /-- What is to be removed with all that is below it is a link. -/
  | linkedTree
  /-- A file is to be copied onto itself; both are given in quoted form. -/
  | sameFile (source target : String)
  /-- A file is to be copied to a path that asks for a directory, which is missing. -/
  | missingDirectory (path : Path)
  deriving DecidableEq, Repr

namespace FileFault

/-- What is said of a path whose characters at some places have no form in bytes. Only the first
stretch of them counts. -/
def unnameableMessage (path : List Char) : String :=
  let start := (path.takeWhile (!Text.isUnnameable ·)).length
  let stretch := (path.drop start).takeWhile fun c => (Text.heldSurrogate? c).isSome
  let shown := match stretch with
    | [c] => " '\\u" ++ Text.hex 4 ((Text.heldSurrogate? c).getD 0) ++ s!"' in position {start}: "
    | _ => s!"s in position {start}-{start + stretch.length - 1}: "
  "'utf-8' codec can't encode character" ++ shown ++ Refusal.unnameable.words

/-- The message of a failed operation on files. -/
def message : FileFault → String
  | .refused .nullCharacter _ => Refusal.nullCharacter.words
  | .refused .unnameable path => unnameableMessage path.toList
  | .refused refusal path =>
    s!"[Errno {refusal.number}] {refusal.words}: " ++ Text.quoted path
  | .notATree path =>
    s!"[Errno {Refusal.notDirectory.number}] {Refusal.notDirectory.words}: " ++ path.quoted
  | .linkedTree => "Cannot call rmtree on a symbolic link"
  | .sameFile source target => s!"{source} and {target} are the same file"
  | .missingDirectory path => s!"Directory does not exist: {path}"

/-- The kind under which a failed operation on files is reported. -/
def kind : FileFault → String
  | .refused refusal _ => refusal.kind
  | .notATree _ => Refusal.notDirectory.kind
  | .linkedTree => "OSError"
  | .sameFile _ _ => "SameFileError"
  | .missingDirectory _ => Refusal.noEntry.kind

/-- Whether the system itself reports the failure. -/
def isSystemFault : FileFault → Bool
  | .refused .nullCharacter _ | .refused .unnameable _ => false
  | _ => true

/-- The path that a failed operation names. -/
def path : FileFault → String
  | .refused _ path => path
  | .notATree path => path.toString
  | .linkedTree | .sameFile _ _ | .missingDirectory _ => "None"

end FileFault

/-- A value that has not the shape that is needed. Kinds of values are given by name. -/
inductive ShapeFault where
  /-- Fields are asked of a value that has none. -/
  | noFields (kind : String)
  /-- The members of a value are to be listed, but it has none. -/
  | noSequence (kind : String)
  /-- Members are asked of a value that has none. -/
  | noMembers (kind : String)
  /-- The member at this place of a list of pairs has no members itself. -/
  | noPair (index : Nat)
  /-- The member at this place of a list of pairs has not two members. -/
  | pairLength (index length : Nat)
  /-- The first member of a pair cannot name a field. -/
  | noName (kind : String)
  /-- A value cannot name a file. -/
  | noPath (kind : String)
  /-- A value is matched against a pattern although it is no text. -/
  | noText
  /-- A text that names no level. -/
  | unknownLevel (name : String)
  /-- A value that is no level; its form is given. -/
  | noLevel (shown : String)
  /-- Fields are to be given by something that has none. -/
  | noMapping (kind : String)
  /-- A name that is already taken by an argument is given to a field. -/
  | takenName (name : String)
  /-- A name that cannot be called. -/
  | notCallable (name : String)
  /-- Something is asked for that there is not. -/
  | noAttribute (name : String)
  /-- An argument that is not known, or not to be given. -/
  | unexpectedArgument (name : String)
  deriving DecidableEq, Repr

namespace ShapeFault

/-- The message for a value of the wrong shape. -/
def message : ShapeFault → String
  | .noFields kind => s!"'{kind}' object has no attribute 'get'"
  | .noSequence kind => s!"Value after * must be an iterable, not {kind}"
  | .noMembers kind => s!"'{kind}' object is not iterable"
  | .noPair index => s!"cannot convert dictionary update sequence element #{index} to a sequence"
  | .pairLength index length =>
    s!"dictionary update sequence element #{index} has length {length}; 2 is required"
  | .noName kind => s!"unhashable type: '{kind}'"
  | .noPath kind => s!"expected str, bytes or os.PathLike object, not {kind}"
  | .noText => "expected string or bytes-like object"
  | .unknownLevel name => "Unknown level: " ++ Text.quoted name
  | .noLevel shown => s!"Level not an integer or a valid string: {shown}"
  | .noMapping kind => s!"argument after ** must be a mapping, not {kind}"
  | .takenName name => s!"got multiple values for argument '{name}'"
  | .notCallable name => s!"'{name}' object is not callable"
  | .noAttribute name => s!"'ContextLogger' object has no attribute '{name}'"
  | .unexpectedArgument name =>
    s!"BuildRequest.__init__() got an unexpected keyword argument '{name}'"

/-- The kind under which a value of the wrong shape is reported. -/
def kind : ShapeFault → String
  | .noFields _ | .noAttribute _ => "AttributeError"
  | .pairLength _ _ | .unknownLevel _ => "ValueError"
  | _ => "TypeError"

end ShapeFault

/-- A request that cannot be carried out as it stands. -/
inductive Misconfiguration where
  /-- The output format, in quoted form, is none of those known. -/
  | unknownFormat (format : String) (known : List String)
  | stdinFileMissing
  | noWriteWithoutSource
  /-- The target, in quoted form, is none of those known. -/
  | unsupportedTarget (target : String)
  | formatExcludesTarget
  | noSourceDirectory (path : Path)
  deriving DecidableEq, Repr

/-- The message for a request that cannot be carried out. -/
def Misconfiguration.message : Misconfiguration → String
  | .unknownFormat format known =>
    s!"Unknown output format {format}; expected one of " ++ String.intercalate ", " known
  | .stdinFileMissing =>
    "--stdin-file must be specified to emulate a file location when using stdin."
  | .noWriteWithoutSource => "--no-write is only supported for literal (stdin) input."
  | .unsupportedTarget target => s!"Unsupported target {target}"
  | .formatExcludesTarget => "esm output cannot target es5; use --format cjs"
  | .noSourceDirectory path => s!"Source directory {path} does not exist"

/-- A failure of one of the optional stages. -/
inductive AuxiliaryFault where
  /-- A tool ended with this status; the detail is cut to a readable length. -/
  | toolFailed (tool : String) (status : Int) (detail : String)
  | binaryEntryMissing (path : Path)
  deriving DecidableEq, Repr

/-- The longest detail that is shown of what a failed tool wrote. -/
def maxDetail : Nat := 500

/-- The message of a failed optional stage. -/
def AuxiliaryFault.message : AuxiliaryFault → String
  | .toolFailed tool status detail =>
    s!"{tool} exited with status {status}: " ++ String.ofList (detail.toList.take maxDetail)
  | .binaryEntryMissing path => s!"Binary entry point {path} does not exist"

/-- What can go wrong. -/
inductive Fault where
  | configuration (cause : Misconfiguration)
  /-- The compiler rejects its input; the diagnostic is what it wrote about it. -/
  | compile (summary diagnostic : String)
  /-- An asset could not be copied. -/
  | asset (cause : FileFault)
  | auxiliary (cause : AuxiliaryFault)
  | file (cause : FileFault)
  | json (cause : Json.ReadError)
  /-- A file is not UTF-8. -/
  | undecodable (cause : Text.Utf8.Error)
  | shape (cause : ShapeFault)
  /-- A path has no last part to replace. -/
  | emptyName (path : Path)
  /-- A path leads into a loop of links. -/
  | linkLoop (path : Path)
  /-- A name that no environment variable can have. -/
  | badVariable (name : String)
  /-- A failure of code that is not part of this library. -/
  | foreign (kind message : String)
  /-- The user interrupts. -/
  | interrupted
  deriving DecidableEq, Repr

namespace Fault

/-- The text without white space at its ends. -/
def trimmed (text : String) : String :=
  String.ofList (Text.trim Text.isBlank text.toList)

/-- The message of a fault. -/
def message : Fault → String
  | .configuration cause => cause.message
  | .compile summary diagnostic =>
    if diagnostic = "" then summary else summary ++ "\n" ++ trimmed diagnostic
  | .asset cause => s!"Failed to copy {cause.path}: {cause.message}"
  | .auxiliary cause => cause.message
  | .file cause => cause.message
  | .json cause => cause.message
  | .undecodable cause => cause.message
  | .shape cause => cause.message
  | .emptyName path => path.quoted ++ " has an empty name"
  | .badVariable _ => "illegal environment variable name"
  | .linkLoop path => "Symlink loop from " ++ Text.quoted path.toString
  | .foreign _ message => message
  | .interrupted => ""

/-- The kind under which a fault is reported. -/
def kind : Fault → String
  | .configuration _ => "ConfigurationError"
  | .compile _ _ => "CompileError"
  | .asset _ => "AssetIOError"
  | .auxiliary _ => "AuxiliaryStageError"
  | .file cause => cause.kind
  | .json (.malformed _ _ _ _) => "JSONDecodeError"
  | .json (.hugeNumber _) => "ValueError"
  | .json (.tooDeep _) => "RecursionError"
  | .undecodable _ => "UnicodeDecodeError"
  | .shape cause => cause.kind
  | .emptyName _ | .badVariable _ => "ValueError"
  | .linkLoop _ => "RuntimeError"
  | .foreign kind _ => kind
  | .interrupted => "KeyboardInterrupt"

/-- Whether a fault is one that a build foresees. -/
def isExpected : Fault → Bool
  | .configuration _ | .compile _ _ | .asset _ | .auxiliary _ => true
  | _ => false

/-- Whether a fault is the user's interruption, which no stage swallows. -/
def isInterruption : Fault → Bool
  | .interrupted => true
  | _ => false

/-- What is reported of a fault on standard output: its kind and message, and for a rejected input
the diagnostic apart from the summary. -/
def report (fault : Fault) : Json :=
  let head := [("ok", Json.bool false), ("type", Json.ofString fault.kind)]
  match fault with
  | .compile summary diagnostic =>
    .ofFields (head ++ [("error", .ofString summary), ("diagnostic", .ofString (trimmed diagnostic))])
  | _ => .ofFields (head ++ [("error", .ofString fault.message)])

end Fault

end TreeBuild
