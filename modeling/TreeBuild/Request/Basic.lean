import TreeBuild.Fault
import TreeBuild.Project.Sources
import TreeBuild.Request.Given
import TreeBuild.Request.Target

/-!
What a build is asked to do. A request is made from loose arguments, which checks the combinations
of its options and settles those that follow from others; from then on it does not change, except
that it can be narrowed to a single file.
-/
namespace TreeBuild

/-- How the modules of the output are linked. -/
inductive OutputFormat where
  | esm
  | cjs
  deriving DecidableEq, Repr, Inhabited

namespace OutputFormat

/-- All formats. -/
def all : List OutputFormat := [.esm, .cjs]

/-- The name of a format. -/
def name : OutputFormat → String
  | .esm => "esm"
  | .cjs => "cjs"

/-- The linkage that a package declares for a format. -/
def packageType : OutputFormat → String
  | .esm => "module"
  | .cjs => "commonjs"

/-- The format of a name. -/
def ofName? (name : String) : Option OutputFormat :=
  all.find? fun format => format.name = name

end OutputFormat

/-- Whom a build is for. -/
inductive BuildMode where
  | development
  | production
  deriving DecidableEq, Repr, Inhabited

namespace BuildMode

/-- The name of a mode. -/
def name : BuildMode → String
  | .development => "development"
  | .production => "production"

/-- The mode of a name. -/
def ofName? (name : String) : Option BuildMode :=
  [development, production].find? fun mode => mode.name = name

end BuildMode

/-- What a build is asked to do. -/
structure Request where
  /-- The sources, as a pattern or an absolute path. -/
  input : Given String := "src/**/*"
  /-- A text to compile instead of files. -/
  literalSource : Option String := none
  /-- Where the text is taken to come from. -/
  stdinFile : Option (Given String) := none
  format : OutputFormat := .esm
  mode : BuildMode := .production
  target : Given String := "esnext"
  tsconfig : Given String := "tsconfig.json"
  styles : Given String := "src/components/index.css"
  bundle : Bool := false
  standalone : Bool := false
  binary : Bool := false
  /-- Whether to stop once the output can be run. -/
  runtimeOnly : Bool := false
  /-- Whether to leave out styles and binaries. -/
  jsOnly : Bool := false
  /-- Whether to return the compiled text instead of writing it. -/
  noWrite : Bool := false
  /-- Whether to remove the old output first. -/
  clear : Bool := true
  /-- Packages that bundles leave outside. -/
  external : Given (List String) := .proper []
  deriving Repr, Inhabited

namespace Request

/-- Whether the build is for development. -/
def isDevelopment (request : Request) : Bool := request.mode = .development

/-- Whether a text is compiled instead of files. -/
def isLiteral (request : Request) : Bool := request.literalSource.isSome

/-- Whether the input is one absolute path. -/
def isSinglePath (request : Request) : Except Fault Bool :=
  if request.isLiteral then .ok false else request.input.path.map Path.isAbsolute

/-- Whether bundles share chunks of code. -/
def splitting (request : Request) : Bool :=
  request.bundle && !request.standalone && !request.isLiteral && request.format = .esm

/-- Whether it is said where a text that is compiled is taken to come from. -/
def hasPlace (request : Request) : Bool := request.stdinFile.any Given.isSet

/-- Why a target cannot be compiled to in a format. -/
def targetFault? (format : OutputFormat) : Given String → Option Fault
  | .stray _ => some (.shape .noText)
  | .proper target =>
    if !Target.accepts target then
      some (.configuration (.unsupportedTarget (Text.quoted target)))
    else if format = .esm && target = "es5" then some (.configuration .formatExcludesTarget)
    else none

/-- The first reason why a request cannot be carried out. -/
def fault? (request : Request) : Option Fault :=
  if request.isLiteral && !request.hasPlace then some (.configuration .stdinFileMissing)
  else if request.noWrite && !request.isLiteral then some (.configuration .noWriteWithoutSource)
  else targetFault? request.format request.target

/-- The request with the options settled that follow from others: development stops once the
output can be run, and a standalone build bundles. -/
def settled (request : Request) : Request :=
  { request with
    runtimeOnly := request.runtimeOnly || request.isDevelopment
    bundle := request.bundle || request.standalone }

/-- The settled request, if it can be carried out. -/
def normalized (request : Request) : Except Fault Request :=
  match request.fault? with
  | some fault => .error fault
  | none => .ok request.settled

/-- The fault of a format, in quoted form, that is none of those known. -/
def unknownFormat (format : String) : Fault :=
  .configuration (.unknownFormat format (OutputFormat.all.map OutputFormat.name))

/-- The format that is given by name. -/
def formatOf : Given String → Except Fault OutputFormat
  | .stray value => .error (unknownFormat value.quoted)
  | .proper name => (OutputFormat.ofName? name).elim (.error (unknownFormat (Text.quoted name))) .ok

/-- Makes a request: the format is given by name, and what the options leave open is settled. -/
def create (development : Bool) (format : Given String) (options : Request) :
    Except Fault Request := do
  let format ← formatOf format
  normalized { options with format, mode := if development then .development else .production }

/-- The request for a single file. -/
def forFile (request : Request) (path : Path) : Request :=
  { request with input := .proper path.toString, literalSource := none, noWrite := false }

/-- The request for the file that a path leads to. -/
def forPath (tree : Tree) (request : Request) (path : Path) : Except Fault Request := do
  return request.forFile (← Sources.resolvePath tree path)

end Request

end TreeBuild
