import TreeBuild.Project.Descriptor
import TreeBuild.Json.Printer
import TreeBuild.Request.Basic

/-!
The options of the compiler: what a request and the project's descriptor ask of it, and the flags
that say so. A call for a single text never splits chunks, and a mere transformation has none of
the flags that concern bundles.
-/
namespace TreeBuild

/-- A named addition to the compiler's options. -/
structure CompilerPlugin where
  name : String
  /-- The import patterns that bundles leave outside. -/
  externals : List String
  deriving DecidableEq, Repr

/-- Relative imports stay imports instead of being inlined. -/
def relativeExternals : CompilerPlugin :=
  { name := "relative-externs", externals := ["./*", "../*"] }

/-- The options of the compiler. -/
structure CompilerOptions where
  target : String
  format : OutputFormat
  minify : Bool
  bundle : Bool
  splitting : Bool
  /-- Names that are replaced by a text wherever they occur. -/
  define : List (String × String)
  external : List String
  platform : String
  tsconfig : Option Path
  banner : Option String
  plugins : List CompilerPlugin
  charset : String := "utf8"
  logLevel : String
  deriving DecidableEq, Repr

/-- What the compiler is called for. -/
inductive CompilerUse where
  /-- Several files, each to an output of its own. -/
  | entryPoints
  /-- One text, to one output. -/
  | buffer
  /-- One text, to standard output. -/
  | transform
  deriving DecidableEq, Repr

namespace CompilerOptions

/-- The function that markup is compiled to. -/
def markupFactory : String := "React.createElement"

/-- What is left outside every bundle. -/
def standardExternals : List String := ["esbuild", "*.png"]

/-- The platform unless the descriptor names another one. -/
def defaultPlatform : String := "node"

/-- The code in front of bundles that lets linked modules require others. -/
def requireBanner : String :=
  "import \x7b createRequire as __modbuildCreateRequire \x7d from \"module\";"
    ++ "const require = __modbuildCreateRequire(import.meta.url);"

/-- What a request leaves outside its bundles. -/
def externalsOf (request : Request) : Except Fault (List String) := do
  if request.bundle then return standardExternals ++ (← request.external.members) else return []

/-- The options for a request in a project with a descriptor. -/
def choose (request : Request) (descriptor : Json) (tsconfig : Option Path) :
    Except Fault CompilerOptions := do
  let external ← externalsOf request
  let platform ← Descriptor.givenIn? descriptor "platform"
  return {
    target := request.target.shown
    format := request.format
    minify := !request.isDevelopment
    bundle := request.bundle
    splitting := request.splitting
    define := [("process.env.NODE_ENV", (Json.ofString request.mode.name).compact)]
    external
    platform := (platform.map Json.display).getD defaultPlatform
    tsconfig
    banner := if request.bundle && request.format = .esm then some requireBanner else none
    plugins := if request.standalone then [] else [relativeExternals]
    logLevel := if request.isDevelopment then "warning" else "error" }

/-- The options for a request. -/
def ofRequest (request : Request) (layout : Layout) (tsconfig : Option Path) :
    Action CompilerOptions := do
  let descriptor ← Descriptor.read layout
  Action.ask fun _ => choose request descriptor tsconfig

/-- A flag with a value. -/
def valued (name value : String) : String := s!"--{name}={value}"

/-- The flags that every call has. -/
def commonFlags (options : CompilerOptions) : List String :=
  [valued "target" options.target, valued "format" options.format.name,
   valued "charset" options.charset, "--jsx=transform", valued "jsx-factory" markupFactory,
   valued "log-level" options.logLevel]
    ++ (if options.minify then ["--minify"] else [])
    ++ options.define.map fun item => s!"--define:{item.1}={item.2}"

/-- The flag that leaves a pattern outside of bundles. -/
def externalFlag (pattern : String) : String := s!"--external:{pattern}"

/-- The flags that concern bundles. -/
def bundleFlags (options : CompilerOptions) (use : CompilerUse) : List String :=
  if options.bundle then
    ["--bundle", "--tree-shaking=true"]
      ++ options.external.map externalFlag
      ++ options.plugins.flatMap (fun plugin => plugin.externals.map externalFlag)
      ++ (if options.splitting && use ≠ .buffer then ["--splitting"] else [])
      ++ (options.banner.toList.filter (· ≠ "")).map fun banner => s!"--banner:js={banner}"
  else []

/-- The flags of a call. -/
def flags (options : CompilerOptions) (use : CompilerUse) : List String :=
  if use = .transform then options.commonFlags
  else
    options.commonFlags ++ [valued "platform" options.platform]
      ++ options.tsconfig.toList.map (fun path => valued "tsconfig" path.toString)
      ++ options.bundleFlags use

/-- What is told of the options. -/
def summary (options : CompilerOptions) : List (String × Json) :=
  [("target", .ofString options.target), ("format", .ofString options.format.name),
   ("minify", .bool options.minify), ("bundle", .bool options.bundle),
   ("splitting", .bool options.splitting),
   ("define", .ofFields (options.define.map fun item => (item.1, .ofString item.2))),
   ("external", .ofStrings options.external), ("platform", .ofString options.platform),
   ("banner", .ofOption .ofString options.banner),
   ("plugins", .ofStrings (options.plugins.map (·.name))),
   ("log_level", .ofString options.logLevel)]

end CompilerOptions

end TreeBuild
