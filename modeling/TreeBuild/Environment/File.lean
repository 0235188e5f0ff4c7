import TreeBuild.Environment
import TreeBuild.Fault

/-!
Environment files. The program leaves the reading of them to another library, so how they are read is up to
a reader that the program is given. `reader` follows what that library documents: lines of the form
`name=value`, with `export` before the name or not, comments, and values in quotes that may span lines. A
value refers to other variables as `${name}`, or as `${name:-instead}` with a text for the case that there
is no such variable. What an environment file says never replaces a variable that is set already.
-/
namespace TreeBuild.EnvironmentFile

/-- The environment behind the reading of an environment file. -/
structure Loaded where
  environment : Environment
  /-- The kind and the message of the failure that the reading has ended with. -/
  failure : Option (String × String) := none
  deriving DecidableEq, Repr

/-- A reader of environment files: what the content of a file makes of the variables. -/
abbrev Reader := Text.Bytes → Environment → Loaded

/-- A name with the text that stands for its value; without an equals sign there is none. -/
structure Binding where
  name : String
  value : Option String
  deriving DecidableEq, Repr

/-- White space within a line. -/
def isSpace (c : Char) : Bool := Text.isBlank c && c ≠ '\n' && c ≠ '\r'

/-- The text without the white space that it begins with, on the same line. -/
def skipSpaces (text : List Char) : List Char := text.dropWhile isSpace

/-- Whether a character belongs to a line. -/
def inLine (c : Char) : Bool := c ≠ '\n' && c ≠ '\r'

/-- The text after the next line end. -/
def skipLine (text : List Char) : List Char :=
  match text.dropWhile inLine with
  | '\r' :: '\n' :: rest => rest
  | _ :: rest => rest
  | [] => []

/-! ### Quoted values -/

/-- The text up to the first quote that has no backslash before it, and the text after that quote. -/
def upToFree (quote before : Char) : List Char → Option (List Char × List Char)
  | [] => none
  | c :: rest =>
    if c = quote ∧ before ≠ '\\' then some ([], rest)
    else (upToFree quote c rest).map fun parts => (c :: parts.1, parts.2)

/-- The text up to the last quote, and the text after it. -/
def upToLast (quote : Char) : List Char → Option (List Char × List Char)
  | [] => none
  | c :: rest =>
    match upToLast quote rest with
    | some (inside, after) => some (c :: inside, after)
    | none => if c = quote then some ([], rest) else none

/-- The inside of a quoted value whose opening quote has been read, and the text after it. If every
quote has a backslash before it, the last of them closes the value. -/
def quotedText? (quote : Char) (text : List Char) : Option (List Char × List Char) :=
  (upToFree quote quote text).orElse fun _ => upToLast quote text

/-- What stands for a character after a backslash in double quotes. -/
def doubleEscapes : List (Char × Char) :=
  [('\\', '\\'), ('\'', '\''), ('"', '"'), ('a', '\x07'), ('b', '\x08'), ('f', '\x0c'),
   ('n', '\n'), ('r', '\r'), ('t', '\t'), ('v', '\x0b')]

/-- What stands for a character after a backslash in single quotes. -/
def singleEscapes : List (Char × Char) := [('\\', '\\'), ('\'', '\'')]

/-- The text with its escapes read; a backslash before any other character stays. -/
def unescape (escapes : List (Char × Char)) : List Char → List Char
  | '\\' :: c :: rest =>
    match escapes.lookup c with
    | some meant => meant :: unescape escapes rest
    | none => '\\' :: unescape escapes (c :: rest)
  | c :: rest => c :: unescape escapes rest
  | [] => []

/-! ### Lines -/

/-- The part of an unquoted value before a comment, which white space sets off. -/
def beforeComment : List Char → List Char
  | [] => []
  | c :: rest =>
    if Text.isBlank c && (rest.dropWhile Text.isBlank).head? = some '#' then []
    else c :: beforeComment rest

/-- The value at the beginning of the text, and what follows it. -/
def readValue : List Char → Option (List Char × List Char)
  | '\'' :: text =>
    (quotedText? '\'' text).map fun parts => (unescape singleEscapes parts.1, parts.2)
  | '"' :: text =>
    (quotedText? '"' text).map fun parts => (unescape doubleEscapes parts.1, parts.2)
  | text => some (Text.trimEnd Text.isBlank (beforeComment (text.takeWhile inLine)),
      text.dropWhile inLine)

/-- The text after `export`, if that stands at the beginning as a word of its own. -/
def skipExport (text : List Char) : List Char :=
  let word := "export".toList
  let after := text.drop word.length
  if word.isPrefixOf text && after.head?.any isSpace then skipSpaces after else text

/-- Whether a character can belong to a name that is not quoted. -/
def inName (c : Char) : Bool := c ≠ '=' && c ≠ '#' && !Text.isBlank c

/-- The name at the beginning of the text, and what follows it. -/
def readName : List Char → Option (List Char × List Char)
  | '\'' :: text =>
    match Text.cut? '\'' text with
    | some ([], _) | none => none
    | some parts => some parts
  | text =>
    let name := text.takeWhile inName
    if name = [] then none else some (name, text.dropWhile inName)

/-- What is left to read, and the binding that was read if there was one. -/
abbrev Read := Option Binding × List Char

/-- Reads the rest of a line, where only white space and a comment may stand. If anything else
does, the binding does not count. -/
def endLine (binding : Option Binding) (text : List Char) : Read :=
  match skipSpaces text with
  | '#' :: rest => (binding, skipLine rest)
  | [] => (binding, [])
  | c :: rest => if inLine c then (none, skipLine rest) else (binding, skipLine (c :: rest))

/-- Reads the next binding or comment. -/
def readNext (text : List Char) : Read :=
  match skipExport (text.dropWhile Text.isBlank) with
  | [] => (none, [])
  | '#' :: rest => (none, skipLine rest)
  | start =>
    match readName start with
    | none => (none, skipLine start)
    | some (name, rest) =>
      match skipSpaces rest with
      | '=' :: rest =>
        match readValue (skipSpaces rest) with
        | none => (none, skipLine (skipSpaces rest))
        | some (value, rest) =>
          endLine (some ⟨String.ofList name, some (String.ofList value)⟩) rest
      | rest => endLine (some ⟨String.ofList name, none⟩) rest

/-- Reads bindings as long as the fuel lasts; each takes at least one character. -/
def readFor : Nat → List Char → List Binding
  | 0, _ => []
  | _, [] => []
  | fuel + 1, text =>
    match readNext text with
    | (some binding, rest) => binding :: readFor fuel rest
    | (none, rest) => readFor fuel rest

/-- The bindings of an environment file, in their order. -/
def read (text : String) : List Binding :=
  readFor text.length text.toList

/-! ### References to other variables -/

/-- A reference whose opening has been read: the name, the text to use instead, and what follows. -/
def readReference (text : List Char) : Option (List Char × List Char × List Char) :=
  let name := text.takeWhile fun c => c ≠ '}' && c ≠ ':'
  match text.drop name.length with
  | '}' :: rest => some (name, [], rest)
  | ':' :: '-' :: rest =>
    (Text.cut? '}' rest).map fun parts => (name, parts.1, parts.2)
  | _ => none

/-- The text with its references replaced, as long as the fuel lasts. -/
def expandFor (value? : String → Option String) : Nat → List Char → List Char
  | 0, text => text
  | _, [] => []
  | fuel + 1, c :: rest =>
    match c, rest with
    | '$', '\x7b' :: inside =>
      match readReference inside with
      | some (name, instead, after) =>
        (((value? (String.ofList name)).map String.toList).getD instead)
          ++ expandFor value? fuel after
      | none => c :: expandFor value? fuel rest
    | _, _ => c :: expandFor value? fuel rest

/-- The text with its references replaced. -/
def expand (value? : String → Option String) (text : String) : String :=
  String.ofList (expandFor value? text.length text.toList)

/-- The value that a reference stands for: the environment comes first, then the bindings above. A
binding without a value stands for nothing. -/
def referenceValue (environment : Environment) (above : List Binding) (name : String) :
    Option String :=
  match environment.get? name with
  | some value => some value
  | none => (above.find? fun binding => binding.name = name).map fun binding =>
      binding.value.getD ""

/-- The bindings with the references in their values replaced, each by what stands above it. Of
several bindings of a name the last one counts, at the place of the first. -/
def resolve (environment : Environment) (bindings : List Binding) : List Binding :=
  bindings.foldl (fun above binding =>
    let value := binding.value.map (expand (referenceValue environment above))
    if above.any fun known => known.name = binding.name then
      above.map fun known => if known.name = binding.name then { known with value } else known
    else above ++ [{ binding with value }]) []

/-! ### Setting variables -/

/-- Sets one variable, unless it is set already. -/
def bind (environment : Environment) (binding : Binding) : Except Fault Environment :=
  match binding.value with
  | none => .ok environment
  | some value =>
    if (environment.get? binding.name).isSome then .ok environment
    else if (binding.name ++ value).toList.contains '\x00' then
      .error (.file (.refused .nullCharacter binding.name))
    else if binding.name.toList.contains '=' then .error (.badVariable binding.name)
    else .ok (environment.set binding.name value)

/-- Sets variables one after the other, up to the first that cannot be set. -/
def bindAll (environment : Environment) : List Binding → Environment × Option Fault
  | [] => (environment, none)
  | binding :: rest =>
    match bind environment binding with
    | .ok next => bindAll next rest
    | .error fault => (environment, some fault)

/-- Reads the content of an environment file, which must be UTF-8. Variables that were set before a failure
stay set. -/
def reader : Reader := fun content environment =>
  match Text.Utf8.decode content with
  | .error error =>
    let fault := Fault.undecodable error
    { environment, failure := some (fault.kind, fault.message) }
  | .ok text =>
    let bindings := resolve environment (read (String.ofList (Text.unifyLineEnds text.toList)))
    let (environment, fault) := bindAll environment bindings
    { environment, failure := fault.map fun fault => (fault.kind, fault.message) }

end TreeBuild.EnvironmentFile
