import TreeBuild.Environment
import TreeBuild.Session

/-!
The loggers of a program and what writes their records. Loggers form a hierarchy by their dotted
names: a record is written by the handlers of its own logger and by those of the loggers above it, up
to the first that keeps its records to itself. The loggers of the package share one handler; a logger
can be given a handler of its own, which writes structured records.
-/
namespace TreeBuild.Logging

/-- How a handler writes records. -/
inductive Style where
  | text
  | json
  /-- The message alone, for records that no handler takes. -/
  | bare
  deriving DecidableEq, Repr

/-- The logger above all loggers of the package. -/
def packageName : String := "modbuild"

/-- The logger above all loggers. -/
def rootName : String := "root"

/-- The number by which levels are compared. -/
def number : Level → Int
  | .debug => 10
  | .info => 20
  | .warning => 30
  | .error => 40
  | .critical => 50

/-! ### Settings -/

/-- The names of levels and their numbers. -/
def levelNames : List (String × Int) :=
  [("DEBUG", 10), ("INFO", 20), ("WARNING", 30), ("WARN", 30), ("ERROR", 40), ("CRITICAL", 50),
   ("FATAL", 50), ("NOTSET", 0)]

/-- A name that stands for a text instead of a level. -/
def formatName : String := "BASIC_FORMAT"

/-- The text that this name stands for. -/
def formatText : String := "%(levelname)s:%(name)s:%(message)s"

/-- A name that stands for something else than a level or a text. -/
def stylesName : String := "_STYLES"

/-- What this name stands for, in the form in which it is shown. -/
def stylesShown : String :=
  "\x7b'%': (<class 'logging.PercentStyle'>, '%(levelname)s:%(name)s:%(message)s'), " ++
  "'\x7b': (<class 'logging.StrFormatStyle'>, '\x7blevelname\x7d:\x7bname\x7d:\x7bmessage\x7d'), " ++
  "'$': (<class 'logging.StringTemplateStyle'>, '$\x7blevelname\x7d:$\x7bname\x7d:$\x7bmessage\x7d')\x7d"

/-- The ASCII letters that stand for a character in upper case. -/
def upperLetters (c : Char) : List Char :=
  if 'a' ≤ c ∧ c ≤ 'z' then [Char.ofNat (c.toNat - 32)]
  else
    match c with
    | 'ß' => ['S', 'S']
    | 'ı' => ['I']
    | 'ſ' => ['S']
    | 'ﬀ' => ['F', 'F']
    | 'ﬁ' => ['F', 'I']
    | 'ﬂ' => ['F', 'L']
    | 'ﬃ' => ['F', 'F', 'I']
    | 'ﬄ' => ['F', 'F', 'L']
    | 'ﬅ' | 'ﬆ' => ['S', 'T']
    | c => [c]

/-- The level that a name gives, in upper or lower case; a name that is unknown gives the level of
plain information. -/
def levelOf (name : String) : Except Fault Int :=
  let upper := String.ofList (name.toList.flatMap upperLetters)
  if upper = formatName then .error (.shape (.unknownLevel formatText))
  else if upper = stylesName then .error (.shape (.noLevel stylesShown))
  else .ok ((levelNames.lookup upper).getD (number .info))

/-- The level that the environment gives. -/
def levelFrom (environment : Environment) : Except Fault Int :=
  levelOf ((environment.get? "LOG_LEVEL").getD Level.info.name)

/-- The level that a value stands for: a number, or the name of a level. -/
def levelOfValue : Json → Except Fault Int
  | .int level => .ok level
  | .bool level => .ok (if level then 1 else 0)
  | .str units =>
    let name := units.toStringLossy
    (levelNames.lookup name).elim (.error (.shape (.unknownLevel name))) .ok
  | value => .error (.shape (.noLevel value.quoted))

/-- The style that the environment gives. -/
def styleFrom (environment : Environment) : Style :=
  let word := Text.trim Text.isBlank ((environment.get? "LOG_FORMAT").getD "").toList
  if String.ofList (word.map Text.lowerAscii) = "json" then .json else .text

/-! ### Loggers -/

/-- A logger. -/
structure Logger where
  /-- The least number of a level that is written; zero leaves that to the loggers above. -/
  level : Int := 0
  /-- The styles of its own handlers. -/
  handlers : List Style := []
  /-- Whether the handlers of the loggers above write its records too. -/
  propagates : Bool := true
  deriving DecidableEq, Repr

/-- The loggers that there are. -/
structure Registry where
  loggers : List (String × Logger)
  /-- Whether the logger of the package has its handler. -/
  configured : Bool
  deriving Repr

namespace Registry

/-- The loggers before any has been asked for. -/
def start : Registry :=
  { loggers := [(rootName, { level := number .warning })], configured := false }

/-- The logger of a name, as it is when it is made. -/
def logger (registry : Registry) (name : String) : Logger :=
  (registry.loggers.lookup name).getD {}

/-- Puts a logger in the place of the one of that name. -/
def put (registry : Registry) (name : String) (logger : Logger) : Registry :=
  { registry with
    loggers := (registry.loggers.filter fun known => known.1 ≠ name) ++ [(name, logger)] }

/-- Whether there is a logger of a name besides the one above all. -/
def isKnown (registry : Registry) (name : String) : Bool :=
  name ≠ rootName && (registry.loggers.lookup name).isSome

/-- The name that has these letters, read backwards. -/
def nameOf (letters : List Char) : String := String.ofList letters.reverse

/-- The names in front of the dots of a name, from the longest to the shortest, as far as they are
known. The letters of the name are given backwards. Behind a dot that leads to no known name one more
letter is passed over, so that of two dots side by side only one is looked at; nothing is in front of
a dot that the name begins with. -/
def namesAbove (known : String → Bool) : List Char → List String
  | c :: next :: rest =>
    if c ≠ '.' then namesAbove known (next :: rest)
    else if known (nameOf (next :: rest)) then
      nameOf (next :: rest) :: namesAbove known (next :: rest)
    else namesAbove known rest
  | _ => []

/-- The names of the loggers from the one of a name upwards; only those that exist count. -/
def lineage (registry : Registry) (name : String) : List String :=
  let above := namesAbove registry.isKnown name.toList.reverse
  (name :: above).filter registry.isKnown ++ [rootName]

/-- The loggers from the one of a name upwards. -/
def chain (registry : Registry) (name : String) : List Logger :=
  (registry.lineage name).map registry.logger

/-- The least number of a level that is written for a logger. -/
def threshold (registry : Registry) (name : String) : Int :=
  (((registry.chain name).map Logger.level).find? fun level => level ≠ 0).getD 0

/-- Whether records of a level are written for a logger. -/
def isEnabled (registry : Registry) (name : String) (level : Int) : Bool :=
  registry.threshold name ≤ level

/-- The handlers along a chain of loggers, up to the first that keeps its records to itself. -/
def handlersAlong : List Logger → List Style
  | [] => []
  | logger :: above =>
    logger.handlers ++ if logger.propagates then handlersAlong above else []

/-- What writes the records of a logger. -/
def handlers (registry : Registry) (name : String) : List Style :=
  handlersAlong (registry.chain name)

/-- Whether a logger belongs to the package. -/
def inPackage (name : String) : Bool :=
  name = packageName || (packageName ++ ".").toList.isPrefixOf name.toList

/-- Gives the logger of the package its level and its handler, once. -/
def configure (registry : Registry) (environment : Environment) : Except Fault Registry := do
  if registry.configured then return registry
  let level ← levelFrom environment
  let logger := registry.logger packageName
  let logger := { logger with level, handlers := logger.handlers ++ [styleFrom environment] }
  return { registry.put packageName logger with configured := true }

/-- The name that a logger goes by. -/
def properName (name : String) : String := if name = "" then rootName else name

/-- Asks for a logger, with a handler of its own for structured records or not. A logger outside the
package takes its level from the environment. -/
def obtain (registry : Registry) (environment : Environment) (asked : String)
    (structured : Bool) : Except Fault Registry := do
  let registry ← registry.configure environment
  let name := properName asked
  let logger := registry.logger name
  let logger ← if inPackage name then pure logger
    else do pure { logger with level := ← levelFrom environment }
  let logger := if structured && !logger.handlers.contains .json
    then { logger with handlers := logger.handlers ++ [.json], propagates := false } else logger
  return registry.put name logger

/-- Sets the level of the package. -/
def setLevel (registry : Registry) (environment : Environment) (value : Json) :
    Except Fault Registry := do
  let registry ← registry.configure environment
  let level ← levelOfValue value
  return registry.put packageName { registry.logger packageName with level }

end Registry

end TreeBuild.Logging
