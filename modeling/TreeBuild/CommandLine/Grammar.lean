import TreeBuild.Text.Basic
import TreeBuild.Text.Digit

/-!
The grammar of a command line. Options are named by one dash and a letter or by two dashes and a word;
a word may be cut short as long as only one option begins so, and letters whose options take no
argument may share a dash. Other arguments go to the one positional parameter of the grammar, which
takes either at most one of them, or a command together with all that follows it. After `--`
everything is an argument.

Arguments are first told apart and then read from left to right, so that an ambiguous word counts
before anything else, and a request for help counts only if nothing before it is wrong.
-/
namespace TreeBuild.CommandLine

/-- How many arguments an option takes. -/
inductive Arity where
  | none
  | one
  | atMostOne
  | atLeastOne
  deriving DecidableEq, Repr

/-- What an option is for. -/
inductive Purpose where
  /-- Its arguments are kept. -/
  | keep
  | showHelp
  | showVersion
  deriving DecidableEq, Repr

/-- An option. -/
structure Switch where
  /-- The name under which its arguments are kept. -/
  key : String
  names : List String
  arity : Arity := .one
  /-- The arguments that are allowed, or none of them if all are. -/
  choices : List String := []
  purpose : Purpose := .keep
  deriving Repr

/-- What the positional parameter takes. -/
inductive Positional where
  | atMostOne
  | command
  deriving DecidableEq, Repr

/-- The grammar of a command line. -/
structure Grammar where
  options : List Switch
  positional : Positional

/-- Why a command line does not end in a command that can be carried out. -/
inductive Exit where
  | help
  | version
  /-- Several options begin like this argument. -/
  | ambiguous (argument : String)
  | missingArgument (name : String)
  /-- An argument is given to an option that takes none. -/
  | ignoredArgument (name : String)
  | invalidChoice (argument : String)
  | missingCommand
  | unrecognized (arguments : List String)
  deriving DecidableEq, Repr

/-- How an argument names an option. -/
structure Mention where
  /-- The option, unless there is none of this name. -/
  option : Option Switch
  /-- The name by which it is called. -/
  name : String
  /-- The argument that is part of the mention. -/
  inside : Option String := none
  deriving Repr

/-- What an argument is. -/
inductive Token where
  | mention (mention : Mention) (text : String)
  | argument (text : String)
  | separator
  deriving Repr

/-- The text of a token. -/
def Token.text : Token → String
  | .mention _ text | .argument text => text
  | .separator => "--"

/-! ### Telling arguments apart -/

/-- The option of a name. -/
def Grammar.named? (grammar : Grammar) (name : String) : Option Switch :=
  grammar.options.find? fun option => option.names.contains name

/-- Whether a text is a negative number, with or without a fraction. One line end may follow. -/
def isNegativeNumber (text : String) : Bool :=
  match text.toList with
  | '-' :: digits =>
    let digits := if digits.getLast? = some '\n' then digits.dropLast else digits
    match Text.cut? '.' digits with
    | none => !digits.isEmpty && digits.all Text.isDigit
    | some (whole, fraction) =>
      whole.all Text.isDigit && !fraction.isEmpty && fraction.all Text.isDigit
  | _ => false

/-- A text in two parts at its first equals sign. -/
def cutEquals (text : String) : String × Option String :=
  match Text.cut? '=' text.toList with
  | none => (text, none)
  | some (name, inside) => (String.ofList name, some (String.ofList inside))

/-- The mentions that an argument may be meant as, whose name is not given in full. -/
def Grammar.candidates (grammar : Grammar) (text : String) : List Mention :=
  match text.toList with
  | '-' :: '-' :: _ =>
    let (start, inside) := cutEquals text
    grammar.options.flatMap fun option =>
      (option.names.filter fun name => start.toList.isPrefixOf name.toList).map fun name =>
        { option := some option, name, inside }
  | '-' :: letter :: rest =>
    let name := String.ofList ['-', letter]
    (grammar.named? name).toList.map fun option =>
      { option := some option, name, inside := some (String.ofList rest) }
  | _ => []

/-- The mention of an option that an argument is, if it is one. -/
def Grammar.mention? (grammar : Grammar) (text : String) : Except Exit (Option Mention) := do
  if text.length < 2 || text.toList.head? ≠ some '-' then return none
  if let some option := grammar.named? text then
    return some { option := some option, name := text }
  let (name, inside) := cutEquals text
  if let (some option, some inside) := (grammar.named? name, inside) then
    return some { option := some option, name, inside := some inside }
  match grammar.candidates text with
  | [mention] => return some mention
  | _ :: _ :: _ => throw (.ambiguous text)
  | [] =>
    if isNegativeNumber text || text.toList.contains ' ' then return none
    return some { option := none, name := text }

/-- What each argument is. -/
def Grammar.tokens (grammar : Grammar) : List String → Except Exit (List Token)
  | [] => return []
  | "--" :: rest => return .separator :: rest.map .argument
  | text :: rest => do
    let token ← match ← grammar.mention? text with
      | some mention => pure (Token.mention mention text)
      | none => pure (.argument text)
    return token :: (← grammar.tokens rest)

/-! ### Reading from left to right -/

/-- What has been read of a command line. -/
structure Reading where
  /-- The options that were given and their arguments, from the first to the last. -/
  given : List (String × List String) := []
  /-- What the positional parameter has taken. -/
  positional : Option (List String) := none
  /-- What nothing has taken. -/
  extra : List String := []
  deriving Repr

/-- The arguments that an option was given last. -/
def Reading.last? (reading : Reading) (key : String) : Option (List String) :=
  reading.given.reverse.lookup key

/-- Carries out the mention of an option with its arguments. -/
def Reading.take (reading : Reading) (option : Switch) (arguments : List String) :
    Except Exit Reading :=
  match option.purpose with
  | .showHelp => .error .help
  | .showVersion => .error .version
  | .keep =>
    match arguments.find? fun argument =>
        !option.choices.isEmpty && !option.choices.contains argument with
    | some argument => .error (.invalidChoice argument)
    | none => .ok { reading with given := reading.given ++ [(option.key, arguments)] }

/-- The texts of the arguments that come first. -/
def leading : List Token → List String
  | .argument text :: rest => text :: leading rest
  | _ => []

/-- The arguments of an option among those that follow it. -/
def argumentsOf (option : Switch) (name : String) (following : List String) :
    Except Exit (List String) :=
  match option.arity, following with
  | .none, _ => .ok []
  | .atMostOne, _ => .ok (following.take 1)
  | .one, first :: _ => .ok [first]
  | .atLeastOne, _ :: _ => .ok following
  | .one, [] | .atLeastOne, [] => .error (.missingArgument name)

/-- An option and the argument that is part of its mention; without one it takes what follows. -/
abbrev Use := Switch × Option String

/-- The options that a mention names whose argument is part of it. Behind one dash the argument of an
option that takes none is read as further letters, of which only the last may take an argument. -/
def Grammar.uses (grammar : Grammar) (option : Switch) (name : String) :
    List Char → Except Exit (List Use)
  | [] =>
    if option.arity = .none then .error (.ignoredArgument name) else .ok [(option, some "")]
  | letter :: rest =>
    if option.arity ≠ .none then .ok [(option, some (String.ofList (letter :: rest)))]
    else if name.length ≠ 2 then .error (.ignoredArgument name)
    else
      let next := String.ofList ['-', letter]
      match grammar.named? next, rest with
      | none, _ => .error (.ignoredArgument name)
      | some other, [] => .ok [(option, none), (other, none)]
      | some other, rest => (grammar.uses other next rest).map ((option, none) :: ·)

/-- The argument that is part of a mention. Two dashes alone are none. -/
def insideArguments (argument : String) : List String :=
  if argument = Token.separator.text then [] else [argument]

/-- An option with its arguments, and how many of those that follow are among them. -/
def fill (name : String) (following : List String) (use : Use) :
    Except Exit (Switch × List String × Nat) := do
  match use.2 with
  | some argument => return (use.1, insideArguments argument, 0)
  | none =>
    let arguments ← argumentsOf use.1 name following
    return (use.1, arguments, arguments.length)

/-- Carries out a mention, and tells how many of the arguments that follow it takes. -/
def Reading.mention (grammar : Grammar) (reading : Reading) (mention : Mention) (text : String)
    (following : List String) : Except Exit (Reading × Nat) := do
  match mention.option with
  | none => return ({ reading with extra := reading.extra ++ [text] }, 0)
  | some option =>
    let uses ← match mention.inside with
      | none => .ok [(option, none)]
      | some inside => grammar.uses option mention.name inside.toList
    let filled ← uses.mapM (fill mention.name following)
    let taken ← filled.foldlM (fun reading use => reading.take use.1 use.2.1) reading
    return (taken, filled.foldl (fun count use => count + use.2.2) 0)

/-- What the positional parameter takes of tokens that begin with no mention, and how many it takes.
A separator is dropped where it stands before or after the one argument. -/
def Positional.take (positional : Positional) (tokens : List Token) :
    Option (List String × Nat) :=
  match positional, tokens with
  | .command, .argument _ :: _ | .command, .separator :: .argument _ :: _ =>
    some (tokens.map Token.text, tokens.length)
  | .command, _ => none
  | .atMostOne, .argument text :: .separator :: _ => some ([text], 2)
  | .atMostOne, .argument text :: _ => some ([text], 1)
  | .atMostOne, .separator :: .argument text :: _ => some ([text], 2)
  | .atMostOne, _ => some ([], 1)

/-- Whether a token is no mention of an option. -/
def Token.isPlain : Token → Bool
  | .mention _ _ => false
  | _ => true

/-- Reads tokens as long as the fuel lasts; each round takes at least one of them. -/
def Grammar.readFor (grammar : Grammar) : Nat → Reading → List Token → Except Exit Reading
  | 0, reading, _ => .ok reading
  | _, reading, [] => .ok reading
  | fuel + 1, reading, token :: rest => do
    match token with
    | .mention mention text =>
      let (next, count) ← reading.mention grammar mention text (leading rest)
      grammar.readFor fuel next (rest.drop count)
    | _ =>
      let tokens := token :: rest
      let taken := if reading.positional.isSome then none else grammar.positional.take tokens
      match taken with
      | some (arguments, count) =>
        grammar.readFor fuel { reading with positional := some arguments } (tokens.drop count)
      | none =>
        let plain := tokens.takeWhile Token.isPlain
        grammar.readFor fuel { reading with extra := reading.extra ++ plain.map Token.text }
          (tokens.drop plain.length)

/-- Reads a command line. -/
def Grammar.read (grammar : Grammar) (arguments : List String) : Except Exit Reading := do
  let tokens ← grammar.tokens arguments
  grammar.readFor tokens.length {} tokens

end TreeBuild.CommandLine
