import TreeBuild.Text.Basic

/-!
The text of shell scripts. A script is cut into words and signs; a word is made of literal text and
of parameters, which are replaced when the command is carried out. Commands are joined to pipelines, and
a pipeline of a list follows the one before depending on how that ended. A list is carried out after the
one before it, unless that is left to itself.
-/
namespace TreeBuild.Child

/-- A piece of a word. -/
inductive Piece where
  | text (value : String)
  /-- A parameter; inside quotes its value is one piece, whatever it holds. -/
  | parameter (name : String) (quoted : Bool)
  deriving DecidableEq, Repr

/-- A word or a sign of a script. -/
inductive Token where
  | word (pieces : List Piece)
  | sign (text : String)
  deriving DecidableEq, Repr

namespace Script

/-- The signs, a longer one in front of those that it begins with. -/
def signs : List String :=
  ["2>&1", "1>&2", ">&2", ">&1", "2>", "1>", ">>", ">", "<", "&&", "||", ";", "|", "&", "\n"]

/-- The sign at the start of a text. One that begins with a digit is none inside a word. -/
def sign? (inWord : Bool) (text : List Char) : Option String :=
  signs.find? fun sign =>
    sign.toList.isPrefixOf text && !(inWord && (sign.toList.headD ' ').isDigit)

/-- Whether a character can belong to the name of a variable. -/
def inName (c : Char) : Bool := c.isAlphanum || c = '_'

/-- The parameter behind a dollar sign, and how many characters it has there. -/
def parameter? : List Char → Option (String × Nat)
  | '\x7b' :: rest =>
    let name := rest.takeWhile (· ≠ '\x7d')
    if name.length < rest.length then some (String.ofList name, name.length + 2) else none
  | c :: rest =>
    if ['?', '#', '@', '*', '$', '!', '-'].contains c || c.isDigit then
      some (String.singleton c, 1)
    else
      let name := (c :: rest).takeWhile inName
      if name.isEmpty then none else some (String.ofList name, name.length)
  | [] => none

/-- The characters that a backslash takes their meaning from inside quotes. -/
def escapable : List Char := ['"', '\\', '$', Char.ofNat 0x60]

/-- The tokens of a text. Every step takes at least one character, so the length of the text is
enough fuel. -/
def tokensFrom : (fuel : Nat) → (word : Option (List Piece)) → (quoted : Bool) →
    List Char → List Token
  | 0, word, _, _ => (word.map Token.word).toList
  | fuel + 1, word, quoted, text =>
    let more (pieces : List Piece) (quoted : Bool) (rest : List Char) :=
      tokensFrom fuel (some (word.getD [] ++ pieces)) quoted rest
    let ended (rest : List Char) := (word.map Token.word).toList ++ tokensFrom fuel none false rest
    match (if quoted then none else sign? word.isSome text), text with
    | some sign, _ =>
      (word.map Token.word).toList ++ .sign sign
        :: tokensFrom fuel none false (text.drop sign.length)
    | none, [] => (word.map Token.word).toList
    | none, '"' :: rest => more [.text ""] (!quoted) rest
    | none, '$' :: rest =>
      match parameter? rest with
      | some (name, length) => more [.parameter name quoted] quoted (rest.drop length)
      | none => more [.text "$"] quoted rest
    | none, '\\' :: '\n' :: rest => tokensFrom fuel word quoted rest
    | none, '\\' :: c :: rest =>
      if quoted && !escapable.contains c then
        more [.text (String.ofList ['\\', c])] quoted rest
      else more [.text (String.singleton c)] quoted rest
    | none, c :: rest =>
      if quoted then more [.text (String.singleton c)] true rest
      else if c = '\'' then
        more [.text (String.ofList (rest.takeWhile (· ≠ '\'')))] false
          ((rest.dropWhile (· ≠ '\'')).drop 1)
      else if c = ' ' || c = '\t' then ended rest
      else if c = '#' && word.isNone then ended (rest.dropWhile (· ≠ '\n'))
      else more [.text (String.singleton c)] false rest

/-- The tokens of a script. -/
def tokens (text : String) : List Token :=
  tokensFrom (text.length + 1) none false text.toList

/-- Where a command gets its input from or leaves its output. -/
structure Redirection where
  sign : String
  target : List Piece
  deriving DecidableEq, Repr

/-- A command: its words and its redirections. -/
structure Command where
  words : List (List Piece) := []
  redirections : List Redirection := []
  deriving DecidableEq, Repr

/-- When a pipeline is carried out. -/
inductive Condition where
  | always
  | afterSuccess
  | afterFailure
  deriving DecidableEq, Repr

/-- Commands of which each reads what the one before wrote. -/
structure Pipeline where
  condition : Condition
  /-- The line on which it begins. -/
  line : Nat
  commands : List Command
  deriving DecidableEq, Repr

/-- The signs behind which the name of a file stands. -/
def fileSigns : List String := ["2>", "1>", ">>", ">", "<"]

/-- The command that tokens without other signs make. -/
def commandOf : List Token → Command
  | [] => {}
  | .word pieces :: rest =>
    let command := commandOf rest
    { command with words := pieces :: command.words }
  | .sign sign :: .word target :: rest =>
    let command := commandOf rest
    if fileSigns.contains sign then
      { command with redirections := { sign, target } :: command.redirections }
    else
      { words := target :: command.words
        redirections := { sign, target := [] } :: command.redirections }
  | .sign sign :: rest =>
    let command := commandOf rest
    { command with redirections := { sign, target := [] } :: command.redirections }

/-- Parts with one more token at the start of the first. -/
def addToFirst (token : Token) : List (String × List Token) → List (String × List Token)
  | [] => []
  | (sign, tokens) :: others => (sign, token :: tokens) :: others

/-- Tokens cut at signs that are chosen: each part with the sign in front of it. -/
def partsAt (chosen : List String) (before : String) : List Token → List (String × List Token)
  | [] => [(before, [])]
  | token :: rest =>
    match token with
    | .sign text =>
      if chosen.contains text then (before, []) :: partsAt chosen text rest
      else addToFirst token (partsAt chosen before rest)
    | .word _ => addToFirst token (partsAt chosen before rest)

/-- The condition that a sign between pipelines stands for. -/
def conditionOf (sign : String) : Condition :=
  if sign = "&&" then .afterSuccess else if sign = "||" then .afterFailure else .always

/-- Pipelines that belong together. -/
structure Sequence where
  pipelines : List Pipeline
  /-- Whether the script goes on without waiting for them. -/
  isDetached : Bool
  deriving DecidableEq, Repr

/-- The pipelines that tokens on a line make. -/
def pipelinesOf (line : Nat) (tokens : List Token) : List Pipeline :=
  ((partsAt ["&&", "||"] ";" tokens).map fun part =>
    { condition := conditionOf part.1, line
      commands := (partsAt ["|"] "|" part.2).map fun piece => commandOf piece.2 }).filter
    fun (pipeline : Pipeline) => pipeline.commands ≠ [{}]

/-- The lists of pipelines of a script. The sign behind a list tells whether it is left to itself. -/
def sequences (text : String) : List Sequence :=
  let parts := partsAt [";", "\n", "&"] ";" (tokens text)
  let behind := (parts.drop 1).map Prod.fst ++ [";"]
  let numbered := (parts.zip behind).foldl (fun (found, line) (part, sign) =>
    let line := if part.1 = "\n" then line + 1 else line
    (found ++ [{ pipelines := pipelinesOf line part.2, isDetached := sign = "&" }], line))
    (([] : List Sequence), 1)
  numbered.1

end Script

end TreeBuild.Child
