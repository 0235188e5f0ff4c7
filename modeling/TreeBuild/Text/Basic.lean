/-!
Elementary operations on text as a list of characters: cutting at a separator, trimming by a
class of characters, and the order in which names and paths are listed.
-/
namespace TreeBuild.Text

/-- Whether all characters of a text have a property is decided one by one, however many other characters
there are. -/
instance (priority := 2000) decidableForallMem {property : Char → Prop} [DecidablePred property]
    {text : List Char} : Decidable (∀ c ∈ text, property c) :=
  List.decidableBAll property text

/-- The pieces of `text` between occurrences of `separator`; there is always at least one piece. -/
def splitAt (separator : Char) : List Char → List (List Char)
  | [] => [[]]
  | c :: rest =>
    if c = separator then [] :: splitAt separator rest
    else
      match splitAt separator rest with
      | [] => [[c]]
      | piece :: pieces => (c :: piece) :: pieces

/-- The pieces of a string between occurrences of `separator`. -/
def split (separator : Char) (text : String) : List String :=
  (splitAt separator text.toList).map String.ofList

/-- The text without its longest run of dropped characters at the end. -/
def trimEnd (drop : Char → Bool) (text : List Char) : List Char :=
  (text.reverse.dropWhile drop).reverse

/-- The text without its longest runs of dropped characters at both ends. -/
def trim (drop : Char → Bool) (text : List Char) : List Char :=
  trimEnd drop (text.dropWhile drop)

/-- The part of the text before the first `separator` and the part after it, if there is one. -/
def cut? (separator : Char) (text : List Char) : Option (List Char × List Char) :=
  match text.dropWhile (· ≠ separator) with
  | [] => none
  | _ :: after => some (text.takeWhile (· ≠ separator), after)

/-- Whether `part` occurs somewhere in `text`. -/
def contains (part : List Char) : List Char → Bool
  | [] => part.isEmpty
  | c :: rest => part.isPrefixOf (c :: rest) || contains part rest

/-- A name among others that ascend: it stands behind those that come before it. -/
def insertSorted (name : String) : List String → List String
  | [] => [name]
  | first :: rest => if first < name then first :: insertSorted name rest else name :: first :: rest

/-- Names and paths are listed in ascending order of their code points. -/
@[irreducible]
def sorted (names : List String) : List String := names.foldr insertSorted []

/-- The ASCII lower case of a character; every other character stays. -/
def lowerAscii (c : Char) : Char :=
  if 'A' ≤ c ∧ c ≤ 'Z' then Char.ofNat (c.toNat + 32) else c

/-- The digits of `n` in base sixteen, in lower case, padded with zeros to `width`. -/
def hex (width n : Nat) : String :=
  let digits := Nat.toDigits 16 n
  String.ofList (List.replicate (width - digits.length) '0' ++ digits)

end TreeBuild.Text
