import TreeBuild.Text.Basic
import TreeBuild.Text.Quoted

/-!
Paths as text describes them, without asking what exists. A path has an anchor and parts; empty
parts and parts that are a single dot are dropped when it is read, while two dots are kept, because
what they mean depends on links.
-/
namespace TreeBuild

/-- Where a path starts. -/
inductive Anchor where
  | relative
  | root
  /-- A path that starts with exactly two slashes is kept apart from the root. -/
  | doubleRoot
  deriving DecidableEq, Repr, Inhabited

/-- A path. -/
structure Path where
  anchor : Anchor
  parts : List String
  deriving DecidableEq, Repr, Inhabited

namespace Path

/-- The slashes that an anchor is written with. -/
def anchorText : Anchor → String
  | .relative => ""
  | .root => "/"
  | .doubleRoot => "//"

/-- The anchor of a text. -/
def anchorOf (text : List Char) : Anchor :=
  match (text.takeWhile (· = '/')).length with
  | 0 => .relative
  | 2 => .doubleRoot
  | _ => .root

/-- The parts of a text: what stands between slashes, except nothing and a single dot. -/
def partsOf (text : String) : List String :=
  (Text.split '/' text).filter fun part => part ≠ "" ∧ part ≠ "."

/-- The path that a text names. -/
def ofString (text : String) : Path :=
  ⟨anchorOf text.toList, partsOf text⟩

/-- The text of a path; the path without parts is written as a dot. -/
def toString (path : Path) : String :=
  let text := anchorText path.anchor ++ String.intercalate "/" path.parts
  if text = "" then "." else text

instance : ToString Path := ⟨Path.toString⟩

/-- The path in the form of a value in messages. -/
def quoted (path : Path) : String :=
  "PosixPath(" ++ Text.quoted path.toString ++ ")"

/-- Whether the path does not depend on a directory. -/
def isAbsolute (path : Path) : Bool :=
  path.anchor ≠ .relative

/-- The path that `other` names when it is read from the directory `base`. -/
def join (base other : Path) : Path :=
  if other.isAbsolute then other else ⟨base.anchor, base.parts ++ other.parts⟩

instance : HDiv Path Path Path := ⟨join⟩
instance : HDiv Path String Path := ⟨fun base text => base.join (ofString text)⟩

/-- The last part, or nothing. -/
def name (path : Path) : String :=
  path.parts.getLast?.getD ""

/-- The path without its last part. -/
def parent (path : Path) : Path :=
  ⟨path.anchor, path.parts.dropLast⟩

/-- All paths above this one. -/
def parents (path : Path) : List Path :=
  (List.range path.parts.length).map fun count => ⟨path.anchor, path.parts.take count⟩

/-- A name cut before its last dot, if that dot is neither the first nor the last character. -/
def splitSuffix (name : String) : String × String :=
  let backward := name.toList.reverse
  let ending := backward.takeWhile (· ≠ '.')
  match backward.dropWhile (· ≠ '.') with
  | '.' :: stem =>
    if ending.isEmpty || stem.isEmpty then (name, "")
    else (String.ofList stem.reverse, String.ofList ('.' :: ending.reverse))
  | _ => (name, "")

/-- The suffix of a name with its dot, or nothing. -/
def suffixOf (name : String) : String := (splitSuffix name).2

/-- The part of a name in front of its suffix. -/
def stemOf (name : String) : String := (splitSuffix name).1

/-- The path with another last part; a path without parts has none to replace. -/
def withName? (path : Path) (name : String) : Option Path :=
  if path.parts.isEmpty then none else some ⟨path.anchor, path.parts.dropLast ++ [name]⟩

/-- The path with another suffix, which is added if there is none. -/
def withSuffix? (path : Path) (suffix : String) : Option Path :=
  path.withName? (stemOf path.name ++ suffix)

/-- The way from `base` down to the path, if its parts begin with those of `base`. -/
def relativeTo? (path base : Path) : Option Path :=
  if path.anchor = base.anchor ∧ base.parts <+: path.parts then
    some ⟨.relative, path.parts.drop base.parts.length⟩
  else none

/-- One part more behind parts that are already tidy: two dots take back the part before them,
unless there is none to take back. -/
def pushTidy (absolute : Bool) (before : List String) (part : String) : List String :=
  if part = ".." then
    match before.getLast? with
    | some last => if last = ".." then before ++ [part] else before.dropLast
    | none => if absolute then before else before ++ [part]
  else before ++ [part]

/-- The path with two dots resolved by the text alone. -/
def tidy (path : Path) : Path :=
  ⟨path.anchor, path.parts.foldl (pushTidy path.isAbsolute) []⟩

end Path

end TreeBuild
