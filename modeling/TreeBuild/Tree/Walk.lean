import TreeBuild.Tree.Basic
import TreeBuild.Path.Basic
import TreeBuild.Text.Units

/-!
Following a path through a tree. Each part is looked up in the directory reached so far; links are
followed, at most forty of them, so that a path through a loop of links fails instead of going on
for ever. A second reading of a path, `realPath`, resolves the links it can and keeps the rest.
-/
namespace TreeBuild

/-- Why the system refuses an operation on a file. -/
inductive Refusal where
  | noEntry
  | alreadyThere
  | notDirectory
  | isDirectory
  | notEmpty
  | nameTooLong
  | tooManyLinks
  | notPermitted
  /-- A file is to be run that is no program. -/
  | notExecutable
  /-- A name with a null character is refused before the system sees it. -/
  | nullCharacter
  /-- A name that has no form in bytes is refused before the system sees it. -/
  | unnameable
  deriving DecidableEq, Repr

/-- What a path is followed for. -/
inductive Goal where
  /-- The entry itself: a link in the last place is not followed. -/
  | entry
  /-- What the path leads to. -/
  | target
  /-- A file to write, which is made if it is missing: the way to it must not end with a slash. -/
  | creation
  deriving DecidableEq, Repr

namespace Tree

/-- How far a path leads without following a link that has to be followed. -/
inductive Reached where
  | here (location : Location)
  | link (directory : Location) (target : String) (rest : List String)
  deriving DecidableEq, Repr

/-- The longest name that a directory can hold, in bytes. -/
def maxNameBytes : Nat := 255

/-- The longest path that the system takes, in bytes. -/
def maxPathBytes : Nat := 4095

/-- The part that stands for a slash at the end of a text. -/
def closingSlash : String := ""

/-- Follows parts from a location up to the first link to be followed. A last part that is missing
is no obstacle here. -/
def advance (tree : Tree) (goal : Goal) (location : Location) :
    List String → Except Refusal Reached
  | [] => .ok (.here location)
  | part :: rest =>
    if !tree.isDirectoryAt location then .error .notDirectory
    else if part = "." || part = closingSlash then advance tree goal location rest
    else if part = ".." then advance tree goal location.dropLast rest
    else if goal = .creation && rest = [closingSlash] then .error .isDirectory
    else if maxNameBytes < part.utf8ByteSize then .error .nameTooLong
    else
      match tree.get? (location ++ [part]) with
      | none => if rest.isEmpty then .ok (.here (location ++ [part])) else .error .noEntry
      | some (.link target) =>
        if rest.isEmpty && goal = .entry then .ok (.here (location ++ [part]))
        else .ok (.link location target rest)
      | some _ => advance tree goal (location ++ [part]) rest

/-- The parts of a text that is given to the system as it stands: single dots count, and so does a
slash at the end, which asks for a directory. -/
def systemParts (text : String) : List String :=
  let parts := (Text.split '/' text).filter (· ≠ "")
  if text.toList.getLast? = some '/' then parts ++ [closingSlash] else parts

/-- The location that parts lead to when at most `links` links may be followed. -/
def walk (tree : Tree) (goal : Goal) :
    (links : Nat) → Location → List String → Except Refusal Location
  | links, location, parts =>
    match tree.advance goal location parts with
    | .error refusal => .error refusal
    | .ok (.here found) => .ok found
    | .ok (.link directory target rest) =>
      match links with
      | 0 => .error .tooManyLinks
      | links + 1 =>
        let start := if target.toList.head? = some '/' then [] else directory
        walk tree goal links start (systemParts target ++ rest)

/-- How many links one path may lead through. -/
def maxLinks : Nat := 40

/-- The location that a text leads to, whether or not anything is there. -/
def locate (tree : Tree) (goal : Goal) (text : String) (parts : List String) :
    Except Refusal Location :=
  if text.toList.any Text.isUnnameable then .error .unnameable
  else if text.toList.contains '\x00' then .error .nullCharacter
  else if maxPathBytes < text.utf8ByteSize then .error .nameTooLong
  else tree.walk goal maxLinks [] parts

/-- The location that a path leads to. -/
def locatePath (tree : Tree) (goal : Goal) (path : Path) : Except Refusal Location :=
  tree.locate goal path.toString path.parts

/-- The location that a text leads to that is read in a directory. -/
def locateFrom (tree : Tree) (directory : Path) (text : String) : Except Refusal Location :=
  if text = "" then .error .noEntry
  else
    let start := if text.toList.head? = some '/' then [] else directory.parts
    tree.locate .target text (start ++ systemParts text)

/-- What a path leads to, links followed. -/
def status (tree : Tree) (path : Path) : Except Refusal Entry :=
  match tree.locatePath .target path with
  | .error refusal => .error refusal
  | .ok location =>
    match tree.get? location with
    | some entry => .ok entry
    | none => .error .noEntry

/-- What a text leads to, links followed; any refusal counts as nothing. -/
def statusOfText? (tree : Tree) (text : String) : Option Entry :=
  match tree.locate .target text (systemParts text) with
  | .error _ => none
  | .ok location => tree.get? location

/-- What a text names, a link in the last place not followed; any refusal counts as nothing. -/
def entryOfText? (tree : Tree) (text : String) : Option Entry :=
  match tree.locate .entry text (systemParts text) with
  | .error _ => none
  | .ok location => tree.get? location

/-! ### Resolving a path as far as possible -/

/-- A link met on the way: unresolved while its target is being read. -/
abbrev Seen := List (Location × Option Location)

/-- The outcome of resolving: a location, or a link that leads back to itself, with the parts that
were left. -/
structure Resolved where
  parts : List String
  complete : Bool
  seen : Seen

/-- Resolves parts from a location on. Missing parts are kept, and two dots take back the part
before them. A link that is met for the first time is entered by `enter`. -/
def resolveParts (tree : Tree) (enter : Seen → Location → List String → Resolved) :
    Seen → Location → List String → Resolved
  | seen, location, [] => ⟨location, true, seen⟩
  | seen, location, part :: rest =>
    if part = "." then resolveParts tree enter seen location rest
    else if part = ".." then resolveParts tree enter seen location.dropLast rest
    else
      let next := location ++ [part]
      match tree.get? next with
      | some (.link target) =>
        match seen.find? fun known => known.1 = next with
        | some (_, some resolved) => resolveParts tree enter seen resolved rest
        | some (_, none) => ⟨next ++ rest, false, seen⟩
        | none =>
          let start := if target.toList.head? = some '/' then [] else location
          let inner := enter ((next, none) :: seen) start (Path.partsOf target)
          if inner.complete then
            resolveParts tree enter ((next, some inner.parts) :: inner.seen) inner.parts rest
          else ⟨inner.parts ++ rest, false, inner.seen⟩
      | _ => resolveParts tree enter seen next rest

/-- Resolves parts from a location on. The fuel bounds how deeply links lead to links; no link is
entered within itself, so the number of links in the tree is enough. -/
def resolveFrom (tree : Tree) : (fuel : Nat) → Seen → Location → List String → Resolved
  | 0, seen, location, parts => ⟨location ++ parts, parts.isEmpty, seen⟩
  | fuel + 1, seen, location, parts => resolveParts tree (resolveFrom tree fuel) seen location parts

/-- The absolute path with the links resolved that can be, two dots taken back and nothing asked
of the parts that are missing. -/
def realPath (tree : Tree) (path : Path) : Path :=
  let links := tree.entries.countP fun entry => entry.2 matches .link _
  (Path.mk .root (tree.resolveFrom (links + 1) [] [] path.parts).parts).tidy

end Tree

end TreeBuild
