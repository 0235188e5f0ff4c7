import TreeBuild.Tree.Basic

/-!
What tells two states of a tree apart. A tree is seen as its leaves: its files, its links and the
directories that hold nothing. A directory that holds something is implied by what it holds.
-/
namespace TreeBuild.Tree

/-- Whether a location is the place of a leaf: anything but a directory that holds something. -/
def isLeaf (tree : Tree) (location : Location) (entry : Entry) : Bool :=
  entry ≠ .directory || !tree.entries.any fun other => isBelow other.1 location

/-- The leaves below a location, with their places. -/
def leavesBelow (tree : Tree) (top : Location) : List (Location × Entry) :=
  tree.entries.filter fun entry => isBelow entry.1 top && tree.isLeaf entry.1 entry.2

/-- The leaves that are new or have changed, and those that are gone. A directory and anything else
never count as the same leaf. -/
structure Difference where
  written : List (Location × Entry)
  removed : List (Location × Entry)
  deriving Repr

/-- Whether both entries are directories or neither is. -/
def sameShape (first second : Entry) : Bool :=
  (first = .directory) = (second = .directory)

/-- What happened below a location from one state to the next; the places `kept` are taken to be
there always. -/
def differenceBelow (top : Location) (kept : List Location) (before after : Tree) : Difference :=
  let leaves (tree : Tree) := (tree.leavesBelow top).filter fun entry =>
    !(kept.contains entry.1 && entry.2 = .directory)
  let old := leaves before
  let new := leaves after
  { written := new.filter fun entry => lookup entry.1 old ≠ some entry.2
    removed := old.filter fun entry => !(lookup entry.1 new).any (sameShape entry.2) }

end TreeBuild.Tree
