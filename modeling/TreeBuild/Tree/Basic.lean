import TreeBuild.Text.Utf8
import TreeBuild.Text.Basic

/-!
A tree of files held as a value. Every file, link and directory except the root is an entry under
its location, the list of names on the way down from the root; a location holds no dots.
-/
namespace TreeBuild

/-- The names on the way from the root to an entry. -/
abbrev Location := List String

/-- What a tree holds at a location. -/
inductive Entry where
  | directory
  | file (content : Text.Bytes) (executable : Bool)
  | link (target : String)
  deriving DecidableEq, Repr

/-- Whether an entry is a file. -/
def Entry.isFile : Entry → Bool
  | .file _ _ => true
  | _ => false

/-- Whether an entry is a directory. -/
def Entry.isDirectory : Entry → Bool
  | .directory => true
  | _ => false

/-- A tree of files. -/
structure Tree where
  entries : List (Location × Entry)
  deriving Repr, Inhabited

namespace Tree

/-- The tree that holds nothing but its root. -/
def empty : Tree := ⟨[]⟩

/-- The entry in a list of entries. -/
def lookup (location : Location) : List (Location × Entry) → Option Entry
  | [] => none
  | (place, entry) :: rest => if place = location then some entry else lookup location rest

/-- What the tree holds at a location; the root is always a directory. -/
def get? (tree : Tree) (location : Location) : Option Entry :=
  if location = [] then some .directory else lookup location tree.entries

/-- Replaces the entry at a location, or adds it. -/
def store (location : Location) (entry : Entry) :
    List (Location × Entry) → List (Location × Entry)
  | [] => [(location, entry)]
  | (place, old) :: rest =>
    if place = location then (place, entry) :: rest else (place, old) :: store location entry rest

/-- The tree with an entry at a location. -/
def put (tree : Tree) (location : Location) (entry : Entry) : Tree :=
  ⟨store location entry tree.entries⟩

/-- The tree without the entry at a location. -/
def erase (tree : Tree) (location : Location) : Tree :=
  ⟨tree.entries.filter fun entry => entry.1 ≠ location⟩

/-- Whether one location lies strictly below another. -/
def isBelow (location top : Location) : Bool :=
  top.isPrefixOf location && location ≠ top

/-- The tree without anything strictly below a location. -/
def clearBelow (tree : Tree) (top : Location) : Tree :=
  ⟨tree.entries.filter fun entry => !isBelow entry.1 top⟩

/-- Whether a directory is at a location. -/
def isDirectoryAt (tree : Tree) (location : Location) : Bool :=
  tree.get? location = some .directory

/-- The names in a directory, in the order in which the tree holds them. -/
def children (tree : Tree) (top : Location) : List String :=
  tree.entries.filterMap fun entry =>
    if entry.1 ≠ [] ∧ entry.1.dropLast = top then entry.1.getLast? else none

/-- The tree with a directory at a location and at all locations above it that hold nothing. -/
def ensureDirectory (tree : Tree) (location : Location) : Tree :=
  (List.range (location.length + 1)).foldl (fun tree count =>
    let above := location.take count
    if tree.get? above = none then tree.put above .directory else tree) tree

/-- What is stored at a location is found there. -/
theorem lookup_store_self (location : Location) (entry : Entry)
    (entries : List (Location × Entry)) :
    lookup location (store location entry entries) = some entry := by
  induction entries with
  | nil => simp [store, lookup]
  | cons first rest ih =>
    obtain ⟨place, old⟩ := first
    by_cases same : place = location <;> simp [store, lookup, same, ih]

/-- Storing an entry leaves every other location as it was. -/
theorem lookup_store_of_ne {location other : Location} (different : other ≠ location)
    (entry : Entry) (entries : List (Location × Entry)) :
    lookup other (store location entry entries) = lookup other entries := by
  induction entries with
  | nil => simp [store, lookup, Ne.symm different]
  | cons first rest ih =>
    obtain ⟨place, old⟩ := first
    by_cases same : place = location
    · subst same
      simp [store, lookup, Ne.symm different]
    · by_cases found : place = other
      · subst found
        simp [store, lookup, same]
      · simp [store, lookup, same, found, ih]

/-- An entry that was put is there. -/
theorem get?_put_self (tree : Tree) {location : Location} (inside : location ≠ [])
    (entry : Entry) : (tree.put location entry).get? location = some entry := by
  simp [get?, put, inside, lookup_store_self]

/-- Putting an entry leaves every other location as it was. -/
theorem get?_put_of_ne (tree : Tree) {location other : Location} (different : other ≠ location)
    (entry : Entry) : (tree.put location entry).get? other = tree.get? other := by
  simp [get?, put, lookup_store_of_ne different]

end Tree

end TreeBuild
