import Mathlib.Data.List.Sort
import Mathlib.Data.String.Basic
import TreeBuild.Proofs.Project.Answers

/-!
# The list of all sources

Directories list their entries in any order, and the walk through them takes that order over. The matches
are sorted before they are looked up, though. In a tree without links every match spells the path that it
leads to, so the sources ascend as the matches do, and which ones they are does not depend on the walk.
There is one ascending list of given sources. So trees that hold the same lead to the same list, whatever
the order is in which they hold it.
-/
namespace TreeBuild

open TreeBuild.Tree TreeBuild.Path

/-- A tree that holds the same as a regular one is regular. -/
theorem Tree.IsRegular.congr {tree other : Tree} (regular : tree.IsRegular)
    (same : ∀ location, other.get? location = tree.get? location) : other.IsRegular where
  linkless location target := by
    rw [same]
    exact regular.linkless location target
  named location entry := by
    rw [same]
    exact regular.named location entry
  reached location entry := by
    rw [same]
    intro present above front other
    rw [same]
    exact regular.reached location entry present above front other

namespace Sources

variable {tree : Tree} {root : Path} {files : List SourceFile}

/-- A path at which a file lies below the sources, no part of the way being hidden. -/
def IsShownFile (tree : Tree) (root path : Path) : Prop :=
  ∃ parts, parts ≠ [] ∧ (∀ part ∈ parts, Glob.isHidden part = false) ∧
    path = (Layout.ofRoot root).sources.below parts ∧ (tree.contentAt? path.parts).isSome

/-- The files that are found are exactly those that are there and not hidden, each of them once, and they
ascend by the texts of their paths. -/
structure ListsAll (tree : Tree) (root : Path) (paths : List Path) : Prop where
  distinct : paths.Nodup
  members : ∀ path, path ∈ paths ↔ IsShownFile tree root path
  ascending : paths.Pairwise fun first second => first.toString < second.toString

/-- Only one list has all files that are there, in ascending order. -/
theorem ListsAll.unique {paths others : List Path} (lists : ListsAll tree root paths)
    (listsToo : ListsAll tree root others) : paths = others := by
  have same : paths.Perm others := by
    rw [List.perm_ext_iff_of_nodup lists.distinct listsToo.distinct]
    intro path
    rw [lists.members, listsToo.members]
  refine same.eq_of_pairwise (fun first second _ _ before behind => ?_) lists.ascending listsToo.ascending
  exact absurd behind (lt_asymm before)

/-- A name as long as the system takes it. -/
def longName : String := String.ofList (List.replicate maxNameBytes 'a')

end Sources

end TreeBuild
