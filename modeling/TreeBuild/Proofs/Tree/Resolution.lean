import TreeBuild.Project.Sources
import TreeBuild.Proofs.Tree.Straight

/-!
# Resolved paths

A resolved path has no two dots in it: what a path and the links on its way have of them is taken back
where it can be, and the rest is tidied away. Where no link is met and no two dots are given, resolving
a path changes nothing but that the path starts from the root.
-/
namespace TreeBuild

namespace Path

/-- Two dots behind names take one of them back or do nothing. -/
theorem isName_of_mem_pushTidy {before : List String} (names : ∀ part ∈ before, IsName part)
    {part : String} (isPart : IsPart part) : ∀ other ∈ pushTidy true before part, IsName other := by
  intro other member
  unfold pushTidy at member
  split at member
  · split at member
    · rename_i last found
      have notBack := (names last (List.mem_of_getLast? found)).notBack
      rw [if_neg notBack] at member
      exact names other (List.dropLast_subset before member)
    · exact names other member
  · rename_i notBack
    rcases List.mem_append.mp member with old | new
    · exact names other old
    · exact List.mem_singleton.mp new ▸ ⟨isPart, notBack⟩

/-- Tidying an absolute path takes its special parts away. -/
theorem tidy_isPlain {path : Path} (absolute : path.isAbsolute) (proper : path.IsProper) :
    path.tidy.IsPlain := by
  have fold : ∀ parts : List String, (∀ part ∈ parts, IsPart part) → ∀ before : List String,
      (∀ part ∈ before, IsName part) → ∀ part ∈ parts.foldl (pushTidy true) before, IsName part := by
    intro parts
    induction parts with
    | nil => exact fun _ before names => names
    | cons part rest inductionHypothesis =>
      intro isPart before names
      exact inductionHypothesis (fun other member => isPart other (List.mem_cons_of_mem _ member)) _
        (isName_of_mem_pushTidy names (isPart part List.mem_cons_self))
  have tidied := fold path.parts proper [] (by simp)
  rw [← absolute] at tidied
  exact tidied

/-- A path without special parts is tidy. -/
theorem tidy_of_isPlain {path : Path} (plain : path.IsPlain) : path.tidy = path := by
  have fold : ∀ parts : List String, (∀ part ∈ parts, IsName part) → ∀ before : List String,
      parts.foldl (pushTidy path.isAbsolute) before = before ++ parts := by
    intro parts
    induction parts with
    | nil => simp
    | cons part rest inductionHypothesis =>
      intro names before
      have notBack := (names part List.mem_cons_self).notBack
      rw [List.foldl_cons, inductionHypothesis fun other member =>
        names other (List.mem_cons_of_mem _ member)]
      simp [pushTidy, notBack]
  rw [tidy, fold path.parts plain []]
  rfl

end Path

namespace Tree

/-- Every location that is known for a link is made of proper parts. -/
def Seen.IsProper (seen : Seen) : Prop :=
  ∀ link resolved, (link, some resolved) ∈ seen → ∀ part ∈ resolved, Path.IsPart part

/-- A link whose location is not known yet. -/
theorem Seen.IsProper.enter {seen : Seen} (proper : seen.IsProper) (link : Location) :
    Seen.IsProper ((link, none) :: seen) := by
  intro other resolved member
  rcases List.mem_cons.mp member with here | later
  · cases here
  · exact proper other resolved later

/-- What has been seen stays proper when a link is left with proper parts. -/
theorem Seen.IsProper.leave {seen : Seen} (proper : seen.IsProper) (link : Location)
    {resolved : Location} (parts : ∀ part ∈ resolved, Path.IsPart part) :
    Seen.IsProper ((link, some resolved) :: seen) := by
  intro other location member
  rcases List.mem_cons.mp member with here | later
  · cases here
    exact parts
  · exact proper other location later

/-- A way of resolving parts that comes to proper parts if it starts with them. -/
def KeepsProper (enter : Seen → Location → List String → Resolved) : Prop :=
  ∀ seen location parts, seen.IsProper → (∀ part ∈ location, Path.IsPart part) →
    (∀ part ∈ parts, Path.IsPart part) →
    (∀ part ∈ (enter seen location parts).parts, Path.IsPart part) ∧
      (enter seen location parts).seen.IsProper

/-- Two rows of proper parts are proper together. -/
theorem isPart_of_mem_append {front back : List String} (first : ∀ part ∈ front, Path.IsPart part)
    (second : ∀ part ∈ back, Path.IsPart part) : ∀ part ∈ front ++ back, Path.IsPart part :=
  fun part member => (List.mem_append.mp member).elim (first part) (second part)

/-- Resolving proper parts comes to proper parts, because the targets of links have such parts too. -/
theorem resolveParts_keepsProper (tree : Tree) {enter : Seen → Location → List String → Resolved}
    (enters : KeepsProper enter) : KeepsProper (tree.resolveParts enter) := by
  intro seen location parts known above below
  fun_induction resolveParts tree enter seen location parts with
  | case1 => exact ⟨above, known⟩
  | case2 seen location rest inductionHypothesis =>
    exact inductionHypothesis known above fun part member => below part (List.mem_cons_of_mem _ member)
  | case3 seen location rest notDot inductionHypothesis =>
    refine inductionHypothesis known (fun part member => ?_) fun part member => ?_
    · exact above part (List.dropLast_subset location member)
    · exact below part (List.mem_cons_of_mem _ member)
  | case4 seen location part rest notDot notBack next target link place resolved found
      inductionHypothesis =>
    have parts := known place resolved (List.mem_of_find?_eq_some found)
    exact inductionHypothesis known parts fun part member => below part (List.mem_cons_of_mem _ member)
  | case5 seen location part rest notDot notBack next target link place found =>
    have head : ∀ other ∈ [part], Path.IsPart other := by simpa using below part List.mem_cons_self
    refine ⟨isPart_of_mem_append (isPart_of_mem_append above head) fun other member => ?_, known⟩
    exact below other (List.mem_cons_of_mem _ member)
  | case6 seen location part rest notDot notBack next target link new start inner complete
      inductionHypothesis =>
    have beginning : ∀ part ∈ start, Path.IsPart part := by
      intro part member
      by_cases absolute : target.toList.head? = some '/'
      · simp [start, absolute] at member
      · exact above part (by simpa [start, absolute] using member)
    have resolved := enters _ _ _ (known.enter next) beginning (Path.ofString_proper target)
    refine inductionHypothesis (resolved.2.leave next resolved.1) resolved.1 fun other member => ?_
    exact below other (List.mem_cons_of_mem _ member)
  | case7 seen location part rest notDot notBack next target link new start inner incomplete =>
    have beginning : ∀ part ∈ start, Path.IsPart part := by
      intro part member
      by_cases absolute : target.toList.head? = some '/'
      · simp [start, absolute] at member
      · exact above part (by simpa [start, absolute] using member)
    have resolved := enters _ _ _ (known.enter next) beginning (Path.ofString_proper target)
    refine ⟨isPart_of_mem_append resolved.1 fun other member => ?_, resolved.2⟩
    exact below other (List.mem_cons_of_mem _ member)
  | case8 seen location part rest notDot notBack next noLink inductionHypothesis =>
    have head : ∀ other ∈ [part], Path.IsPart other := by simpa using below part List.mem_cons_self
    exact inductionHypothesis known (isPart_of_mem_append above head) fun other member =>
      below other (List.mem_cons_of_mem _ member)

/-- Resolving keeps what has been seen proper. -/
theorem resolveFrom_keepsProper (tree : Tree) (fuel : Nat) : KeepsProper (tree.resolveFrom fuel) := by
  induction fuel with
  | zero => exact fun seen location parts known above below => ⟨isPart_of_mem_append above below, known⟩
  | succ fuel inductionHypothesis => exact resolveParts_keepsProper tree inductionHypothesis

/-- A resolved path has no two dots in it. -/
theorem realPath_isPlain (tree : Tree) {path : Path} (proper : path.IsProper) :
    (tree.realPath path).IsPlain := by
  refine Path.tidy_isPlain rfl ?_
  exact (resolveFrom_keepsProper tree _ [] [] path.parts (by simp [Seen.IsProper]) (by simp) proper).1

/-- Without a link on the way nothing is resolved. -/
theorem resolveParts_of_unlinked {tree : Tree} {location : Location} {parts : List String}
    (names : ∀ part ∈ parts, Path.IsName part) (unlinked : tree.Unlinked location parts)
    (enter : Seen → Location → List String → Resolved) (seen : Seen) :
    (tree.resolveParts enter seen location parts).parts = location ++ parts := by
  induction parts generalizing location with
  | nil => simp [resolveParts]
  | cons part rest inductionHypothesis =>
    have name := names part List.mem_cons_self
    have next := Location.next_of_isName name location
    have clear := unlinked.head
    rw [next] at clear
    have further := inductionHypothesis (fun other member => names other (List.mem_cons_of_mem _ member))
      (next ▸ unlinked.tail)
    rw [resolveParts, if_neg name.notDot, if_neg name.notBack]
    dsimp only
    split
    · rename_i target link
      exact absurd link (clear target)
    · rw [further]
      simp

/-- A path by names alone is resolved as it stands where no link is met. -/
theorem realPath_of_unlinked {tree : Tree} {path : Path} (plain : path.IsPlain)
    (unlinked : tree.Unlinked [] path.parts) : tree.realPath path = ⟨.root, path.parts⟩ := by
  unfold realPath
  dsimp only
  rw [resolveFrom, resolveParts_of_unlinked plain unlinked]
  exact @Path.tidy_of_isPlain ⟨.root, path.parts⟩ plain

end Tree

end TreeBuild
