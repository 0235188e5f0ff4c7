import TreeBuild.Proofs.Project.Answers
import TreeBuild.Watch.Event

/-!
# What is watched is what is built

A full build finds the files below the directory of the sources that are not hidden, and the watching takes
up a change of a file below that directory unless a part of the way to it hides it. Both look at the parts
of the way behind the directory of the sources, and both leave out a part that begins with a dot. The
watching leaves out the directories of packages and caches as well: what lies in them is built by a full
build, but its changes are not taken up.
-/
namespace TreeBuild

open TreeBuild.Tree TreeBuild.Path

namespace WatchEvent

variable {tree : Tree} {root : Path} {parts : List String}

/-- The directories of a project where nothing has to be resolved. -/
def Scope.ofRoot (root : Path) : Scope :=
  ⟨(Layout.ofRoot root).sources, (Layout.ofRoot root).output⟩

/-- A directory whose content is never taken up. -/
def isIgnored (part : String) : Bool := ignoredDirectories.contains part

/-- A part is passed over if it is hidden or ignored. -/
theorem hides_eq (part : String) : hides part = (Glob.isHidden part || isIgnored part) := rfl

/-- The directories of a project without links are found where they are. -/
theorem ofLayout_eq (regular : tree.IsRegular) (rooted : root.anchor = .root) (plain : root.IsPlain)
    (fitsSources : (Layout.ofRoot root).sources.Fits) (fits : (Layout.ofRoot root).output.Fits) :
    Scope.ofLayout tree (.ofRoot root) = .ok (Scope.ofRoot root) := by
  have sources : Sources.resolvePath tree (Layout.ofRoot root).sources = .ok (Layout.ofRoot root).sources := by
    refine Sources.resolvePath_of_fits regular.linkless ?_ ?_ fitsSources
    · rw [Sources.sources_eq]
      exact rooted
    · rw [Sources.sources_eq]
      exact Glob.isPlain_below_name plain (by decide)
  have output : Sources.resolvePath tree (Layout.ofRoot root).output = .ok (Layout.ofRoot root).output := by
    refine Sources.resolvePath_of_fits regular.linkless ?_ ?_ fits
    · rw [Sources.output_eq]
      exact rooted
    · rw [Sources.output_eq]
      exact Glob.isPlain_below_name plain (by decide)
  unfold Scope.ofLayout
  rw [sources, output]
  rfl

/-- A path below the sources is taken up unless a part behind them hides it. -/
theorem accepts_below (root : Path) (parts : List String) :
    (Scope.ofRoot root).accepts ((Layout.ofRoot root).sources.below parts) = !parts.any hides := by
  have place : ((Layout.ofRoot root).sources.below parts).relativeTo? (Scope.ofRoot root).sources =
      some ⟨.relative, parts⟩ := by
    have inside : (Layout.ofRoot root).sources.parts <+: ((Layout.ofRoot root).sources.below parts).parts :=
      List.prefix_append _ _
    rw [Scope.ofRoot, Path.relativeTo?, if_pos ⟨rfl, inside⟩]
    simp [below]
  -- the sources and the output part ways at the first name behind the root
  have away : ¬ (Scope.ofRoot root).output.parts <+: ((Layout.ofRoot root).sources.below parts).parts := by
    intro front
    rw [Scope.ofRoot, Sources.output_eq, Sources.sources_eq, below_below, below_parts, below_parts,
      List.prefix_append_right_inj, List.singleton_append, List.cons_prefix_cons] at front
    exact absurd front.1 (by decide)
  have notOutput : (Layout.ofRoot root).sources.below parts ≠ (Scope.ofRoot root).output :=
    fun same => away (same ▸ List.prefix_refl _)
  have notAbove : (Scope.ofRoot root).output ∉ ((Layout.ofRoot root).sources.below parts).parents := by
    intro above
    obtain ⟨count, -, same⟩ := List.mem_map.mp above
    refine away ?_
    rw [← same]
    exact List.take_prefix count _
  unfold Scope.accepts
  rw [place]
  simp [notOutput, notAbove]

/-- The file at a path has been modified, and this leads to an event about it. -/
def Scope.TakesUp (scope : Scope) (tree : Tree) (path : Path) : Prop :=
  scope.eventsOf tree false (.modified path) = .ok [{ path, kind := .modified }]

/-- The file at a path has been modified, and this leads to no event. -/
def Scope.PassesOver (scope : Scope) (tree : Tree) (path : Path) : Prop :=
  scope.eventsOf tree false (.modified path) = .ok []

/-- A change of a file below the sources leads to one event, unless a part of its way is passed over. -/
theorem eventsOf_modified (regular : tree.IsRegular) (rooted : root.anchor = .root) (plain : root.IsPlain)
    (names : ∀ part ∈ parts, IsName part) (fits : ((Layout.ofRoot root).sources.below parts).Fits) :
    (Scope.ofRoot root).eventsOf tree false (.modified ((Layout.ofRoot root).sources.below parts)) =
      .ok (if parts.any hides then []
        else [{ path := (Layout.ofRoot root).sources.below parts, kind := .modified }]) := by
  have whole := Sources.sources_below root parts
  have resolved : Sources.resolvePath tree ((Layout.ofRoot root).sources.below parts) =
      .ok ((Layout.ofRoot root).sources.below parts) := by
    refine Sources.resolvePath_of_fits regular.linkless ?_ ?_ fits
    · rw [whole]
      exact rooted
    · rw [whole]
      exact Glob.isPlain_below_cons plain (by decide) names
  rw [Scope.eventsOf, if_neg (by decide), Scope.event, Scope.accepted?, resolved]
  simp only [accepts_below]
  cases parts.any hides <;> rfl

/-- A file of the project lies at a way of names behind the directory of the sources. -/
structure IsSource (tree : Tree) (root : Path) (parts : List String) : Prop where
  inside : parts ≠ []
  held : (tree.contentAt? ((Layout.ofRoot root).sources.below parts).parts).isSome

namespace IsSource

/-- The parts of the way to a source are names. -/
theorem names (source : IsSource tree root parts) (regular : tree.IsRegular) : ∀ part ∈ parts, IsName part := by
  obtain ⟨content, held⟩ := Option.isSome_iff_exists.mp source.held
  obtain ⟨executable, present⟩ := contentAt?_eq_some.mp held
  exact fun part member => regular.named _ _ present part (List.mem_append_right _ member)

/-- The system takes the path of a source if it takes that of everything. -/
theorem fits (source : IsSource tree root parts) (addressable : tree.Addressable)
    (rooted : root.anchor = .root) : ((Layout.ofRoot root).sources.below parts).Fits := by
  obtain ⟨content, held⟩ := Option.isSome_iff_exists.mp source.held
  obtain ⟨executable, present⟩ := contentAt?_eq_some.mp held
  have whole : (Layout.ofRoot root).sources.below parts =
      ⟨.root, ((Layout.ofRoot root).sources.below parts).parts⟩ := by
    rw [Sources.sources_eq, Path.below, Path.below, rooted]
  exact whole ▸ addressable _ _ present

end IsSource

/-- A full build finds the files that no part of their way hides. -/
theorem found_iff (regular : tree.IsRegular) (addressable : tree.Addressable)
    (rooted : root.anchor = .root) (plain : root.IsPlain) {files : List SourceFile}
    (found : Sources.discover tree (Layout.ofRoot root) "src/**/*" = .ok files)
    (source : IsSource tree root parts) :
    (Layout.ofRoot root).sources.below parts ∈ files.map SourceFile.path ↔
      ∀ part ∈ parts, Glob.isHidden part = false := by
  obtain ⟨paths, rfl, -, members⟩ := Sources.discover_everything regular rooted plain found
  have same : (paths.map (SourceFile.ofPath (Layout.ofRoot root))).map SourceFile.path = paths := by
    rw [List.map_map]
    exact (List.map_congr_left fun _ _ => rfl).trans (List.map_id paths)
  rw [same, members]
  constructor
  · rintro ⟨others, -, shown, equal, -⟩
    have equal : parts = others := List.append_cancel_left (congrArg Path.parts equal)
    exact equal ▸ fun part member => (shown part member).2
  · intro shown
    refine ⟨parts, source.inside, fun part member => ⟨source.names regular part member, shown part member⟩,
      rfl, ?_⟩
    rw [holdsFile, Bool.and_eq_true, decide_eq_true_eq]
    exact ⟨source.fits addressable rooted, source.held⟩

/-- What is taken up is found by a full build, and what a full build finds is taken up, except for what lies
in the directories of packages and caches. -/
theorem watched_as_found (regular : tree.IsRegular) (addressable : tree.Addressable)
    (rooted : root.anchor = .root) (plain : root.IsPlain)
    (fitsSources : (Layout.ofRoot root).sources.Fits) (fitsOutput : (Layout.ofRoot root).output.Fits) :
    ∃ scope files, Scope.ofLayout tree (.ofRoot root) = .ok scope ∧
      Sources.discover tree (.ofRoot root) "src/**/*" = .ok files ∧
      ∀ parts, IsSource tree root parts →
        (scope.TakesUp tree ((Layout.ofRoot root).sources.below parts) →
          (Layout.ofRoot root).sources.below parts ∈ files.map SourceFile.path) ∧
        ((∀ part ∈ parts, isIgnored part = false) →
          ((Layout.ofRoot root).sources.below parts ∈ files.map SourceFile.path ↔
            scope.TakesUp tree ((Layout.ofRoot root).sources.below parts))) ∧
        ((∃ part ∈ parts.dropLast, isIgnored part = true) →
          scope.PassesOver tree ((Layout.ofRoot root).sources.below parts)) := by
  have fits : root.Fits := by
    rw [Sources.sources_eq] at fitsSources
    exact Path.Fits.front (by simp [isAbsolute, rooted]) fitsSources
  obtain ⟨files, found⟩ := Sources.discover_answers regular rooted plain fits
    (Glob.takesBelow_of_addressable addressable (by rw [Sources.sources_eq]; exact rooted))
  refine ⟨_, files, ofLayout_eq regular rooted plain fitsSources fitsOutput, found, fun parts source => ?_⟩
  have known := found_iff regular addressable rooted plain found source
  have told := eventsOf_modified regular rooted plain (source.names regular)
    (source.fits addressable rooted)
  have hidden : parts.any hides = false ↔
      (∀ part ∈ parts, Glob.isHidden part = false) ∧ ∀ part ∈ parts, isIgnored part = false := by
    simp only [List.any_eq_false, hides_eq, Bool.or_eq_true, not_or, Bool.not_eq_true]
    exact ⟨fun all => ⟨fun part member => (all part member).1, fun part member => (all part member).2⟩,
      fun both part member => ⟨both.1 part member, both.2 part member⟩⟩
  have takesUp : (Scope.ofRoot root).TakesUp tree ((Layout.ofRoot root).sources.below parts) ↔
      parts.any hides = false := by
    rw [Scope.TakesUp, told]
    cases parts.any hides <;> simp
  refine ⟨fun taken => known.mpr (hidden.mp (takesUp.mp taken)).1, fun heeded => ?_, ?_⟩
  · rw [known, takesUp, hidden]
    exact ⟨fun shown => ⟨shown, heeded⟩, And.left⟩
  · rintro ⟨part, member, ignored⟩
    have hides : parts.any hides = true :=
      List.any_eq_true.mpr ⟨part, List.dropLast_subset parts member, by rw [hides_eq, ignored, Bool.or_true]⟩
    rw [Scope.PassesOver, told, if_pos hides]

/-- A project with a source in a directory, and with a module in a directory of packages among its sources. -/
def packageTree : Tree :=
  ⟨[(["p"], .directory), (["p", "src"], .directory), (["p", "src", "a"], .directory),
    (["p", "src", "a", "b.ts"], .file [] false), (["p", "src", "node_modules"], .directory),
    (["p", "src", "node_modules", "x.ts"], .file [] false)]⟩

/-- The project with the packages is a regular tree. -/
theorem packageTree_isRegular : packageTree.IsRegular := isRegular_of_entries (by decide +kernel)

/-- The system takes the path of everything in that project. -/
theorem packageTree_addressable : packageTree.Addressable :=
  addressable_of_entries (by decide +kernel) (by decide +kernel)

/-- A change of the source in the directory is taken up, and a full build finds this source. -/
theorem watched_as_found_in_directory : ∃ scope files,
    Scope.ofLayout packageTree (.ofRoot ⟨.root, ["p"]⟩) = .ok scope ∧
      Sources.discover packageTree (.ofRoot ⟨.root, ["p"]⟩) "src/**/*" = .ok files ∧
      IsSource packageTree ⟨.root, ["p"]⟩ ["a", "b.ts"] ∧
      scope.TakesUp packageTree ⟨.root, ["p", "src", "a", "b.ts"]⟩ ∧
      ⟨.root, ["p", "src", "a", "b.ts"]⟩ ∈ files.map SourceFile.path := by
  obtain ⟨scope, files, looked, found, each⟩ :=
    @watched_as_found packageTree ⟨.root, ["p"]⟩ packageTree_isRegular packageTree_addressable rfl
      (by decide) (by decide +kernel) (by decide +kernel)
  have source : IsSource packageTree ⟨.root, ["p"]⟩ ["a", "b.ts"] := ⟨by decide, by decide +kernel⟩
  obtain ⟨-, both, -⟩ := each _ source
  have isFound : ⟨.root, ["p", "src", "a", "b.ts"]⟩ ∈ files.map SourceFile.path :=
    (found_iff packageTree_isRegular packageTree_addressable rfl (by decide) found source).mpr (by decide)
  exact ⟨scope, files, looked, found, source, (both (by decide)).mp isFound, isFound⟩

/-- A full build finds the module in the directory of packages, but a change of it leads to no event. -/
theorem packages_are_built_not_watched :
    packageTree.IsRegular ∧ IsSource packageTree ⟨.root, ["p"]⟩ ["node_modules", "x.ts"] ∧
      ∃ scope files, Scope.ofLayout packageTree (.ofRoot ⟨.root, ["p"]⟩) = .ok scope ∧
        Sources.discover packageTree (.ofRoot ⟨.root, ["p"]⟩) "src/**/*" = .ok files ∧
        ⟨.root, ["p", "src", "node_modules", "x.ts"]⟩ ∈ files.map SourceFile.path ∧
        ¬ scope.TakesUp packageTree ⟨.root, ["p", "src", "node_modules", "x.ts"]⟩ := by
  have rooted : (Path.mk .root ["p"]).anchor = .root := rfl
  have source : IsSource packageTree ⟨.root, ["p"]⟩ ["node_modules", "x.ts"] := ⟨by decide, by decide +kernel⟩
  obtain ⟨files, found⟩ := Sources.discover_answers packageTree_isRegular rooted (by decide) (by decide +kernel)
    (Glob.takesBelow_of_addressable packageTree_addressable rfl)
  have isFound := (found_iff packageTree_isRegular packageTree_addressable rfl (by decide) found source).mpr
    (by decide)
  have told := eventsOf_modified packageTree_isRegular rooted (by decide)
    (source.names packageTree_isRegular) (source.fits packageTree_addressable rooted)
  have hidden : ["node_modules", "x.ts"].any hides = true := by decide
  rw [if_pos hidden] at told
  refine ⟨packageTree_isRegular, source, Scope.ofRoot _, files, ofLayout_eq packageTree_isRegular rooted
    (by decide) (by decide +kernel) (by decide +kernel), found, isFound, fun taken => ?_⟩
  cases told.symm.trans taken

end WatchEvent

end TreeBuild
