import TreeBuild.Project.Layout
import TreeBuild.Proofs.Tree.Straight

/-!
# Destinations

The destination of a source lies in the output tree as the source lies among the sources, and one of a
source from elsewhere lies directly in it. As long as no part of the path of a source leads back, none
of its destination does, and the destination stays in the output tree.
-/
namespace TreeBuild

namespace Path

/-- A path is its anchor and its parts. -/
theorem eq_of_parts {path other : Path} (anchor : path.anchor = other.anchor)
    (parts : path.parts = other.parts) : path = other := by
  cases path
  cases other
  rw [Path.mk.injEq]
  exact ⟨anchor, parts⟩

/-- A path by names alone stays wherever it goes down to. -/
theorem IsPlain.staysIn {path : Path} (plain : path.IsPlain) {top : Location}
    (below : top <+: path.parts) : path.StaysIn top := by
  obtain ⟨rest, parts⟩ := below
  refine ⟨rest, parts.symm, fun front before => ?_⟩
  have names : ∀ part ∈ front, IsName part := by
    intro part member
    exact plain part (parts ▸ List.mem_append_right top (before.subset member))
  rw [Location.follow_of_isName names]
  exact List.prefix_append top front

/-- The stem of a name has no letters but those of the name. -/
theorem mem_of_mem_stemOf {name : String} {c : Char} (member : c ∈ (stemOf name).toList) :
    c ∈ name.toList := by
  unfold stemOf splitSuffix at member
  dsimp only at member
  split at member
  · rename_i stem after
    split at member
    · exact member
    · have found : c ∈ name.toList.reverse := by
        have inStem : c ∈ stem := by simpa using member
        have inRest : c ∈ name.toList.reverse.dropWhile (· ≠ '.') := by
          rw [after]
          exact List.mem_cons_of_mem _ inStem
        exact (List.dropWhile_sublist _).subset inRest
      simpa using found
  · exact member

/-- A name with another suffix is a name. -/
theorem isName_stemOf_append {name : String} (noSlash : '/' ∉ name.toList) :
    IsName (stemOf name ++ Layout.compiledSuffix) := by
  have letters : (stemOf name ++ Layout.compiledSuffix).toList =
      (stemOf name).toList ++ ['.', 'j', 's'] := by
    rw [String.toList_append]
    rfl
  have ends : ∀ text : String, (stemOf name ++ Layout.compiledSuffix) = text →
      text.toList.getLast? = some 's' := by
    rintro _ rfl
    rw [letters]
    simp
  refine ⟨⟨fun same => ?_, fun same => ?_, ?_⟩, fun same => ?_⟩
  · simpa using ends _ same
  · simpa using ends _ same
  · rw [letters]
    simpa using fun member => noSlash (mem_of_mem_stemOf member)
  · simpa using ends _ same

end Path

namespace Layout

/-- Where a source of a layout lies, part by part. -/
structure IsPlaced (layout : Layout) : Prop where
  rootAbsolute : layout.root.isAbsolute
  rootPlain : layout.root.IsPlain
  outputAbsolute : layout.output.isAbsolute
  outputPlain : layout.output.IsPlain
  sourcesAbsolute : layout.sources.isAbsolute
  sourcesPlain : layout.sources.IsPlain
  /-- The directory of the sources does not have the name of a module. -/
  sourcesNoModule : (Dialect.ofPath layout.sources).isCompiled = false

/-- The layout of a project at a plain directory has its parts in place. -/
theorem isPlaced_ofRoot {root : Path} (absolute : root.isAbsolute) (plain : root.IsPlain) :
    (ofRoot root).IsPlaced ∧ (ofRoot root).sources = ⟨root.anchor, root.parts ++ ["src"]⟩ ∧
      (ofRoot root).output = ⟨root.anchor, root.parts ++ ["dist"]⟩ := by
  have src : Path.IsName "src" := by decide
  have dist : Path.IsName "dist" := by decide
  have sources : (ofRoot root).sources = ⟨root.anchor, root.parts ++ ["src"]⟩ :=
    root.div_of_isPart src.toIsPart
  have output : (ofRoot root).output = ⟨root.anchor, root.parts ++ ["dist"]⟩ :=
    root.div_of_isPart dist.toIsPart
  have below {part : String} (name : Path.IsName part) :
      Path.IsPlain ⟨root.anchor, root.parts ++ [part]⟩ := by
    intro other member
    rcases List.mem_append.mp member with above | last
    · exact plain other above
    · exact List.mem_singleton.mp last ▸ name
  refine ⟨⟨absolute, plain, ?_, ?_, ?_, ?_, ?_⟩, sources, output⟩
  · rw [output]
    exact absolute
  · rw [output]
    exact below dist
  · rw [sources]
    exact absolute
  · rw [sources]
    exact below src
  · rw [sources]
    have name : Path.name ⟨root.anchor, root.parts ++ ["src"]⟩ = "src" := by simp [Path.name]
    rw [Dialect.ofPath, name]
    decide

/-- The descriptor of a project lies outside of the output. -/
theorem descriptor_outside (root : Path) :
    ¬ (ofRoot root).output.parts <+: (ofRoot root).descriptor.parts := by
  have dist : Path.IsPart "dist" := ⟨by decide, by decide, by decide⟩
  have package : Path.IsPart "package.json" := ⟨by decide, by decide, by decide⟩
  change ¬ (root / "dist").parts <+: (root / "package.json").parts
  rw [root.div_of_isPart dist, root.div_of_isPart package]
  rintro ⟨rest, whole⟩
  simp at whole

variable {layout : Layout} {path : Path}

/-- An absolute path is not changed by resolving it in a project. -/
theorem resolve_of_isAbsolute (layout : Layout) (absolute : path.isAbsolute) :
    layout.resolve path = path := by
  simp [resolve, Path.join, absolute]

/-- A path that is read from the root has proper parts if it had them before. -/
theorem resolve_isProper (placed : layout.IsPlaced) (proper : path.IsProper) :
    (layout.resolve path).IsProper := by
  unfold resolve Path.join
  split
  · exact proper
  · intro part member
    exact (List.mem_append.mp member).elim (placed.rootPlain.proper part) (proper part)

/-- Every path is absolute once it is resolved in a project that is placed. -/
theorem resolve_isAbsolute (placed : layout.IsPlaced) (path : Path) :
    (layout.resolve path).isAbsolute := by
  unfold resolve Path.join
  split
  · assumption
  · exact placed.rootAbsolute

/-- What is said of single parts, in between being a part and being a name. -/
structure SaysOfParts (good : String → Prop) : Prop where
  isPart : ∀ part, good part → Path.IsPart part
  ofName : ∀ part, Path.IsName part → good part

/-- To be a part of a path is told of parts. -/
theorem saysOfParts_isPart : SaysOfParts Path.IsPart :=
  ⟨fun _ isPart => isPart, fun _ name => name.toIsPart⟩

/-- To be a name is told of parts. -/
theorem saysOfParts_isName : SaysOfParts Path.IsName :=
  ⟨fun _ name => name.toIsPart, fun _ name => name⟩

variable {good : String → Prop}

/-- The place of a source has parts of the source only, and it has some if the source is a module. -/
theorem placeOf_eq (placed : layout.IsPlaced) (parts : ∀ part ∈ path.parts, good part) :
    ∃ rest, layout.placeOf path = ⟨.relative, rest⟩ ∧ (∀ part ∈ rest, good part) ∧
      (rest = [] → (Dialect.ofPath path).isCompiled = false) := by
  unfold placeOf
  cases found : path.relativeTo? layout.sources with
  | some place =>
    unfold Path.relativeTo? at found
    split at found
    · rename_i below
      cases found
      obtain ⟨anchor, rest, whole⟩ := below
      have drop : path.parts.drop layout.sources.parts.length = rest := by simp [← whole]
      refine ⟨rest, by simp [drop], fun part member => ?_, ?_⟩
      · exact parts part (whole ▸ List.mem_append_right _ member)
      · rintro rfl
        have same : path = layout.sources := by
          cases path
          cases sources : layout.sources
          simp_all
        rw [same]
        exact placed.sourcesNoModule
    · cases found
  | none =>
    rcases path.name_cases with ⟨empty, nameless⟩ | last
    · refine ⟨[], by simp [empty], by simp, fun _ => ?_⟩
      rw [Dialect.ofPath, nameless]
      decide
    · refine ⟨[path.name], by simp [List.ne_nil_of_mem last], fun part member => ?_, by simp⟩
      exact List.mem_singleton.mp member ▸ parts path.name last

/-- The destination of a source lies in the output tree, and has no parts but those of the source and
a new name. It is the output tree itself only if the source has no place. -/
theorem destination_eq (placed : layout.IsPlaced) (kind : SaysOfParts good)
    (absolute : path.isAbsolute) (parts : ∀ part ∈ path.parts, good part) :
    ∃ rest, layout.destination path = ⟨layout.output.anchor, layout.output.parts ++ rest⟩ ∧
      (∀ part ∈ rest, good part) ∧ (rest = [] → layout.placeOf path = ⟨.relative, []⟩) := by
  obtain ⟨rest, place, whole, module⟩ := placeOf_eq placed parts
  have joined : layout.output.join (layout.placeOf path) =
      ⟨layout.output.anchor, layout.output.parts ++ rest⟩ := by
    rw [place]
    rfl
  unfold destination
  dsimp only
  rw [resolve_of_isAbsolute layout absolute, joined]
  split
  · rename_i compiled
    rcases List.eq_nil_or_concat rest with rfl | ⟨front, last, rfl⟩
    · simp [module rfl] at compiled
    · have noSlash := (kind.isPart last (whole last (by simp))).noSlash
      refine ⟨front ++ [Path.stemOf last ++ compiledSuffix], ?_, ?_, by simp⟩
      · simp [Path.withSuffix?, Path.withName?, Path.name, ← List.append_assoc]
      · intro part member
        rcases List.mem_append.mp member with old | new
        · exact whole part (by simp [old])
        · exact List.mem_singleton.mp new ▸ kind.ofName _ (Path.isName_stemOf_append noSlash)
  · exact ⟨rest, rfl, whole, fun none => none ▸ place⟩

/-- The destination of a module has the name of compiled code. -/
theorem getLast?_destination (placed : layout.IsPlaced) (absolute : path.isAbsolute)
    (proper : path.IsProper) (compiled : (Dialect.ofPath path).isCompiled) :
    ∃ stem, (layout.destination path).parts.getLast? = some (stem ++ compiledSuffix) := by
  obtain ⟨rest, place, -, module⟩ := placeOf_eq placed proper
  have joined : layout.output.join (layout.placeOf path) =
      ⟨layout.output.anchor, layout.output.parts ++ rest⟩ := by
    rw [place]
    rfl
  have nonempty : ¬ rest = [] := fun none => by simp [module none] at compiled
  unfold destination
  dsimp only
  rw [resolve_of_isAbsolute layout absolute, joined, if_pos compiled]
  exact ⟨_, by simp [Path.withSuffix?, Path.withName?, nonempty]; rfl⟩

/-- The destination of an absolute path is absolute. -/
theorem destination_isAbsolute (placed : layout.IsPlaced) (absolute : path.isAbsolute)
    (proper : path.IsProper) : (layout.destination path).isAbsolute := by
  obtain ⟨rest, same, -⟩ := destination_eq placed saysOfParts_isPart absolute proper
  rw [same]
  exact placed.outputAbsolute

/-- The destination of a source can be read back from its text. -/
theorem destination_isProper (placed : layout.IsPlaced) (absolute : path.isAbsolute)
    (proper : path.IsProper) : (layout.destination path).IsProper := by
  obtain ⟨rest, same, parts, -⟩ := destination_eq placed saysOfParts_isPart absolute proper
  rw [same]
  intro part member
  exact (List.mem_append.mp member).elim (placed.outputPlain.proper part) (parts part)

/-- The destination of a path without special parts has none. -/
theorem destination_isPlain (placed : layout.IsPlaced) (absolute : path.isAbsolute)
    (plain : path.IsPlain) : (layout.destination path).IsPlain := by
  obtain ⟨rest, same, names, -⟩ := destination_eq placed saysOfParts_isName absolute plain
  rw [same]
  intro part member
  exact (List.mem_append.mp member).elim (placed.outputPlain part) (names part)

/-- The destination of a source without two dots stays in the output tree. -/
theorem destination_staysIn (placed : layout.IsPlaced) (absolute : path.isAbsolute)
    (plain : path.IsPlain) : (layout.destination path).StaysIn layout.output.parts := by
  refine (destination_isPlain placed absolute plain).staysIn ?_
  obtain ⟨rest, same, -⟩ := destination_eq placed saysOfParts_isName absolute plain
  rw [same]
  exact List.prefix_append _ rest

end Layout

end TreeBuild
