import TreeBuild.Proofs.Project.Destinations

/-!
# Sources with one destination

A source strictly below the source directory has its destination strictly below the output tree, in the
directory that mirrors its own. A module gets another suffix there, and whatever has this suffix behind a
stem is a module itself. So two sources share a destination only if both are modules of one directory whose
names differ in the suffix alone, and a file that is copied or declares types shares it with none.
-/
namespace TreeBuild

namespace Path

/-- Only the empty name has an empty stem. -/
theorem stemOf_ne_empty {name : String} (nonempty : name ≠ "") : stemOf name ≠ "" := by
  unfold stemOf splitSuffix
  dsimp only
  split
  · rename_i stem _
    split
    · exact nonempty
    · rename_i bounds
      cases stem with
      | nil => simp at bounds
      | cons c rest =>
        intro none
        simpa using congrArg String.toList none
  · exact nonempty

/-- The suffix behind a stem begins with the last dot. -/
theorem suffixOf_append {stem ending : List Char} (named : stem ≠ []) (nonempty : ending ≠ [])
    (noDot : '.' ∉ ending) :
    suffixOf (String.ofList (stem ++ '.' :: ending)) = String.ofList ('.' :: ending) := by
  have backward : (stem ++ '.' :: ending).reverse = ending.reverse ++ '.' :: stem.reverse := by simp
  have all : ∀ c ∈ ending.reverse, decide (c ≠ '.') = true := by
    intro c member
    exact decide_eq_true fun dot => noDot (dot ▸ List.mem_reverse.mp member)
  have taken : (stem ++ '.' :: ending).reverse.takeWhile (· ≠ '.') = ending.reverse := by
    rw [backward, List.takeWhile_append_of_pos all]
    simp
  have dropped : (stem ++ '.' :: ending).reverse.dropWhile (· ≠ '.') = '.' :: stem.reverse := by
    rw [backward, List.dropWhile_append_of_pos all]
    simp
  simp only [suffixOf, splitSuffix, String.toList_ofList, taken, dropped]
  simp [named, nonempty]

end Path

/-- What has the suffix of compiled modules behind a stem is a module. -/
theorem Dialect.ofName_append_compiledSuffix {stem : String} (nonempty : stem ≠ "") :
    Dialect.ofName (stem ++ Layout.compiledSuffix) = .plain := by
  have lower : (stem ++ Layout.compiledSuffix).toList.map Text.lowerAscii =
      stem.toList.map Text.lowerAscii ++ ['.', 'j', 's'] := by
    rw [String.toList_append, List.map_append]
    rfl
  have suffix : Path.suffixOf (String.ofList (stem.toList.map Text.lowerAscii ++ ['.', 'j', 's'])) =
      ".js" := Path.suffixOf_append (by simpa using nonempty) (by simp) (by decide)
  have undeclared : (declarationEndings.any fun ending =>
      ending.toList.isSuffixOf (stem.toList.map Text.lowerAscii ++ ['.', 'j', 's'])) = false := by
    simp [declarationEndings, List.isSuffixOf, List.isPrefixOf]
  unfold ofName
  dsimp only
  rw [lower, suffix, undeclared]
  decide

namespace Layout

variable {layout : Layout} {path : Path} {name other : String}

/-- A path at which a source can lie: it starts from the root, never leads back, and lies strictly below
the directory of the sources. -/
structure IsSource (layout : Layout) (path : Path) : Prop where
  absolute : path.isAbsolute
  plain : path.IsPlain
  anchor : path.anchor = layout.sources.anchor
  below : layout.sources.parts <+: path.parts
  apart : path.parts ≠ layout.sources.parts

/-- A path lies strictly below the output tree, in the directory that mirrors the one of a source. -/
structure IsCounterpart (layout : Layout) (path destination : Path) : Prop where
  parent : ∃ above, path.parent = ⟨layout.sources.anchor, layout.sources.parts ++ above⟩ ∧
    destination.parent = ⟨layout.output.anchor, layout.output.parts ++ above⟩
  below : ∃ rest, rest ≠ [] ∧ (∀ part ∈ rest, Path.IsName part) ∧
    destination = ⟨layout.output.anchor, layout.output.parts ++ rest⟩

/-- The name that a source has in the output tree. -/
def outputName (name : String) : String :=
  if (Dialect.ofName name).isCompiled then Path.stemOf name ++ compiledSuffix else name

/-- The name of an output is a name. -/
theorem isName_outputName (isName : Path.IsName name) : Path.IsName (outputName name) := by
  unfold outputName
  split
  · exact Path.isName_stemOf_append isName.noSlash
  · exact isName

/-- The place of a source is made of the names of directories and its own name. -/
theorem IsSource.exists_place (source : layout.IsSource path) : ∃ above,
    path = ⟨layout.sources.anchor, layout.sources.parts ++ above ++ [path.name]⟩ ∧
      (∀ part ∈ above, Path.IsName part) ∧ Path.IsName path.name := by
  obtain ⟨rest, whole⟩ := source.below
  rcases List.eq_nil_or_concat rest with rfl | ⟨above, name, rfl⟩
  · exact absurd (by simpa using whole.symm) source.apart
  · have parts : path.parts = layout.sources.parts ++ above ++ [name] := by simpa using whole.symm
    have named : path.name = name := by simp [Path.name, parts]
    have plain : ∀ part ∈ layout.sources.parts ++ above ++ [name], Path.IsName part := by
      rw [← parts]
      exact source.plain
    refine ⟨above, Path.eq_of_parts source.anchor (named ▸ parts), fun part member => ?_, ?_⟩
    · exact plain part (by simp [member])
    · exact plain path.name (by simp [named])

/-- The destination of a source lies where the source lies, under its name in the output tree. -/
theorem destination_of_place {above : List String}
    (absolute : layout.sources.isAbsolute) :
    layout.destination ⟨layout.sources.anchor, layout.sources.parts ++ above ++ [name]⟩ =
      ⟨layout.output.anchor, layout.output.parts ++ above ++ [outputName name]⟩ := by
  have place : layout.placeOf ⟨layout.sources.anchor, layout.sources.parts ++ above ++ [name]⟩ =
      ⟨.relative, above ++ [name]⟩ := by
    simp [placeOf, Path.relativeTo?]
  have joined : layout.output.join ⟨.relative, above ++ [name]⟩ =
      ⟨layout.output.anchor, layout.output.parts ++ above ++ [name]⟩ := by
    simp [Path.join, Path.isAbsolute]
  have resolved : layout.resolve ⟨layout.sources.anchor, layout.sources.parts ++ above ++ [name]⟩ =
      ⟨layout.sources.anchor, layout.sources.parts ++ above ++ [name]⟩ :=
    resolve_of_isAbsolute layout absolute
  unfold destination
  dsimp only
  rw [resolved, place, joined]
  simp only [Dialect.ofPath, Path.name, List.getLast?_concat, Option.getD_some, outputName]
  split
  · simp [Path.withSuffix?, Path.withName?, Path.name]
  · rfl

/-- Two names become one only if they belong to modules and differ in the suffix alone: a module has the
suffix of compiled modules then, and what has it is a module already. -/
theorem outputName_eq_iff (named : name ≠ "") (otherNamed : other ≠ "") :
    outputName name = outputName other ↔
      name = other ∨ (Dialect.ofName name).isCompiled ∧ (Dialect.ofName other).isCompiled ∧
        Path.stemOf name = Path.stemOf other := by
  have becomes {module copied : String} (nonempty : module ≠ "")
      (noModule : (Dialect.ofName copied).isCompiled = false) :
      Path.stemOf module ++ compiledSuffix ≠ copied := by
    rintro rfl
    rw [Dialect.ofName_append_compiledSuffix (Path.stemOf_ne_empty nonempty)] at noModule
    cases noModule
  cases compiled : (Dialect.ofName name).isCompiled <;>
    cases otherCompiled : (Dialect.ofName other).isCompiled <;>
    simp only [outputName, compiled, otherCompiled, if_true, if_false, Bool.false_eq_true, false_and,
      and_false, or_false, true_and]
  case false.true =>
    refine ⟨fun same => absurd same.symm (becomes otherNamed compiled), ?_⟩
    rintro rfl
    rw [compiled] at otherCompiled
    cases otherCompiled
  case true.false =>
    refine ⟨fun same => absurd same (becomes named otherCompiled), ?_⟩
    rintro rfl
    rw [compiled] at otherCompiled
    cases otherCompiled
  case true.true =>
    rw [String.append_left_inj]
    exact ⟨.inr, fun same => same.elim (fun equal => equal ▸ rfl) id⟩

/-- The destination of a source mirrors it, and two sources have one destination exactly if they are the
same or are modules of one directory with the same stem. So no other source has the destination of one
that is not compiled. -/
theorem destination_shared_iff (layout : Layout) (path other : Path) (source : layout.IsSource path)
    (another : layout.IsSource other) :
    layout.IsCounterpart path (layout.destination path) ∧
      (layout.destination path = layout.destination other ↔
        path = other ∨ path.parent = other.parent ∧ (Dialect.ofPath path).isCompiled ∧
          (Dialect.ofPath other).isCompiled ∧ Path.stemOf path.name = Path.stemOf other.name) ∧
      ((Dialect.ofPath path).isCompiled = false → layout.destination path = layout.destination other →
        path = other) := by
  have absolute : layout.sources.isAbsolute := by
    have absolute := source.absolute
    rwa [Path.isAbsolute, source.anchor] at absolute
  obtain ⟨above, place, names, isName⟩ := source.exists_place
  obtain ⟨otherAbove, otherPlace, -, otherIsName⟩ := another.exists_place
  have lies : layout.destination path =
      ⟨layout.output.anchor, layout.output.parts ++ above ++ [outputName path.name]⟩ := by
    rw [← destination_of_place absolute, ← place]
  have otherLies : layout.destination other =
      ⟨layout.output.anchor, layout.output.parts ++ otherAbove ++ [outputName other.name]⟩ := by
    rw [← destination_of_place absolute, ← otherPlace]
  have parent : path.parent = ⟨layout.sources.anchor, layout.sources.parts ++ above⟩ := by
    simpa [Path.parent] using congrArg Path.parent place
  have otherParent : other.parent = ⟨layout.sources.anchor, layout.sources.parts ++ otherAbove⟩ := by
    simpa [Path.parent] using congrArg Path.parent otherPlace
  have equal : path = other ↔ above = otherAbove ∧ path.name = other.name := by
    constructor
    · rintro rfl
      exact ⟨by simpa using parent.symm.trans otherParent, rfl⟩
    · rintro ⟨rfl, same⟩
      rw [place, otherPlace, same]
  have shares : layout.destination path = layout.destination other ↔
      path = other ∨ path.parent = other.parent ∧ (Dialect.ofPath path).isCompiled ∧
        (Dialect.ofPath other).isCompiled ∧ Path.stemOf path.name = Path.stemOf other.name := by
    have merged := outputName_eq_iff isName.nonempty otherIsName.nonempty
    rw [lies, otherLies, equal, parent, otherParent, Dialect.ofPath, Dialect.ofPath]
    simp only [Path.mk.injEq, true_and, List.append_assoc, List.append_cancel_left_eq]
    rw [← List.concat_eq_append, ← List.concat_eq_append, List.concat_inj, merged, and_or_left]
  refine ⟨⟨⟨above, parent, by simp [lies, Path.parent]⟩, ?_⟩, shares, fun noModule same => ?_⟩
  · refine ⟨above ++ [outputName path.name], by simp, fun part member => ?_, by simp [lies]⟩
    rcases List.mem_append.mp member with directory | last
    · exact names part directory
    · exact List.mem_singleton.mp last ▸ isName_outputName isName
  · rcases shares.mp same with equal | ⟨-, compiled, -⟩
    · exact equal
    · rw [noModule] at compiled
      cases compiled

/-- A component and a module of one name are built to one file. -/
theorem destination_shared_iff_of_component :
    (ofRoot ⟨.root, ["p"]⟩).IsSource ⟨.root, ["p", "src", "ui", "a.test.TSX"]⟩ ∧
      (ofRoot ⟨.root, ["p"]⟩).IsSource ⟨.root, ["p", "src", "ui", "a.test.js"]⟩ ∧
      (ofRoot ⟨.root, ["p"]⟩).destination ⟨.root, ["p", "src", "ui", "a.test.TSX"]⟩ =
        (ofRoot ⟨.root, ["p"]⟩).destination ⟨.root, ["p", "src", "ui", "a.test.js"]⟩ := by
  have source : (ofRoot ⟨.root, ["p"]⟩).IsSource ⟨.root, ["p", "src", "ui", "a.test.TSX"]⟩ :=
    ⟨by decide, by decide, by decide, by decide, by decide⟩
  have another : (ofRoot ⟨.root, ["p"]⟩).IsSource ⟨.root, ["p", "src", "ui", "a.test.js"]⟩ :=
    ⟨by decide, by decide, by decide, by decide, by decide⟩
  exact ⟨source, another, (destination_shared_iff (ofRoot ⟨.root, ["p"]⟩)
    ⟨.root, ["p", "src", "ui", "a.test.TSX"]⟩ ⟨.root, ["p", "src", "ui", "a.test.js"]⟩ source another).2.1.mpr
      (.inr ⟨by decide, by decide, by decide, by decide⟩)⟩

/-! ### Apart from twins -/

/-- Two modules of one directory whose names differ in the suffix alone. -/
structure AreTwins (path other : Path) : Prop where
  parent : path.parent = other.parent
  compiled : (Dialect.ofPath path).isCompiled
  otherCompiled : (Dialect.ofPath other).isCompiled
  stem : Path.stemOf path.name = Path.stemOf other.name

/-- Below the output tree a destination goes through the directories that its source goes through below
the sources, and it ends with the name that the source has in the output. -/
theorem IsSource.exists_destination (source : layout.IsSource path) : ∃ above,
    path = ⟨layout.sources.anchor, layout.sources.parts ++ above ++ [path.name]⟩ ∧
      layout.destination path =
        ⟨layout.output.anchor, layout.output.parts ++ above ++ [outputName path.name]⟩ ∧
      (∀ part ∈ above, Path.IsName part) ∧ Path.IsName path.name := by
  have absolute : layout.sources.isAbsolute := by
    have absolute := source.absolute
    rwa [Path.isAbsolute, source.anchor] at absolute
  obtain ⟨above, place, names, isName⟩ := source.exists_place
  have lies : layout.destination path =
      ⟨layout.output.anchor, layout.output.parts ++ above ++ [outputName path.name]⟩ := by
    rw [← destination_of_place absolute, ← place]
  exact ⟨above, place, lies, names, isName⟩

/-- The destination of a source is made of names if the output tree is. -/
theorem IsSource.isPlain_destination (source : layout.IsSource path) (plain : layout.output.IsPlain) :
    (layout.destination path).IsPlain := by
  obtain ⟨above, -, lies, names, isName⟩ := source.exists_destination
  rw [lies]
  intro part member
  simp only [List.append_assoc, List.mem_append, List.mem_singleton] at member
  rcases member with output | directory | rfl
  · exact plain part output
  · exact names part directory
  · exact isName_outputName isName

/-- The destination of a source lies below the output tree. -/
theorem IsSource.output_isPrefix (source : layout.IsSource path) :
    layout.output.parts <+: (layout.destination path).parts := by
  obtain ⟨above, -, lies, -⟩ := source.exists_destination
  rw [lies, List.append_assoc]
  exact List.prefix_append _ _

/-- Two sources that are not twins have destinations at different places. -/
theorem IsSource.destination_ne {other : Path} (source : layout.IsSource path)
    (another : layout.IsSource other) (different : path ≠ other) (apart : ¬ AreTwins path other) :
    (layout.destination path).parts ≠ (layout.destination other).parts := by
  obtain ⟨above, place, lies, -, isName⟩ := source.exists_destination
  obtain ⟨otherAbove, otherPlace, otherLies, -, otherIsName⟩ := another.exists_destination
  intro same
  simp only [lies, otherLies, List.append_assoc, List.append_cancel_left_eq] at same
  obtain ⟨rfl, merged⟩ : above = otherAbove ∧ outputName path.name = outputName other.name := by
    rwa [← List.concat_eq_append, ← List.concat_eq_append, List.concat_inj] at same
  rcases (outputName_eq_iff isName.nonempty otherIsName.nonempty).mp merged with
    equal | ⟨compiled, otherCompiled, stem⟩
  · exact different (by rw [place, otherPlace, equal])
  · have parent : path.parent = other.parent := by
      rw [place, otherPlace]
      simp [Path.parent]
    exact apart ⟨parent, compiled, otherCompiled, stem⟩

end Layout

end TreeBuild
