import TreeBuild.Proofs.Glob.Descent
import TreeBuild.Proofs.Project.Destinations

/-!
# All sources of a project

The pattern that stands for all sources matches whatever lies below the directory of the sources, except
what is hidden or lies in a hidden directory. In a regular tree every match leads to where it says, so the
sources that are found are the files among them, each of them once. Their destinations lie in the output
tree as they lie among the sources, except that modules get another suffix.
-/
namespace TreeBuild

open TreeBuild.Tree TreeBuild.Path

namespace Sources

section

variable {tree : Tree} {listed more : List Path} {text : String} {path : Path}

/-- A match is listed if it leads to a file that has not been listed before. -/
theorem addMatch_cases (added : addMatch tree listed text = .ok more) :
    ∃ found, resolvePath tree (ofString text) = .ok found ∧
      (found ∈ listed ∧ more = listed ∨
        found ∉ listed ∧ tree.isFile found = .ok false ∧ more = listed ∨
        found ∉ listed ∧ tree.isFile found = .ok true ∧ more = listed ++ [found]) := by
  obtain ⟨found, resolved, added⟩ := exists_of_bind_eq_ok added
  refine ⟨found, resolved, ?_⟩
  by_cases known : found ∈ listed
  · rw [if_pos (by simpa using known)] at added
    cases added
    exact .inl ⟨known, rfl⟩
  · rw [if_neg (by simpa using known)] at added
    obtain ⟨isFile, told, added⟩ := exists_of_bind_eq_ok added
    have answer := ok_of_mapError told
    cases isFile with
    | false =>
      cases added
      exact .inr (.inl ⟨known, answer, rfl⟩)
    | true =>
      cases added
      exact .inr (.inr ⟨known, answer, rfl⟩)

/-- A match adds what it leads to, if that is a file, and leaves the list without repetitions. -/
theorem mem_of_addMatch (added : addMatch tree listed text = .ok more) (distinct : listed.Nodup)
    (areFiles : ∀ path ∈ listed, tree.isFile path = .ok true) :
    more.Nodup ∧ (∀ path ∈ more, tree.isFile path = .ok true) ∧
      ∃ found isFile, resolvePath tree (ofString text) = .ok found ∧ tree.isFile found = .ok isFile ∧
        ∀ path, path ∈ more ↔ path ∈ listed ∨ path = found ∧ tree.isFile path = .ok true := by
  obtain ⟨found, resolved, which⟩ := addMatch_cases added
  rcases which with ⟨known, rfl⟩ | ⟨-, noFile, rfl⟩ | ⟨new, isFile, rfl⟩
  · refine ⟨distinct, areFiles, found, true, resolved, areFiles found known, fun path => ?_⟩
    exact ⟨.inl, fun either => either.elim id fun ⟨same, _⟩ => same ▸ known⟩
  · refine ⟨distinct, areFiles, found, false, resolved, noFile, fun path => ⟨.inl, ?_⟩⟩
    rintro (old | ⟨rfl, isFile⟩)
    · exact old
    · cases noFile.symm.trans isFile
  · refine ⟨?_, ?_, found, true, resolved, isFile, fun path => ?_⟩
    · exact List.nodup_append_comm.mp (List.nodup_cons.mpr ⟨new, distinct⟩)
    · exact List.forall_mem_append.mpr ⟨areFiles, List.forall_mem_singleton.mpr isFile⟩
    · rw [List.mem_append, List.mem_singleton]
      exact or_congr_right ⟨fun same => ⟨same, same ▸ isFile⟩, And.left⟩

/-- The paths that are listed are those of the files that matches lead to, each of them once. -/
theorem mem_of_foldlM {texts : List String} (added : texts.foldlM (addMatch tree) listed = .ok more)
    (distinct : listed.Nodup) (areFiles : ∀ path ∈ listed, tree.isFile path = .ok true) :
    more.Nodup ∧ ∀ path, path ∈ more ↔ path ∈ listed ∨
      ∃ text ∈ texts, resolvePath tree (ofString text) = .ok path ∧ tree.isFile path = .ok true := by
  induction texts generalizing listed with
  | nil =>
    cases added
    exact ⟨distinct, by simp⟩
  | cons text rest inductionHypothesis =>
    rw [List.foldlM_cons] at added
    obtain ⟨next, first, others⟩ := exists_of_bind_eq_ok added
    obtain ⟨nextDistinct, nextFiles, found, isFile, resolved, -, here⟩ := mem_of_addMatch first distinct areFiles
    obtain ⟨nodup, members⟩ := inductionHypothesis others nextDistinct nextFiles
    refine ⟨nodup, fun path => ?_⟩
    rw [members, here, or_assoc]
    refine or_congr_right ?_
    rw [List.exists_mem_cons_iff, resolved, Except.ok.injEq, eq_comm]

end

/-- The path of names with slashes between them. -/
theorem ofString_spelled {names : List String} (proper : ∀ part ∈ names, IsPart part) :
    ofString (Glob.spelled names) = ⟨.relative, names⟩ := by
  have letters := Glob.toList_spelled names
  have parts : partsOf (Glob.spelled names) = names := by
    rw [partsOf, Text.split, Text.splitAt_eq_splitOn, letters]
    refine filter_split_body proper (by decide) fun part member => ?_
    simpa using And.intro (proper part member).nonempty (proper part member).notDot
  have anchor : anchorOf (Glob.spelled names).toList = .relative := by
    rw [anchorOf, letters, takeWhile_body proper]
    rfl
  rw [ofString, parts, anchor]

/-- Names with slashes between them are read from a path as what lies below it. -/
theorem div_spelled (path : Path) {names : List String} (proper : ∀ part ∈ names, IsPart part) :
    (path / Glob.spelled names : Path) = path.below names := by
  change path.join (ofString (Glob.spelled names)) = _
  rw [ofString_spelled proper]
  rfl

section

variable {tree : Tree} {root : Path} {files : List SourceFile}

/-- The sources of a project lie below its root. -/
theorem sources_eq (root : Path) : (Layout.ofRoot root).sources = root.below ["src"] :=
  root.div_of_isPart (by decide : IsName "src").toIsPart

/-- What lies below the sources lies below the root. -/
theorem sources_below (root : Path) (parts : List String) :
    (Layout.ofRoot root).sources.below parts = root.below ("src" :: parts) := by
  rw [sources_eq]
  exact (root.below_cons "src" parts).symm

/-- The output tree lies below the root, too. -/
theorem output_eq (root : Path) : (Layout.ofRoot root).output = root.below ["dist"] :=
  root.div_of_isPart (by decide : IsName "dist").toIsPart

/-- The sources are what the sorted matches of the pattern lead to. -/
theorem exists_listed (found : discover tree (Layout.ofRoot root) "src/**/*" = .ok files) :
    ∃ spellings paths, Glob.expand tree root.toString "src/**/*" = .ok spellings ∧
      (Text.sorted (spellings.map fun text : String => (root / text : Path).toString)).foldlM
        (addMatch tree) [] = .ok paths ∧
      files = paths.map (SourceFile.ofPath (Layout.ofRoot root)) := by
  have relative : (ofString "src/**/*").isAbsolute = false := by decide
  obtain ⟨texts, matched, found⟩ := exists_of_bind_eq_ok found
  obtain ⟨paths, listed, found⟩ := exists_of_bind_eq_ok found
  rw [relative] at found
  simp only [Bool.and_false, Bool.false_and, Bool.false_eq_true, if_false] at found
  cases found
  rw [matchesOf, if_neg (by simp [relative])] at matched
  obtain ⟨spellings, expanded, matched⟩ := exists_of_bind_eq_ok matched
  cases matched
  exact ⟨spellings, paths, ok_of_mapError expanded, listed, rfl⟩

/-- What a match of the pattern is read as is the path behind the root that it spells. -/
theorem ofString_match (rooted : root.anchor = .root) (plain : root.IsPlain) {parts : List String}
    (shown : Glob.AreShown parts) :
    (root.below ("src" :: parts)).IsPlain ∧
      (root / Glob.spelled ("src" :: parts) : Path).toString = (root.below ("src" :: parts)).toString ∧
      ofString (root.below ("src" :: parts)).toString = root.below ("src" :: parts) := by
  have names : ∀ part ∈ "src" :: parts, IsName part :=
    List.forall_mem_cons.mpr ⟨by decide, fun part member => (shown part member).1⟩
  have plainBelow := Glob.isPlain_below plain names
  have absolute : (root.below ("src" :: parts)).isAbsolute := by simp [isAbsolute, below, rooted]
  refine ⟨plainBelow, ?_, ofString_toString absolute plainBelow.proper⟩
  rw [div_spelled root fun part member => (names part member).toIsPart]

/-- All sources: the files below the directory of the sources, unless a name on the way is hidden. -/
theorem discover_everything (regular : tree.IsRegular) (rooted : root.anchor = .root)
    (plain : root.IsPlain) (found : discover tree (Layout.ofRoot root) "src/**/*" = .ok files) :
    ∃ paths : List Path, files = paths.map (SourceFile.ofPath (Layout.ofRoot root)) ∧ paths.Nodup ∧
      ∀ path, path ∈ paths ↔ ∃ parts, parts ≠ [] ∧ Glob.AreShown parts ∧
        path = (Layout.ofRoot root).sources.below parts ∧ tree.holdsFile path = true := by
  obtain ⟨spellings, paths, told, listed, rfl⟩ := exists_listed found
  obtain ⟨distinct, members⟩ := mem_of_foldlM listed List.nodup_nil (by simp)
  refine ⟨paths, rfl, distinct, fun path => ?_⟩
  rw [members]
  constructor
  · rintro (none | ⟨text, member, resolved, isFile⟩)
    · cases none
    · obtain ⟨spelling, inside, rfl⟩ := List.mem_map.mp (Glob.mem_sorted.mp member)
      obtain ⟨parts, nonempty, rfl, shown, -⟩ := Glob.present_of_mem_expand regular rooted plain told inside
      obtain ⟨plainBelow, text, reading⟩ := ofString_match rooted plain shown
      rw [text, reading] at resolved
      have same := @eq_of_resolvePath tree (root.below ("src" :: parts)) path regular.linkless rooted
        plainBelow resolved
      refine ⟨parts, nonempty, shown, by rw [sources_below, same], ?_⟩
      have plainPath : path.IsPlain := same ▸ plainBelow
      exact regular.isFile_eq plainPath isFile
  · rintro ⟨parts, nonempty, shown, rfl, held⟩
    rw [sources_below] at held ⊢
    obtain ⟨plainBelow, text, reading⟩ := ofString_match rooted plain shown
    obtain ⟨fits, isFile⟩ : (root.below ("src" :: parts)).Fits ∧
        (tree.contentAt? (root.below ("src" :: parts)).parts).isSome := by
      simpa [Tree.holdsFile] using held
    obtain ⟨content, held⟩ := Option.isSome_iff_exists.mp isFile
    obtain ⟨executable, present⟩ := contentAt?_eq_some.mp held
    have status := (regular.status_iff plainBelow).mpr ⟨fits, present⟩
    have matched : Glob.spelled ("src" :: parts) ∈ spellings := by
      have room := @Glob.room_of_below (root.below ["src"]) rooted
        (Glob.isPlain_below_name plain (by decide)) (by simp) parts
        (fun part member => (shown part member).1.toIsPart) nonempty (root.below_cons "src" parts ▸ fits)
      obtain ⟨front, name, rfl⟩ := (List.eq_nil_or_concat' parts).resolve_left nonempty
      have above : root.below ("src" :: (front ++ [name])) = (root.below ("src" :: front)).below [name] := by
        rw [below_below]
        rfl
      exact Glob.mem_expand regular rooted plain told room shown
        (Glob.fits_of_below (by simp [isAbsolute, Path.below, rooted]) (above ▸ fits)) present
    refine .inr ⟨(root / Glob.spelled ("src" :: parts) : Path).toString, ?_, ?_, ?_⟩
    · exact Glob.mem_sorted.mpr (List.mem_map.mpr ⟨_, matched, rfl⟩)
    · rw [text, reading]
      exact @resolvePath_of_status tree (root.below ("src" :: parts)) regular.linkless rooted
        plainBelow _ status
    · exact Tree.isFile_iff.mpr ⟨content, executable, status⟩

end

end Sources

/-! ### Where their outputs go -/

namespace Layout

/-- The names that lead to the output of a source, given those that lead to the source. -/
def outputParts (parts : List String) : List String :=
  if (Dialect.ofName (parts.getLast?.getD "")).isCompiled then
    parts.dropLast ++ [stemOf (parts.getLast?.getD "") ++ compiledSuffix]
  else parts

/-- Only the last name may change. -/
theorem dropLast_outputParts (parts : List String) : (outputParts parts).dropLast = parts.dropLast := by
  unfold outputParts
  split
  · simp
  · rfl

/-- What corresponds to a way below the sources is a way below the output tree. -/
theorem outputParts_ne_nil {parts : List String} (nonempty : parts ≠ []) : outputParts parts ≠ [] := by
  unfold outputParts
  split
  · simp
  · exact nonempty

/-- A source lies in the output tree as it lies among the sources. -/
theorem destination_below {root : Path} (absolute : root.isAbsolute) {parts : List String}
    (nonempty : parts ≠ []) :
    (ofRoot root).destination ((ofRoot root).sources.below parts) =
      (ofRoot root).output.below (outputParts parts) := by
  have sources := Sources.sources_eq root
  have same : ((ofRoot root).sources.below parts).isAbsolute := by
    rw [sources]
    exact absolute
  have place : (ofRoot root).placeOf ((ofRoot root).sources.below parts) = ⟨.relative, parts⟩ := by
    have inside : (ofRoot root).sources.parts <+: ((ofRoot root).sources.below parts).parts :=
      List.prefix_append _ _
    rw [placeOf, Path.relativeTo?, if_pos ⟨rfl, inside⟩]
    simp [below]
  have name : ((ofRoot root).sources.below parts).name = parts.getLast?.getD "" := by
    rw [Path.name, below_parts, List.getLast?_append_of_ne_nil _ nonempty]
  have joined : (ofRoot root).output.join ⟨.relative, parts⟩ = (ofRoot root).output.below parts := rfl
  unfold destination
  dsimp only
  rw [resolve_of_isAbsolute _ same, place, joined, Dialect.ofPath, name, outputParts]
  split
  · have some : ((ofRoot root).output.below parts).parts ≠ [] := by simp [nonempty]
    have stem : ((ofRoot root).output.below parts).name = parts.getLast?.getD "" := by
      rw [Path.name, below_parts, List.getLast?_append_of_ne_nil _ nonempty]
    rw [Path.withSuffix?, Path.withName?, if_neg (by simpa using some), stem, Option.getD_some]
    simp [below, List.dropLast_append_of_ne_nil nonempty]
  · rfl

end Layout

end TreeBuild
