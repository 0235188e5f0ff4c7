import TreeBuild.Proofs.Build.Containment
import TreeBuild.Proofs.Build.Results
import TreeBuild.Proofs.Project.Everything

/-!
# Full builds

A full build starts with nothing in the output, and what it finds are all sources. So the files that it
leaves in the output are the products of these and the descriptor, and nothing of an earlier output is
among them. Sources that are there at the same time can only be in each other's way by having the same
destination: a source that is no directory has no other source below it.
-/
namespace TreeBuild.Build

open TreeBuild.Tree TreeBuild.Path

/-- What files hold once the output has been cleared. -/
def clearedContents (layout : Layout) (start : Tree) : Contents := fun location =>
  if layout.output.parts <+: location then none else start.contentAt? location

/-- A tree in which nothing of the output is left, and everything else is as it was. -/
structure Cleared (layout : Layout) (start tree : Tree) : Prop where
  regular : tree.IsRegular
  entries : ∀ location, tree.get? location =
    if layout.output.parts <+: location then none else start.get? location

section

variable {root : Path} {start tree : Tree} {request : Request} {temporary : Path} {clock : Nat}

/-- What a cleared project holds outside of its output tree is what it held before. -/
theorem Cleared.contents {layout : Layout} (cleared : Cleared layout start tree) :
    tree.contentAt? = clearedContents layout start := by
  funext location
  have here := cleared.entries location
  by_cases below : layout.output.parts <+: location
  · rw [if_pos below] at here
    rw [clearedContents, if_pos below, contentAt?_eq_none_of_none here]
  · rw [if_neg below] at here
    rw [clearedContents, if_neg below, contentAt?_congr here]

/-- Where a file is found depends on what files hold. -/
theorem Cleared.holdsFile {layout : Layout} (cleared : Cleared layout start tree) {path : Path}
    (outside : ¬ layout.output.parts <+: path.parts) : tree.holdsFile path = start.holdsFile path := by
  rw [Tree.holdsFile, Tree.holdsFile, cleared.contents, clearedContents, if_neg outside]

/-- Below a directory that can be looked up, a path whose text is short enough can be looked up, too. -/
theorem fits_or_long (fits : root.Fits) (rooted : root.anchor = .root) {name : String}
    (nameable : name.toList.any Text.isUnnameable = false) (noNull : name.toList.contains '\x00' = false)
    (short : name.utf8ByteSize ≤ maxNameBytes) :
    (root.below [name]).Fits ∨ (root.below [name]).toString.toList.any Text.isUnnameable = false ∧
      (root.below [name]).toString.toList.contains '\x00' = false ∧
      maxPathBytes < (root.below [name]).toString.utf8ByteSize := by
  have absolute : root.isAbsolute := by simp [isAbsolute, rooted]
  have absoluteBelow : (root.below [name]).isAbsolute := absolute
  have letters : (root.below [name]).toString.toList = (anchorText root.anchor).toList ++
      body (root.parts ++ [name]) := toList_toString_of_isAbsolute absoluteBelow
  have slash : Text.isUnnameable '/' = false := by decide
  have allNameable : (root.below [name]).toString.toList.any Text.isUnnameable = false := by
    have known := fits.nameable
    rw [toList_toString_of_isAbsolute absolute, List.any_append, Bool.or_eq_false_iff] at known
    rw [letters, List.any_append, known.1, Bool.false_or]
    by_cases top : root.parts = []
    · simpa [top, body] using nameable
    · rw [body_append top (List.cons_ne_nil name []), List.any_append, known.2, List.any_cons, slash]
      simpa [body] using nameable
  have allNoNull : (root.below [name]).toString.toList.contains '\x00' = false := by
    have known := fits.noNull
    rw [toList_toString_of_isAbsolute absolute, List.contains_append, Bool.or_eq_false_iff] at known
    rw [letters, List.contains_append, known.1, Bool.false_or]
    by_cases top : root.parts = []
    · simpa [top, body] using noNull
    · rw [body_append top (List.cons_ne_nil name []), List.contains_append, known.2, List.contains_cons]
      simpa [body] using noNull
  by_cases long : maxPathBytes < (root.below [name]).toString.utf8ByteSize
  · exact .inr ⟨allNameable, allNoNull, long⟩
  · refine .inl ⟨allNameable, allNoNull, Nat.not_lt.mp long, fun part member => ?_⟩
    rcases List.mem_append.mp member with above | last
    · exact fits.shortParts part above
    · exact List.mem_singleton.mp last ▸ short

/-- Where nothing is found in the place of the output, nothing is there. -/
theorem absent_of_isPresent (regular : start.IsRegular) (rooted : root.anchor = .root)
    (plain : root.IsPlain) (fits : root.Fits)
    (missing : start.isPresent (Layout.ofRoot root).output = .ok false) :
    start.get? (Layout.ofRoot root).output.parts = none := by
  rw [Sources.output_eq] at missing ⊢
  have plainOutput : (root.below ["dist"]).IsPlain := Glob.isPlain_below_name plain (by decide)
  by_contra present
  obtain ⟨entry, present⟩ := Option.ne_none_iff_exists'.mp present
  rcases @fits_or_long root fits rooted "dist" (by decide) (by decide) (by decide) with
    fitsOutput | ⟨nameable, noNull, long⟩
  · have known := @IsRegular.probe_iff start (root.below ["dist"]) regular plainOutput (fun _ => true)
      false missing
    simp only [Bool.false_eq_true, and_true, false_iff, not_and, not_exists] at known
    exact known fitsOutput entry present
  · have refused : start.status (root.below ["dist"]) = .error .nameTooLong := by
      unfold status locatePath locate
      rw [nameable, noNull, if_neg (by simp), if_neg (by simp), if_pos long]
    rw [isPresent, probe, refused] at missing
    cases missing

/-- A full build starts with nothing in the output. -/
theorem clear_clears (regular : start.IsRegular) (rooted : root.anchor = .root) (plain : root.IsPlain)
    (fits : root.Fits) (all : request.input = .proper "src/**/*") (files : request.isLiteral = false)
    (clears : request.clear) :
    Ends (Session.Shows (fun tree => tree = start) temporary clock) (clear request (Layout.ofRoot root))
      (fun _ => Session.Shows (Cleared (Layout.ofRoot root) start) temporary clock) (fun _ => True) := by
  have many : request.isSinglePath = .ok false := by
    have relative : (ofString "src/**/*").isAbsolute = false := by decide
    rw [Request.isSinglePath, files, all, Given.path, Except.map, relative]
    rfl
  have plainOutput : (Layout.ofRoot root).output.IsPlain := by
    rw [Sources.output_eq]
    exact Glob.isPlain_below_name plain (by decide)
  have inside : (Layout.ofRoot root).output.parts ≠ [] := by simp [Sources.output_eq]
  unfold clear
  refine ((Ends.ask _).mono (fun _ shown => shown) (fun _ _ told => told) fun _ _ => trivial).bind
    fun single => Ends.of_and fun told => ?_
  rw [many] at told
  cases told
  rw [if_neg (by simp), if_pos clears]
  unfold Output.clear
  refine ((Ends.askFiles _).mono (fun _ shown => shown) (fun _ _ told => told) fun _ _ => trivial).bind
    fun present => ?_
  cases present with
  | true =>
    rw [if_pos rfl]
    refine .alterFiles (fun session shown removed => ?_) fun _ _ => trivial
    obtain ⟨-, shown⟩ := shown
    rw [shown.tree] at removed ⊢
    obtain ⟨regularAfter, entries⟩ := regular.removeTree plainOutput inside removed
    exact ⟨⟨regularAfter, entries⟩, shown.temporary, shown.clock⟩
  | false =>
    rw [if_neg (by simp)]
    refine .pure fun session told => ?_
    obtain ⟨missing, shown⟩ := told
    rw [shown.tree] at missing
    have none := absent_of_isPresent regular rooted plain fits missing
    refine ⟨⟨shown.tree ▸ regular, fun location => ?_⟩, shown.temporary, shown.clock⟩
    rw [shown.tree]
    split
    · rename_i below
      by_contra present
      obtain ⟨entry, present⟩ := Option.ne_none_iff_exists'.mp present
      by_cases same : (Layout.ofRoot root).output.parts = location
      · rw [← same, none] at present
        cases present
      · rw [regular.directory_above present below same] at none
        cases none
    · rfl

/-! ### All sources go together -/

variable {files : List SourceFile}

/-- A source is a file that lies below the directory of the sources. -/
structure IsSource (root : Path) (start : Tree) (file : SourceFile) (parts : List String) : Prop where
  nonempty : parts ≠ []
  shown : Glob.AreShown parts
  path : file.path = (Layout.ofRoot root).sources.below parts
  held : start.holdsFile file.path = true
  dialect : file.dialect = Dialect.ofPath file.path

/-- Each source that a full build finds is a file below the directory of the sources. -/
theorem isSource_of_discover (regular : start.IsRegular) (rooted : root.anchor = .root)
    (plain : root.IsPlain) (found : Sources.discover start (Layout.ofRoot root) "src/**/*" = .ok files)
    {file : SourceFile} (member : file ∈ files) : ∃ parts, IsSource root start file parts := by
  obtain ⟨paths, rfl, -, members⟩ := Sources.discover_everything regular rooted plain found
  obtain ⟨path, listed, rfl⟩ := List.mem_map.mp member
  obtain ⟨parts, nonempty, shown, same, held⟩ := (members path).mp listed
  exact ⟨parts, nonempty, shown, same, held, rfl⟩

/-- No source lies in the output tree. -/
theorem not_output_of_sources (root : Path) (parts : List String) :
    ¬ (Layout.ofRoot root).output.parts <+: ((Layout.ofRoot root).sources.below parts).parts := by
  rw [Sources.output_eq, Sources.sources_eq]
  rintro ⟨rest, same⟩
  simp only [below_parts, List.append_assoc, List.singleton_append, List.append_cancel_left_eq,
    List.cons.injEq] at same
  exact absurd same.1 (by decide)

/-- The sources that are found are the same as those before the output was cleared. -/
theorem found_everything (regular : start.IsRegular) (rooted : root.anchor = .root) (plain : root.IsPlain)
    (cleared : Cleared (Layout.ofRoot root) start tree) {others : List SourceFile}
    (before : Sources.discover start (Layout.ofRoot root) "src/**/*" = .ok files)
    (after : Sources.discover tree (Layout.ofRoot root) "src/**/*" = .ok others) :
    others.Perm files := by
  obtain ⟨paths, rfl, distinct, members⟩ := Sources.discover_everything regular rooted plain before
  obtain ⟨otherPaths, rfl, otherDistinct, otherMembers⟩ :=
    Sources.discover_everything cleared.regular rooted plain after
  refine List.Perm.map _ ((List.perm_ext_iff_of_nodup otherDistinct distinct).mpr fun path => ?_)
  rw [members, otherMembers]
  refine exists_congr fun parts => and_congr_right fun _ => and_congr_right fun _ =>
    and_congr_right fun same => ?_
  rw [same, cleared.holdsFile (not_output_of_sources root parts)]

/-- What a file holds whose presence is known. -/
theorem contentAt?_of_holdsFile {path : Path} (held : start.holdsFile path = true) :
    ∃ content, start.contentAt? path.parts = some content := by
  rw [Tree.holdsFile, Bool.and_eq_true] at held
  exact Option.isSome_iff_exists.mp held.2

/-- The path of a source has no special parts. -/
theorem IsSource.isPlain {file : SourceFile} {parts : List String} (source : IsSource root start file parts)
    (plain : root.IsPlain) : file.path.IsPlain := by
  rw [source.path, Sources.sources_eq, below_below]
  exact Glob.isPlain_below_cons plain (by decide) fun part member => (source.shown part member).1

/-- A source is compiled or copied to the place in the output tree that corresponds to its own. -/
theorem IsSource.placeOf_eq {file : SourceFile} {parts : List String}
    (source : IsSource root start file parts) (rooted : root.anchor = .root) :
    placeOf (Layout.ofRoot root) file =
      (Layout.ofRoot root).output.parts ++ Layout.outputParts parts := by
  rw [placeOf, source.path, Layout.destination_below (by simp [isAbsolute, rooted]) source.nonempty]
  rfl

/-- No source is in the way of another, since it is no directory. -/
theorem IsSource.separate (regular : start.IsRegular) (rooted : root.anchor = .root)
    {asset other : SourceFile} {parts otherParts : List String} (source : IsSource root start asset parts)
    (another : IsSource root start other otherParts) (isAsset : asset.dialect = .asset)
    (inWay : placeOf (Layout.ofRoot root) asset <+: placeOf (Layout.ofRoot root) other) :
    placeOf (Layout.ofRoot root) asset = placeOf (Layout.ofRoot root) other := by
  have kept : Layout.outputParts parts = parts := by
    have name : asset.path.name = parts.getLast?.getD "" := by
      rw [source.path, Path.name, below_parts, List.getLast?_append_of_ne_nil _ source.nonempty]
    have notCompiled : (Dialect.ofName (parts.getLast?.getD "")).isCompiled = false := by
      rw [← name]
      change (Dialect.ofPath asset.path).isCompiled = false
      rw [← source.dialect, isAsset]
      rfl
    rw [Layout.outputParts, if_neg (by simp [notCompiled])]
  rw [source.placeOf_eq rooted, another.placeOf_eq rooted, kept] at inWay ⊢
  rw [List.prefix_append_right_inj] at inWay
  have some := Layout.outputParts_ne_nil another.nonempty
  rw [← List.dropLast_append_getLast some] at inWay ⊢
  rcases List.prefix_concat_iff.mp inWay with same | front
  · rw [same]
  · exfalso
    rw [Layout.dropLast_outputParts] at front
    have inside : parts <+: otherParts := front.trans (List.dropLast_prefix otherParts)
    have shorter : parts ≠ otherParts := by
      rintro rfl
      have length := front.length_le
      rw [List.length_dropLast] at length
      have := List.length_pos_of_ne_nil source.nonempty
      omega
    obtain ⟨content, held⟩ := contentAt?_of_holdsFile source.held
    obtain ⟨otherContent, otherHeld⟩ := contentAt?_of_holdsFile another.held
    obtain ⟨executable, present⟩ := contentAt?_eq_some.mp otherHeld
    have directory : start.get? asset.path.parts = .some .directory := by
      refine regular.directory_above present ?_ ?_
      · rw [source.path, another.path]
        exact (List.prefix_append_right_inj _).mpr inside
      · rw [source.path, another.path]
        simpa using shorter
    rw [contentAt?_eq_none_of_directory directory] at held
    cases held

/-- All sources go together if their destinations are different. -/
theorem batch_everything (regular : start.IsRegular) (rooted : root.anchor = .root) (plain : root.IsPlain)
    (found : Sources.discover start (Layout.ofRoot root) "src/**/*" = .ok files)
    (apart : ((emitted files).map (placeOf (Layout.ofRoot root))).Nodup) :
    Batch (Layout.ofRoot root) files where
  placed := (Layout.isPlaced_ofRoot (by simp [isAbsolute, rooted]) plain).1
  absolute file member := by
    obtain ⟨parts, source⟩ := isSource_of_discover regular rooted plain found member
    rw [source.path, Sources.sources_eq]
    simp [isAbsolute, below, rooted]
  plain file member := by
    obtain ⟨parts, source⟩ := isSource_of_discover regular rooted plain found member
    exact source.isPlain plain
  dialect file member := by
    obtain ⟨parts, source⟩ := isSource_of_discover regular rooted plain found member
    exact source.dialect
  apart := apart
  separate asset member isAsset other another _ inWay := by
    obtain ⟨parts, source⟩ := isSource_of_discover regular rooted plain found member
    obtain ⟨otherParts, otherSource⟩ := isSource_of_discover regular rooted plain found another
    exact source.separate regular rooted otherSource isAsset inWay
  outside file member := by
    obtain ⟨parts, source⟩ := isSource_of_discover regular rooted plain found member
    rw [source.path]
    exact not_output_of_sources root parts

/-- The order of the files does not matter. -/
theorem Batch.perm {layout : Layout} {others : List SourceFile} (batch : Batch layout files)
    (same : others.Perm files) : Batch layout others where
  placed := batch.placed
  absolute file member := batch.absolute file (same.mem_iff.mp member)
  plain file member := batch.plain file (same.mem_iff.mp member)
  dialect file member := batch.dialect file (same.mem_iff.mp member)
  apart := ((same.filter _).map _).nodup_iff.mpr batch.apart
  separate asset member isAsset other another :=
    batch.separate asset (same.mem_iff.mp member) isAsset other (same.mem_iff.mp another)
  outside file member := batch.outside file (same.mem_iff.mp member)

/-- What is not in the output holds what it held. -/
theorem clearedContents_of_not {layout : Layout} {location : Location}
    (outside : ¬ layout.output.parts <+: location) :
    clearedContents layout start location = start.contentAt? location :=
  if_neg outside

/-- What a full build has to do with once the output has been cleared. -/
theorem prospect_everything (regular : start.IsRegular) (rooted : root.anchor = .root)
    (plain : root.IsPlain)
    (found : Sources.discover start (Layout.ofRoot root) "src/**/*" = .ok files)
    (apart : ((emitted files).map (placeOf (Layout.ofRoot root))).Nodup) {others : List SourceFile}
    (same : others.Perm files) :
    Prospect (Layout.ofRoot root) others (clearedContents (Layout.ofRoot root) start)
      (Cleared (Layout.ofRoot root) start) where
  batch := (batch_everything regular rooted plain found apart).perm same
  present file member := by
    obtain ⟨parts, source⟩ := isSource_of_discover regular rooted plain found (same.mem_iff.mp member)
    obtain ⟨content, held⟩ := contentAt?_of_holdsFile source.held
    refine ⟨content, ?_⟩
    rw [clearedContents_of_not, held]
    rw [source.path]
    exact not_output_of_sources root parts
  regular tree cleared := cleared.regular
  contents tree cleared := cleared.contents
  clear tree cleared file member _ directory := by
    have inside := ((batch_everything regular rooted plain found apart).perm same).output_isPrefix member
    rw [cleared.entries, if_pos inside] at directory
    cases directory

/-! ### The output of a full build -/

/-- The output mirrors the sources: it holds their products and its descriptor, and nothing else. Assets
are as their sources are; a module is what the compiler has made of its source, with its specifiers
rewritten where all products were there; the descriptor is that among the sources, or an empty one, made to
declare the linkage. -/
structure Mirrors (tools : Toolchain) (layout : Layout) (request : Request) (options : CompilerOptions)
    (files : List SourceFile) (copy : Path) (start after : Tree) : Prop where
  regular : after.IsRegular
  places : ∀ location, layout.output.parts <+: location →
    ((after.contentAt? location).isSome ↔ location = layout.outputDescriptor.parts ∨
      ∃ file ∈ files, file.dialect ≠ .declaration ∧ location = placeOf layout file)
  assets : ∀ file ∈ files, file.dialect = .asset → placeOf layout file ≠ layout.outputDescriptor.parts →
    ∃ content, start.contentAt? file.path.parts = some content ∧
      after.contentAt? (placeOf layout file) = some content
  modules : ∀ file ∈ files, file.dialect.isCompiled → ∃ content raw bytes,
    start.contentAt? file.path.parts = some content ∧
    tools.Compiled layout options file.path content raw ∧
    Rewritten (standing layout (emitted files)
      (Function.update (clearedContents layout start) copy.parts none))
      (layout.destination file.path) raw bytes ∧
    after.contentAt? (placeOf layout file) = some bytes
  descriptor : ∃ original, Output.Patches request.format original
      (after.contentAt? layout.outputDescriptor.parts) ∧
    (original = none ∧ (∀ file ∈ files, file.dialect ≠ .declaration →
        placeOf layout file ≠ layout.outputDescriptor.parts) ∨
      ∃ file ∈ files, file.dialect = .asset ∧ placeOf layout file = layout.outputDescriptor.parts ∧
        original = start.contentAt? file.path.parts)

/-- What counts of the files that are done is where their products go. -/
theorem standing_congr {layout : Layout} {done others : List SourceFile} (base : Contents)
    (same : ∀ file, file ∈ others ↔ file ∈ done) : standing layout others base = standing layout done base := by
  funext path
  have members : path.parts ∈ others.map (placeOf layout) ↔ path.parts ∈ done.map (placeOf layout) := by
    simp only [List.mem_map, same]
  simp only [standing, members]

/-- What a full build leaves behind is that the output mirrors the sources. -/
theorem mirrors_of_results {tools : Toolchain} (regular : start.IsRegular) (rooted : root.anchor = .root)
    (plain : root.IsPlain)
    (found : Sources.discover start (Layout.ofRoot root) "src/**/*" = .ok files)
    (apart : ((emitted files).map (placeOf (Layout.ofRoot root))).Nodup) {others : List SourceFile}
    (same : others.Perm files) {copy : Path} {after : Tree}
    (results : Results tools (Layout.ofRoot root) request true others
      (clearedContents (Layout.ofRoot root) start) copy after) :
    ∃ options, CompilerOptions.Chosen request
        (start.contentAt? (Layout.ofRoot root).descriptor.parts) (some copy) options ∧
      Mirrors tools (Layout.ofRoot root) request options files copy start after := by
  obtain ⟨options, middle, chosen, moment, patched⟩ := results
  have batch := batch_everything regular rooted plain found apart
  have members : ∀ file, file ∈ emitted others ↔ file ∈ emitted files := fun file =>
    (same.filter _).mem_iff
  replace moment := moment.of_mem fun file => (members file).symm
  rw [standing_congr _ members] at moment
  obtain ⟨content, patches, contents⟩ := patched.contents
  have elsewhere {location : Location} (other : location ≠ (Layout.ofRoot root).outputDescriptor.parts) :
      after.contentAt? location = middle.contentAt? location := by
    rw [contents]
    exact Function.update_of_ne other _ _
  have here : after.contentAt? (Layout.ofRoot root).outputDescriptor.parts = content := by
    rw [contents]
    exact Function.update_self _ _ _
  have sourceOf {file : SourceFile} (member : file ∈ files) :
      clearedContents (Layout.ofRoot root) start file.path.parts =
        start.contentAt? file.path.parts := clearedContents_of_not (batch.outside file member)
  have cleared {location : Location} (inside : (Layout.ofRoot root).output.parts <+: location)
      (free : ∀ file ∈ emitted files, location ≠ placeOf (Layout.ofRoot root) file) :
      middle.contentAt? location = none := by
    rw [moment.rest location free, Function.update_apply]
    split
    · rfl
    · exact if_pos inside
  refine ⟨options, clearedContents_of_not (Layout.descriptor_outside root) ▸ chosen, patched.regular,
    fun location inside => ?_, fun file member asset other => ?_, fun file member compiled => ?_,
    middle.contentAt? (Layout.ofRoot root).outputDescriptor.parts, ?_, ?_⟩
  · by_cases descriptor : location = (Layout.ofRoot root).outputDescriptor.parts
    · rw [descriptor, here]
      simp [patches.isSome]
    · rw [elsewhere descriptor]
      constructor
      · intro held
        by_contra none
        rw [cleared inside fun file member same => none (.inr ⟨file, (mem_emitted.mp member).1,
          (mem_emitted.mp member).2, same⟩)] at held
        cases held
      · rintro (impossible | ⟨file, member, isEmitted, rfl⟩)
        · exact absurd impossible descriptor
        · obtain ⟨-, bytes, held, -⟩ := moment.made file (mem_emitted.mpr ⟨member, isEmitted⟩)
          rw [held]
          rfl
  · obtain ⟨-, bytes, held, product⟩ := moment.made file (mem_emitted.mpr ⟨member, by simp [asset]⟩)
    rw [Product, if_neg (by simp [asset, Dialect.isCompiled]), sourceOf member] at product
    exact ⟨bytes, product, (elsewhere other).trans held⟩
  · obtain ⟨-, bytes, held, product⟩ :=
      moment.made file (mem_emitted.mpr ⟨member, emitted_of_isCompiled compiled⟩)
    rw [Product, if_pos compiled] at product
    obtain ⟨raw, ⟨content, was, made⟩, rewritten⟩ := product
    rw [sourceOf member] at was
    exact ⟨content, raw, bytes, was, made, by simpa using rewritten,
      (elsewhere (batch.module_ne_descriptor member compiled)).trans held⟩
  · rw [here]
    exact patches
  · by_cases free : ∀ file ∈ emitted files,
        (Layout.ofRoot root).outputDescriptor.parts ≠ placeOf (Layout.ofRoot root) file
    · have inside : (Layout.ofRoot root).output.parts <+: (Layout.ofRoot root).outputDescriptor.parts := by
        change _ <+: (Output.descriptorOf (Layout.ofRoot root).output).parts
        rw [Output.descriptorOf_eq]
        exact List.prefix_append _ _
      exact .inl ⟨cleared inside free, fun file member isEmitted same =>
        free file (mem_emitted.mpr ⟨member, isEmitted⟩) same.symm⟩
    · push Not at free
      obtain ⟨file, member, place⟩ := free
      have notCompiled : ¬ file.dialect.isCompiled := fun compiled =>
        batch.module_ne_descriptor (mem_emitted.mp member).1 compiled place.symm
      have asset : file.dialect = .asset := by
        have isEmitted := (mem_emitted.mp member).2
        cases dialect : file.dialect <;> simp_all [Dialect.isCompiled]
      obtain ⟨-, bytes, held, product⟩ := moment.made file member
      rw [Product, if_neg notCompiled, sourceOf (mem_emitted.mp member).1] at product
      exact .inr ⟨file, (mem_emitted.mp member).1, asset, place.symm, by rw [place, held, product]⟩

/-- A full build that ends has built all sources, whether or not their specifiers have been rewritten. -/
theorem run_builds_everything {tools : Toolchain} {session after : Session} {outcome : Outcome}
    (writes : tools.WritesTargets (Layout.ofRoot root)) (rooted : root.anchor = .root)
    (plain : root.IsPlain) (plainTemporary : session.temporary.IsPlain)
    (regular : session.tree.IsRegular) (present : session.tree.status root = .ok .directory)
    (found : Sources.discover session.tree (Layout.ofRoot root) "src/**/*" = .ok files)
    (apart : ((emitted files).map (placeOf (Layout.ofRoot root))).Nodup)
    (all : request.input = .proper "src/**/*") (isFiles : request.isLiteral = false)
    (clears : request.clear) (stops : request.settled.runtimeOnly)
    (ran : run tools request (Layout.ofRoot root) session = (.ok outcome, after)) :
    (∃ others, others.Perm files ∧ Results tools (Layout.ofRoot root) request.settled
      (!Tools.rewritesDisabled session.environment) others
      (clearedContents (Layout.ofRoot root) session.tree)
      (Configuration.copyPath session.temporary session.clock) after.tree) ∧
    after.temporary = session.temporary ∧ after.environment = session.environment := by
  have placed := (Layout.isPlaced_ofRoot (by simp [isAbsolute, rooted]) plain).1
  have fits := ((regular.status_iff plain).mp present).1
  have discovers : Ends (Session.Shows (Cleared (Layout.ofRoot root) session.tree) session.temporary
        session.clock) (discoverInput request.settled (Layout.ofRoot root))
      (fun others => Session.Shows (fun tree => others.Perm files ∧
        Cleared (Layout.ofRoot root) session.tree tree) session.temporary session.clock)
      (fun _ => True) := by
    refine (Ends.ask _).mono (fun _ shown => shown) (fun others state told => ?_) fun _ _ => trivial
    obtain ⟨answer, shown⟩ := told
    refine ⟨⟨?_, shown.tree⟩, shown.temporary, shown.clock⟩
    obtain ⟨-, -, answer⟩ := exists_of_bind_eq_ok answer
    change Sources.discover state.tree (Layout.ofRoot root) request.input.shown = .ok others at answer
    rw [all] at answer
    exact found_everything regular rooted plain shown.tree found answer
  have ends := @run_ends request (Layout.ofRoot root) session.environment session.temporary session.clock
    (fun tree => tree = session.tree) _ (fun _ => True) tools (fun _ _ => trivial)
    (fun _ literal => absurd literal (by simpa [Request.isLiteral, Request.settled] using isFiles))
    (fun _ _ compiler sameTools sameLayout => sameTools ▸ @course compiler request.settled
      (Layout.ofRoot root) session.environment session.temporary session.clock _ _ (sameTools ▸ writes) placed
      plainTemporary (fun tree => tree = session.tree) (fun others => others.Perm files)
      (clear_clears regular rooted plain fits all isFiles clears) discovers
      fun others same => prospect_everything regular rooted plain found apart same) stops
  have known := ends.outcome session ⟨⟨rfl, rfl, rfl⟩, rfl⟩
  rw [ran] at known
  obtain ⟨last, shown, environment⟩ := known
  exact ⟨shown.tree, shown.temporary, environment⟩

/-- A full build that ends has made the output mirror the sources, whatever was in the output before. -/
theorem run_mirrors_sources {tools : Toolchain} {session after : Session} {outcome : Outcome}
    (writes : tools.WritesTargets (Layout.ofRoot root)) (rooted : root.anchor = .root)
    (plain : root.IsPlain) (plainTemporary : session.temporary.IsPlain)
    (regular : session.tree.IsRegular) (present : session.tree.status root = .ok .directory)
    (found : Sources.discover session.tree (Layout.ofRoot root) "src/**/*" = .ok files)
    (apart : ((emitted files).map (placeOf (Layout.ofRoot root))).Nodup)
    (all : request.input = .proper "src/**/*") (isFiles : request.isLiteral = false)
    (clears : request.clear) (stops : request.settled.runtimeOnly)
    (rewrites : Tools.rewritesDisabled session.environment = false)
    (ran : run tools request (Layout.ofRoot root) session = (.ok outcome, after)) :
    ∃ options, CompilerOptions.Chosen request.settled
        (session.tree.contentAt? (Layout.ofRoot root).descriptor.parts)
        (some (Configuration.copyPath session.temporary session.clock)) options ∧
      Mirrors tools (Layout.ofRoot root) request.settled options files
        (Configuration.copyPath session.temporary session.clock) session.tree after.tree := by
  obtain ⟨⟨others, same, results⟩, -, -⟩ :=
    run_builds_everything writes rooted plain plainTemporary regular present found apart all isFiles clears stops ran
  rw [rewrites] at results
  exact mirrors_of_results regular rooted plain found apart same results

end

/-! ### A project of one module -/

/-- A project with a module that imports itself. Its line ends with a carriage return. -/
def moduleSession : Session where
  tree := ⟨[(["p"], .directory), (["p", "src"], .directory),
    (["p", "src", "m.ts"], .file (Text.Utf8.encode "import './m'\r\n") false), (["t"], .directory)]⟩
  environment := []
  directory := ⟨.root, ["p"]⟩
  temporary := ⟨.root, ["t"]⟩
  clock := 1

/-- A request for all sources, which stops once the output can be run. -/
def plainRequest : Request := { runtimeOnly := true }

/-- The source of the project. -/
def moduleFiles : List SourceFile :=
  [SourceFile.ofPath (.ofRoot ⟨.root, ["p"]⟩) ⟨.root, ["p", "src", "m.ts"]⟩]

/-- The project with one module is a regular tree. -/
theorem moduleSession_isRegular : moduleSession.tree.IsRegular := isRegular_of_entries (by decide +kernel)

/-- The search for sources finds the module. -/
theorem discover_module :
    Sources.discover moduleSession.tree (.ofRoot ⟨.root, ["p"]⟩) "src/**/*" = .ok moduleFiles :=
  ok_of_toOption (by decide +kernel)

/-- The build of the project ends. A specifier of the module would be rewritten in the tree that it leaves, and
that of the product has been rewritten. -/
theorem run_module : ∃ outcome after, run plainCompiler.toolchain plainRequest (.ofRoot ⟨.root, ["p"]⟩)
      moduleSession = (.ok outcome, after) ∧
    ((Specifier.normalizeText after.tree ⟨.root, ["p", "dist"]⟩ "/p/dist/m.js"
      "import './m'\r\n").map Specifier.Normalized.text).toOption = some "import './m.js'\r\n" ∧
    after.tree.contentAt? ["p", "dist", "m.js"] = some (Text.Utf8.encode "import './m.js'\n") := by
  have evaluated :
      (run plainCompiler.toolchain plainRequest (.ofRoot ⟨.root, ["p"]⟩) moduleSession).1.isOk ∧
      ((Specifier.normalizeText
        (run plainCompiler.toolchain plainRequest (.ofRoot ⟨.root, ["p"]⟩) moduleSession).2.tree
        ⟨.root, ["p", "dist"]⟩ "/p/dist/m.js" "import './m'\r\n").map
          Specifier.Normalized.text).toOption = some "import './m.js'\r\n" ∧
      (run plainCompiler.toolchain plainRequest (.ofRoot ⟨.root, ["p"]⟩) moduleSession).2.tree.contentAt?
        ["p", "dist", "m.js"] = some (Text.Utf8.encode "import './m.js'\n") := by decide +kernel
  rcases ran : run plainCompiler.toolchain plainRequest (.ofRoot ⟨.root, ["p"]⟩) moduleSession with
    ⟨fault | outcome, after⟩
  · rw [ran] at evaluated
    cases evaluated.1
  · rw [ran] at evaluated
    exact ⟨outcome, after, rfl, evaluated.2⟩

/-- The output of the module mirrors it. -/
theorem run_mirrors_sources_of_module : ∃ outcome after options,
    run plainCompiler.toolchain plainRequest (.ofRoot ⟨.root, ["p"]⟩) moduleSession = (.ok outcome, after) ∧
      Mirrors plainCompiler.toolchain (.ofRoot ⟨.root, ["p"]⟩) plainRequest.settled options moduleFiles
        (Configuration.copyPath moduleSession.temporary moduleSession.clock) moduleSession.tree after.tree := by
  obtain ⟨outcome, after, ran, -⟩ := run_module
  have present : moduleSession.tree.status ⟨.root, ["p"]⟩ = .ok .directory :=
    ok_of_toOption (by decide +kernel)
  obtain ⟨options, -, mirrors⟩ := run_mirrors_sources
    (plainCompiler.toolchain_writesTargets (.ofRoot ⟨.root, ["p"]⟩)) rfl (by decide) (by decide)
    moduleSession_isRegular present discover_module (by decide +kernel) rfl rfl rfl rfl (by decide +kernel) ran
  exact ⟨outcome, after, options, ran, mirrors⟩

/-- When a specifier of a module is rewritten, its line ends become line feeds: the module that was made of
the source holds a carriage return, and so does its text with the specifier rewritten, but the file in the
output does not. -/
theorem run_unifies_line_ends :
    plainCompiler.toolchain.WritesTargets (.ofRoot ⟨.root, ["p"]⟩) ∧ moduleSession.tree.IsRegular ∧
      Sources.discover moduleSession.tree (.ofRoot ⟨.root, ["p"]⟩) "src/**/*" = .ok moduleFiles ∧
      ((emitted moduleFiles).map (placeOf (.ofRoot ⟨.root, ["p"]⟩))).Nodup ∧
      plainRequest.input = .proper "src/**/*" ∧ plainRequest.isLiteral = false ∧ plainRequest.clear ∧
      plainRequest.settled.runtimeOnly ∧ Tools.rewritesDisabled moduleSession.environment = false ∧
      plainCompiler.emitted ⟨.root, ["p", "src", "m.ts"]⟩ (Text.Utf8.encode "import './m'\r\n") =
        Text.Utf8.encode "import './m'\r\n" ∧
      ∃ outcome after,
        run plainCompiler.toolchain plainRequest (.ofRoot ⟨.root, ["p"]⟩) moduleSession =
          (.ok outcome, after) ∧
        ((Specifier.normalizeText after.tree ⟨.root, ["p", "dist"]⟩ "/p/dist/m.js"
          "import './m'\r\n").map Specifier.Normalized.text).toOption = some "import './m.js'\r\n" ∧
        after.tree.contentAt? ["p", "dist", "m.js"] = some (Text.Utf8.encode "import './m.js'\n") := by
  obtain ⟨outcome, after, ran, text, built⟩ := run_module
  exact ⟨plainCompiler.toolchain_writesTargets _, moduleSession_isRegular, discover_module, by decide +kernel,
    rfl, rfl, rfl, rfl, by decide +kernel, by decide +kernel, outcome, after, ran, text, built⟩

end TreeBuild.Build
