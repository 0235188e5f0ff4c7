import TreeBuild.Proofs.Watch.Descriptor
import TreeBuild.Proofs.Watch.Unchanged

/-!
# Outputs that reflect their sources

Full builds and rebuilds leave the same kind of output behind: it holds the products of the sources and the
descriptor, and nothing else. What they leave open is which files were there when the specifiers of a module
were resolved, for this is settled at another moment for each module. So an output is said to reflect its
sources with a view for each of them, and two outputs that reflect the same sources hold the same wherever the
views of a module agree at the paths at which it looks for files.
-/
namespace TreeBuild

open TreeBuild.Tree TreeBuild.Build

namespace Build

/-- The same is seen at a path by two views, or the path is this place, at which a file has appeared that has
neither a module beside it nor an index below it. -/
def SeenAlike (place : Path) (has other : Path → Bool) (path : Path) : Prop :=
  has path = other path ∨ path = place ∧ (Specifier.Appears has other place ∨ Specifier.Appears other has place)

/-- The same becomes of a module if the same is seen wherever its specifiers look for files. -/
theorem Rewritten.unique_of_seenAlike {place path : Path} {has other : Path → Bool} {raw bytes others : Text.Bytes}
    (absolute : path.isAbsolute) (proper : path.IsProper)
    (notModule : ∀ path, Specifier.sibling path ≠ place) (notIndex : ∀ path, Specifier.index path ≠ place)
    (same : ∀ candidate ∈ consulted path raw, SeenAlike place has other candidate)
    (first : Rewritten has path raw bytes) (second : Rewritten other path raw others) : bytes = others := by
  have elsewhere : ∀ candidate ∈ consulted path raw, candidate ≠ place → has candidate = other candidate :=
    fun candidate member different => (same candidate member).resolve_right fun here => different here.1
  by_cases appears : Specifier.Appears other has place
  · exact (second.unique_of_appears absolute proper
      (fun candidate member different => (elsewhere candidate member different).symm) notModule notIndex
      (fun _ => .inr appears) first).symm
  · refine first.unique_of_appears absolute proper elsewhere notModule notIndex (fun member => ?_) second
    rcases same place member with equal | ⟨-, forth | back⟩
    · exact .inl equal
    · exact .inr forth
    · exact absurd back appears

end Build

namespace Watch

/-! ### The sources of a project -/

/-- A path below the directory of the sources, on which no name is hidden. -/
def IsShown (root path : Path) : Prop :=
  ∃ parts, parts ≠ [] ∧ Glob.AreShown parts ∧ path = (Layout.ofRoot root).sources.below parts

/-- A source that leads to a product. -/
structure IsEmitted (root : Path) (tree : Tree) (path : Path) : Prop where
  shown : IsShown root path
  held : tree.holdsFile path = true
  emitted : Dialect.ofPath path ≠ .declaration

/-- Sources that are there together lead to different places. -/
def AreApart (root : Path) (tree : Tree) : Prop :=
  ∀ path other, IsEmitted root tree path → IsEmitted root tree other →
    ((Layout.ofRoot root).destination path).parts = ((Layout.ofRoot root).destination other).parts →
      path = other

/-- The source with the name of the descriptor. -/
def describing (root : Path) : Path := (Layout.ofRoot root).sources / "package.json"

/-- What the descriptor of the output is made of: the source with its name, if there is one. -/
def original (root : Path) (tree : Tree) : Option Text.Bytes :=
  if tree.holdsFile (describing root) then tree.contentAt? (describing root).parts else none

section

variable {root path : Path} {tree other : Tree} {files : List SourceFile}

/-- What is shown is a path below the sources. -/
theorem IsShown.isSourcePath (shown : IsShown root path) (rooted : root.anchor = .root) (plain : root.IsPlain) :
    IsSourcePath (Layout.ofRoot root) path := by
  obtain ⟨parts, -, shown, rfl⟩ := shown
  rw [Sources.sources_eq]
  constructor
  · exact rooted
  · apply Glob.isPlain_below
    · exact Glob.isPlain_below_name plain (by decide)
    · exact fun part member => (shown part member).1
  · rw [Sources.sources_eq]
    exact List.prefix_append _ _

/-- What is shown is not in the output tree. -/
theorem IsShown.outside (shown : IsShown root path) : ¬ (Layout.ofRoot root).output.parts <+: path.parts := by
  obtain ⟨parts, -, -, rfl⟩ := shown
  exact not_output_of_sources root parts

/-- The destination of what is shown is in the output tree. -/
theorem IsShown.inside (shown : IsShown root path) (rooted : root.anchor = .root) :
    (Layout.ofRoot root).output.parts <+: ((Layout.ofRoot root).destination path).parts := by
  obtain ⟨parts, nonempty, -, rfl⟩ := shown
  rw [Layout.destination_below (by simp [Path.isAbsolute, rooted]) nonempty]
  exact List.prefix_append _ _

/-- The root of everything is not shown. -/
theorem IsShown.nonempty (shown : IsShown root path) : path.parts ≠ [] := by
  obtain ⟨parts, nonempty, -, rfl⟩ := shown
  simp [nonempty]

/-- Sources are told apart by their parts. -/
theorem IsShown.parts_ne {another : Path} (shown : IsShown root path) (shownOther : IsShown root another)
    (different : path ≠ another) : path.parts ≠ another.parts := by
  obtain ⟨parts, -, -, rfl⟩ := shown
  obtain ⟨others, -, -, rfl⟩ := shownOther
  intro same
  exact different (Path.eq_of_parts rfl same)

/-- The descriptor among the sources is shown. -/
theorem isShown_describing (root : Path) : IsShown root (describing root) := by
  refine ⟨["package.json"], List.cons_ne_nil _ _, List.forall_mem_singleton.mpr ⟨by decide, by decide⟩, ?_⟩
  exact Path.div_of_isPart _ (by decide : Path.IsName "package.json").toIsPart

/-- The descriptor among the sources is an asset. -/
theorem dialect_describing (root : Path) : Dialect.ofPath (describing root) = .asset := by
  rw [describing, Path.div_of_isPart _ (by decide : Path.IsName "package.json").toIsPart, Dialect.ofPath,
    Path.name, List.getLast?_concat]
  decide

/-- The descriptor of the output is the destination of one source only. -/
theorem IsShown.destination_eq_iff (shown : IsShown root path) (rooted : root.anchor = .root)
    (plain : root.IsPlain) :
    ((Layout.ofRoot root).destination path).parts = (Layout.ofRoot root).outputDescriptor.parts ↔
      path = describing root :=
  (shown.isSourcePath rooted plain).destination_eq_iff rooted plain

/-- Whether a source leads to a product is settled by what is at its path. -/
theorem isEmitted_congr (same : tree.contentAt? path.parts = other.contentAt? path.parts) :
    IsEmitted root tree path ↔ IsEmitted root other path := by
  have held := holdsFile_congr same
  constructor
  · exact fun source => ⟨source.shown, held ▸ source.held, source.emitted⟩
  · exact fun source => ⟨source.shown, held ▸ source.held, source.emitted⟩

/-- Whether sources lie apart is settled outside the output. -/
theorem AreApart.congr (apart : AreApart root tree)
    (same : ∀ location, ¬ (Layout.ofRoot root).output.parts <+: location →
      other.contentAt? location = tree.contentAt? location) : AreApart root other := by
  intro path another isSource isAnother
  apply apart path another
  · exact (isEmitted_congr (same _ isSource.shown.outside)).mp isSource
  · exact (isEmitted_congr (same _ isAnother.shown.outside)).mp isAnother

/-- The original of the descriptor depends on the content at its place alone. -/
theorem original_congr
    (same : tree.contentAt? (describing root).parts = other.contentAt? (describing root).parts) :
    original root tree = original root other := by
  rw [original, original, holdsFile_congr same, same]

/-- Where the source with the name of the descriptor is, the descriptor is made of it. -/
theorem original_of_isEmitted (source : IsEmitted root tree (describing root)) :
    original root tree = tree.contentAt? (describing root).parts :=
  if_pos source.held

/-- Without a descriptor among the sources there is no original. -/
theorem original_of_not (noSource : ¬ IsEmitted root tree (describing root)) : original root tree = none := by
  refine if_neg fun held => noSource ⟨isShown_describing root, held, ?_⟩
  rw [dialect_describing]
  decide

/-- What a full build finds are the sources that are shown. -/
theorem mem_emitted_of_discover (regular : tree.IsRegular) (rooted : root.anchor = .root) (plain : root.IsPlain)
    (found : Sources.discover tree (.ofRoot root) "src/**/*" = .ok files) {file : SourceFile} :
    file ∈ emitted files ↔ IsEmitted root tree file.path ∧ file = SourceFile.ofPath (.ofRoot root) file.path := by
  obtain ⟨paths, rfl, -, members⟩ := Sources.discover_everything regular rooted plain found
  rw [mem_emitted, List.mem_map]
  constructor
  · rintro ⟨⟨path, listed, rfl⟩, emitted⟩
    obtain ⟨parts, nonempty, shown, same, held⟩ := (members path).mp listed
    exact ⟨⟨⟨parts, nonempty, shown, same⟩, held, emitted⟩, rfl⟩
  · rintro ⟨⟨⟨parts, nonempty, shown, same⟩, held, emitted⟩, isFile⟩
    refine ⟨⟨file.path, (members file.path).mpr ⟨parts, nonempty, shown, same, held⟩, isFile.symm⟩, ?_⟩
    rw [isFile]
    exact emitted

/-- The sources of a full build have different destinations if they lie apart. -/
theorem AreApart.nodup (apart : AreApart root tree) (regular : tree.IsRegular) (rooted : root.anchor = .root)
    (plain : root.IsPlain) (found : Sources.discover tree (.ofRoot root) "src/**/*" = .ok files) :
    ((emitted files).map (placeOf (.ofRoot root))).Nodup := by
  have source := @mem_emitted_of_discover root tree files regular rooted plain found
  have distinct : (emitted files).Nodup := by
    obtain ⟨paths, rfl, nodup, -⟩ := Sources.discover_everything regular rooted plain found
    refine (nodup.map fun path other same => ?_).filter _
    exact congrArg SourceFile.path same
  refine distinct.map_on fun file member other another same => ?_
  obtain ⟨isEmitted, isFile⟩ := source.mp member
  obtain ⟨isEmittedOther, isFileOther⟩ := source.mp another
  rw [isFile, isFileOther, apart _ _ isEmitted isEmittedOther same]

end

/-! ### What an output holds -/

/-- The product of a source is there, with the specifiers of its module resolved in this view. -/
def MadeAmong (tools : Toolchain) (layout : Layout) (request : Request) (rewrites : Bool) (has : Path → Bool)
    (tree : Tree) (path : Path) : Prop :=
  ∃ (copy : Path) (options : CompilerOptions) (bytes : Text.Bytes),
    CompilerOptions.Chosen (request.forFile path).settled (tree.contentAt? layout.descriptor.parts) (some copy)
      options ∧
    Product tools layout options rewrites has tree.contentAt? (SourceFile.ofPath layout path) bytes ∧
    tree.contentAt? (layout.destination path).parts = some bytes

/-- The output reflects the sources, with a view for each of them: it holds their products, its descriptor, and
nothing else. The descriptor may be missing if there is no source with its name. -/
structure Reflects (tools : Toolchain) (root : Path) (request : Request) (rewrites : Bool)
    (seen : Path → Path → Bool) (tree : Tree) : Prop where
  places : ∀ location, (Layout.ofRoot root).output.parts <+: location →
    location ≠ (Layout.ofRoot root).outputDescriptor.parts →
    ((tree.contentAt? location).isSome ↔
      ∃ path, IsEmitted root tree path ∧ location = ((Layout.ofRoot root).destination path).parts)
  made : ∀ path, IsEmitted root tree path →
    ((Layout.ofRoot root).destination path).parts ≠ (Layout.ofRoot root).outputDescriptor.parts →
    MadeAmong tools (.ofRoot root) request rewrites (seen path) tree path
  descriptor : Output.Patches request.format (original root tree)
      (tree.contentAt? (Layout.ofRoot root).outputDescriptor.parts) ∨
    original root tree = none ∧ tree.contentAt? (Layout.ofRoot root).outputDescriptor.parts = none

/-- A module would be the same in two views: the same is seen wherever it looks for files. The descriptor of
the output counts only if there is a module beside it. -/
def IsCurrent (tools : Toolchain) (layout : Layout) (request : Request) (tree : Tree) (has other : Path → Bool)
    (source : Path) : Prop :=
  ∀ path, Consults tools layout request tree source path → SeenAlike layout.outputDescriptor has other path

section

variable {tools : Toolchain} {layout : Layout} {root path : Path} {request : Request} {rewrites : Bool}
  {seen seenOther : Path → Path → Bool} {has view : Path → Bool} {tree other middle : Tree}
  {files : List SourceFile} {options : CompilerOptions}
  {start built : Session} {outcome : Outcome} {emit : CompilerOptions → Path → Text.Bytes → Text.Bytes}

/-- A product is still there if it, its source and the descriptor of the project are as they were. -/
theorem MadeAmong.congr (made : MadeAmong tools layout request rewrites has tree path)
    (source : other.contentAt? path.parts = tree.contentAt? path.parts)
    (destination : other.contentAt? (layout.destination path).parts =
      tree.contentAt? (layout.destination path).parts)
    (descriptor : other.contentAt? layout.descriptor.parts = tree.contentAt? layout.descriptor.parts) :
    MadeAmong tools layout request rewrites has other path := by
  obtain ⟨copy, options, bytes, chosen, product, held⟩ := made
  exact ⟨copy, options, bytes, descriptor ▸ chosen, product_congr source.symm product, destination ▸ held⟩

/-- The product of a source is the same in two views in which the same is seen. -/
theorem MadeAmong.unique (makes : tools.MakesBy (.ofRoot root) emit) (setting : Setting tools root request)
    (shown : IsShown root path)
    (first : MadeAmong tools (.ofRoot root) request rewrites has tree path)
    (second : MadeAmong tools (.ofRoot root) request rewrites view other path)
    (source : tree.contentAt? path.parts = other.contentAt? path.parts)
    (descriptor : tree.contentAt? (Layout.ofRoot root).descriptor.parts =
      other.contentAt? (Layout.ofRoot root).descriptor.parts)
    (current : IsCurrent tools (.ofRoot root) request tree has view path) :
    tree.contentAt? ((Layout.ofRoot root).destination path).parts =
      other.contentAt? ((Layout.ofRoot root).destination path).parts := by
  obtain ⟨copy, options, bytes, chosen, product, held⟩ := first
  obtain ⟨_, more, others, chosenOther, productOther, heldOther⟩ := second
  have isSource := shown.isSourcePath setting.rooted setting.plain
  have absolutePath : path.isAbsolute := by simp [Path.isAbsolute, isSource.rooted]
  have absolute := Layout.destination_isAbsolute setting.placed absolutePath isSource.plain.proper
  have proper := (Layout.destination_isPlain setting.placed absolutePath isSource.plain).proper
  have sameOptions : { options with tsconfig := none } = { more with tsconfig := none } := by
    rw [← descriptor] at chosenOther
    exact chosen.unique chosenOther
  rw [held, heldOther]
  refine congrArg some (product.unique_of_rewritten makes productOther sameOptions source ?_)
  intro content raw known compiled _ _
  apply Rewritten.unique_of_seenAlike absolute proper
  · exact fun other same => sibling_ne_outputDescriptor (.ofRoot root) other (congrArg Path.parts same)
  · exact fun other same => index_ne_outputDescriptor (.ofRoot root) other (congrArg Path.parts same)
  · exact fun candidate found =>
      current candidate ⟨copy, options, content, raw, chosen, known, compiled, found⟩

/-- Two outputs that reflect the same sources hold the same at a place, if the descriptor is in both of them,
and if the module that goes there has been made in views in which the same is seen. -/
theorem Reflects.agrees (makes : tools.MakesBy (.ofRoot root) emit) (setting : Setting tools root request)
    (first : Reflects tools root request rewrites seen tree)
    (second : Reflects tools root request rewrites seenOther other)
    (same : ∀ location, ¬ (Layout.ofRoot root).output.parts <+: location →
      tree.contentAt? location = other.contentAt? location)
    {location : Location} (inside : (Layout.ofRoot root).output.parts <+: location)
    (described : location = (Layout.ofRoot root).outputDescriptor.parts →
      (tree.contentAt? location).isSome ∧ (other.contentAt? location).isSome)
    (current : ∀ path, IsEmitted root tree path → ((Layout.ofRoot root).destination path).parts = location →
      IsCurrent tools (.ofRoot root) request tree (seen path) (seenOther path) path) :
    tree.contentAt? location = other.contentAt? location := by
  have sources (path : Path) : IsEmitted root tree path ↔ IsEmitted root other path := by
    constructor
    · exact fun source => (isEmitted_congr (same _ source.shown.outside)).mp source
    · exact fun source => (isEmitted_congr (same _ source.shown.outside)).mpr source
  by_cases descriptor : location = (Layout.ofRoot root).outputDescriptor.parts
  · obtain ⟨isThere, isThereOther⟩ := described descriptor
    subst descriptor
    have patches := first.descriptor.resolve_right fun missing => by simp [missing.2] at isThere
    have patchesOther := second.descriptor.resolve_right fun missing => by simp [missing.2] at isThereOther
    rw [original_congr (same _ (isShown_describing root).outside)] at patches
    exact patches.unique patchesOther
  · by_cases goes : ∃ path, IsEmitted root tree path ∧ location = ((Layout.ofRoot root).destination path).parts
    · obtain ⟨path, source, rfl⟩ := goes
      exact (first.made path source descriptor).unique makes setting source.shown
        (second.made path ((sources path).mp source) descriptor) (same _ source.shown.outside)
        (same _ (Layout.descriptor_outside root)) (current path source rfl)
    · have goesOther :
          ¬ ∃ path, IsEmitted root other path ∧ location = ((Layout.ofRoot root).destination path).parts := by
        simpa only [← sources] using goes
      have none := mt (first.places location inside descriptor).mp goes
      have noneOther := mt (second.places location inside descriptor).mp goesOther
      rw [Option.not_isSome_iff_eq_none] at none noneOther
      rw [none, noneOther]

/-! ### What a full build leaves behind -/

/-- What a full build leaves in the output before it patches the descriptor: the products of the sources, with
all specifiers resolved in one view, and nothing else. -/
structure Unpatched (tools : Toolchain) (root : Path) (options : CompilerOptions) (rewrites : Bool)
    (view : Path → Bool) (tree middle : Tree) : Prop where
  made : ∀ path, IsEmitted root tree path → ∃ bytes,
    middle.contentAt? ((Layout.ofRoot root).destination path).parts = some bytes ∧
    Product tools (.ofRoot root) options rewrites view tree.contentAt?
      (SourceFile.ofPath (.ofRoot root) path) bytes
  free : ∀ location, (Layout.ofRoot root).output.parts <+: location →
    (¬ ∃ path, IsEmitted root tree path ∧ location = ((Layout.ofRoot root).destination path).parts) →
    middle.contentAt? location = none

/-- The view in which a full build resolves all specifiers: the products are there, and what is not in the
output. -/
def fullView (root : Path) (files : List SourceFile) (start : Tree) : Path → Bool :=
  standing (.ofRoot root) (emitted files) (clearedContents (.ofRoot root) start)

/-- The descriptor is patched from the product of the source with its name, if there is one. -/
theorem Unpatched.original_eq (unpatched : Unpatched tools root options rewrites view tree middle)
    (setting : Setting tools root request) :
    middle.contentAt? (Layout.ofRoot root).outputDescriptor.parts = original root tree := by
  have goes := ((isShown_describing root).destination_eq_iff setting.rooted setting.plain).mpr rfl
  by_cases isSource : IsEmitted root tree (describing root)
  · obtain ⟨bytes, held, product⟩ := unpatched.made _ isSource
    rw [Product, if_neg (by simp [dialect_describing, Dialect.isCompiled])] at product
    rw [original_of_isEmitted isSource, ← goes, held]
    exact product.symm
  · rw [original_of_not isSource]
    apply unpatched.free _ (output_prefix_descriptor _)
    rintro ⟨path, another, place⟩
    exact isSource ((another.shown.destination_eq_iff setting.rooted setting.plain).mp place.symm ▸ another)

/-- Once its descriptor is patched, the output of a full build reflects the sources. -/
theorem Unpatched.reflects (unpatched : Unpatched tools root options rewrites view tree middle)
    (setting : Setting tools root request) (isFiles : request.literalSource = none) {copy : Path}
    (chosen : CompilerOptions.Chosen request.settled
      (tree.contentAt? (Layout.ofRoot root).descriptor.parts) (some copy) options)
    (patched : Patched (.ofRoot root) request.format middle tree) :
    Reflects tools root request rewrites (fun _ => view) tree := by
  constructor
  · intro location inside other
    rw [patched.elsewhere other]
    constructor
    · intro held
      by_contra noSource
      rw [unpatched.free location inside noSource] at held
      cases held
    · rintro ⟨path, isSource, rfl⟩
      obtain ⟨bytes, held, -⟩ := unpatched.made path isSource
      rw [held]
      rfl
  · intro path isSource other
    obtain ⟨bytes, held, product⟩ := unpatched.made path isSource
    obtain ⟨value, told, chose⟩ := chosen
    refine ⟨copy, options, bytes, ⟨value, told, ?_⟩, product, ?_⟩
    · rw [choose_forFile path isFiles, chose]
    · rw [patched.elsewhere other]
      exact held
  · left
    obtain ⟨content, patches, contents⟩ := patched.contents
    have here : tree.contentAt? (Layout.ofRoot root).outputDescriptor.parts = content := by
      rw [contents]
      exact Function.update_self _ _ _
    rw [here, ← unpatched.original_eq setting]
    exact patches

/-- What a full build leaves behind reflects the sources. -/
theorem reflects_of_results (regular : start.tree.IsRegular) (setting : Setting tools root request)
    (isFiles : request.literalSource = none)
    (found : Sources.discover start.tree (.ofRoot root) "src/**/*" = .ok files)
    {others : List SourceFile} (same : others.Perm files) {copy : Path}
    (away : start.tree.contentAt? copy.parts = none)
    (results : Results tools (.ofRoot root) request.settled rewrites others
      (clearedContents (.ofRoot root) start.tree) copy tree)
    (unchanged : ∀ location, ¬ (Layout.ofRoot root).output.parts <+: location →
      tree.contentAt? location = start.tree.contentAt? location) :
    Reflects tools root request rewrites (fun _ => fullView root files start.tree) tree ∧
      (tree.contentAt? (Layout.ofRoot root).outputDescriptor.parts).isSome := by
  obtain ⟨options, middle, chosen, moment, patched⟩ := results
  have source := @mem_emitted_of_discover root start.tree files regular setting.rooted setting.plain found
  have members : ∀ file, file ∈ emitted others ↔ file ∈ emitted files := fun file =>
    (same.filter _).mem_iff
  have noCopy : Function.update (clearedContents (.ofRoot root) start.tree) copy.parts none =
      clearedContents (.ofRoot root) start.tree := by
    apply Function.update_eq_self_iff.mpr
    rw [clearedContents, away, ite_self]
  rw [noCopy] at moment
  replace moment := moment.of_mem fun file => (members file).symm
  rw [standing_congr _ members] at moment
  have kept {location : Location} (outside : ¬ (Layout.ofRoot root).output.parts <+: location) :
      clearedContents (.ofRoot root) start.tree location = tree.contentAt? location := by
    rw [clearedContents_of_not outside, unchanged location outside]
  have unpatched : Unpatched tools root options rewrites (fullView root files start.tree) tree middle := by
    constructor
    · intro path isSource
      have isSourceBefore := (isEmitted_congr (unchanged _ isSource.shown.outside)).mp isSource
      have listed : SourceFile.ofPath (.ofRoot root) path ∈ emitted files := source.mpr ⟨isSourceBefore, rfl⟩
      obtain ⟨-, bytes, held, product⟩ := moment.made _ listed
      exact ⟨bytes, held, product_congr (kept isSource.shown.outside) product⟩
    · intro location inside noSource
      rw [moment.rest location, clearedContents, if_pos inside]
      rintro file member rfl
      have isSource := (source.mp member).1
      exact noSource ⟨file.path, (isEmitted_congr (unchanged _ isSource.shown.outside)).mpr isSource, rfl⟩
  rw [kept (Layout.descriptor_outside root)] at chosen
  exact ⟨unpatched.reflects setting isFiles chosen patched, isSome_of_patched patched⟩

/-- A full build leaves an output behind that reflects the sources, and everything else as it was. -/
theorem run_reflects (setting : Setting tools root request) (full : IsFull request) (ready : Ready root start)
    (present : start.tree.status root = .ok .directory)
    (found : Sources.discover start.tree (.ofRoot root) "src/**/*" = .ok files) (apart : AreApart root start.tree)
    (ran : run tools request (.ofRoot root) start = (.ok outcome, built)) :
    (∀ location, ¬ (Layout.ofRoot root).output.parts <+: location →
      built.tree.contentAt? location = start.tree.contentAt? location) ∧
    Ready root built ∧ built.temporary = start.temporary ∧ built.environment = start.environment ∧
    Reflects tools root request (!Tools.rewritesDisabled start.environment)
      (fun _ => fullView root files start.tree) built.tree ∧
    (built.tree.contentAt? (Layout.ofRoot root).outputDescriptor.parts).isSome := by
  have nodup := apart.nodup ready.regular setting.rooted setting.plain found
  obtain ⟨unchanged, readyBuilt, environment, -⟩ := run_finishes setting full ready present found nodup ran
  obtain ⟨⟨others, same, results⟩, temporary, -⟩ := run_builds_everything setting.writes setting.rooted
    setting.plain ready.plainTemporary ready.regular present found nodup full.all
    (by simp [Request.isLiteral, full.files]) full.clears (by simp [Request.settled, setting.development]) ran
  exact ⟨unchanged, readyBuilt, temporary, environment,
    reflects_of_results ready.regular setting full.files found same (ready.free _) results unchanged⟩

end

end Watch

end TreeBuild
