import TreeBuild.Proofs.Build.Full
import TreeBuild.Proofs.Watch.Commutation
import TreeBuild.Proofs.Watch.Mirroring

/-!
# Building an unchanged source again

A build of one source that has not changed since a full build makes the same product again. It goes another
way, though: its product is the only one that is removed, and its specifiers are resolved in a tree that
holds everything, among that the descriptor of the output, which a full build patches last. A descriptor
that is there only since it was patched can be seen by a specifier that leads to it, and this makes a
difference where a module stands beside it.
-/
namespace TreeBuild

open TreeBuild.Tree

namespace Build

variable {tools : Toolchain} {layout : Layout} {root : Path} {request : Request} {rewrites : Bool}
  {files : List SourceFile} {file : SourceFile} {start before after : Tree} {temporary : Path} {clock : Nat}
  {environment : Environment}

/-- A full build has left this behind: every source has led to its product, with its specifiers resolved
among the files that were there, and after that the descriptor of the output has been patched. -/
structure Finished (tools : Toolchain) (layout : Layout) (request : Request) (rewrites : Bool)
    (files : List SourceFile) (before after : Tree) : Prop where
  made : ∀ file ∈ files, file.dialect ≠ .declaration → ∃ copy options bytes,
    CompilerOptions.Chosen request (after.contentAt? layout.descriptor.parts) (some copy) options ∧
    Product tools layout options rewrites before.holdsFile after.contentAt? file bytes ∧
    before.contentAt? (placeOf layout file) = some bytes
  patched : Patched layout request.format before after

/-- The descriptor of the output lies directly below the output tree. -/
theorem outputDescriptor_parts (layout : Layout) :
    layout.outputDescriptor.parts = layout.output.parts ++ ["package.json"] :=
  congrArg Path.parts (Output.descriptorOf_eq layout.output)

/-- Nothing but the descriptor of the output changes when it is patched. -/
theorem Patched.elsewhere {format : OutputFormat} {location : Location}
    (patched : Patched layout format before after) (other : location ≠ layout.outputDescriptor.parts) :
    after.contentAt? location = before.contentAt? location := by
  obtain ⟨content, -, contents⟩ := patched.contents
  rw [contents]
  exact Function.update_of_ne other _ _

/-- What a full build leaves behind. -/
theorem finished_of_results (regular : start.IsRegular) (rooted : root.anchor = .root) (plain : root.IsPlain)
    (found : Sources.discover start (Layout.ofRoot root) "src/**/*" = .ok files)
    (apart : ((emitted files).map (placeOf (Layout.ofRoot root))).Nodup) {others : List SourceFile}
    (same : others.Perm files) {copy : Path} (away : start.contentAt? copy.parts = none)
    (results : Results tools (Layout.ofRoot root) request rewrites others
      (clearedContents (Layout.ofRoot root) start) copy after) :
    (∀ location, ¬ (Layout.ofRoot root).output.parts <+: location →
      after.contentAt? location = start.contentAt? location) ∧
    ∃ before, Finished tools (Layout.ofRoot root) request rewrites files before after := by
  obtain ⟨options, before, chosen, moment, patched⟩ := results
  have batch := (batch_everything regular rooted plain found apart).perm same
  have noCopy : Function.update (clearedContents (Layout.ofRoot root) start) copy.parts none =
      clearedContents (Layout.ofRoot root) start := by
    refine Function.update_eq_self_iff.mpr ?_
    rw [clearedContents, away, ite_self]
  rw [noCopy] at moment
  have outside {location : Location} (away : ¬ (Layout.ofRoot root).output.parts <+: location) :
      after.contentAt? location = start.contentAt? location := by
    rw [patched.elsewhere, moment.rest, clearedContents_of_not away]
    · rintro file member rfl
      exact away (batch.output_isPrefix (mem_emitted.mp member).1)
    · rintro rfl
      exact away (Watch.output_prefix_descriptor _)
  refine ⟨fun location away => outside away, before, fun file member isEmitted => ?_, patched⟩
  have listed := same.mem_iff.mpr member
  obtain ⟨-, bytes, held, product⟩ := moment.made file (mem_emitted.mpr ⟨listed, isEmitted⟩)
  have source : clearedContents (Layout.ofRoot root) start file.path.parts = after.contentAt? file.path.parts := by
    rw [clearedContents_of_not (batch.outside file listed), outside (batch.outside file listed)]
  refine ⟨copy, options, bytes, ?_, ?_, held⟩
  · rw [outside (Layout.descriptor_outside root), ← clearedContents_of_not (Layout.descriptor_outside root)]
    exact chosen
  · rw [← funext moment.holdsFile_eq] at product
    exact Watch.product_congr source product

/-! ### The descriptor of the output among other files -/

/-- The descriptor of the output is no module. -/
theorem sibling_ne_outputDescriptor (layout : Layout) (path : Path) :
    (Specifier.sibling path).parts ≠ layout.outputDescriptor.parts := by
  intro same
  have last := congrArg List.getLast? same
  rw [outputDescriptor_parts] at last
  simp only [Specifier.sibling, List.getLast?_append, List.getLast?_singleton, Option.some_or,
    Option.some.injEq] at last
  exact @append_compiledSuffix_ne _ _ "package".toList (by decide) last

/-- The descriptor of the output is no index. -/
theorem index_ne_outputDescriptor (layout : Layout) (path : Path) :
    (Specifier.index path).parts ≠ layout.outputDescriptor.parts := by
  intro same
  have last := congrArg List.getLast? same
  rw [outputDescriptor_parts] at last
  simp only [Specifier.index, List.getLast?_append, List.getLast?_singleton, Option.some_or,
    Option.some.injEq] at last
  exact absurd last (by decide)

/-- What a module looks for is named from where the module is. -/
theorem anchor_of_consulted {path candidate : Path} {raw : Text.Bytes}
    (member : candidate ∈ consulted path raw) : candidate.anchor = path.anchor := by
  unfold consulted at member
  split at member
  · cases member
  · obtain ⟨specifier, listed, found⟩ := List.mem_flatMap.mp member
    have anchor : (Specifier.target path.parent specifier).anchor = path.anchor := by
      rw [Specifier.target_eq (List.mem_filter.mp listed).2]
      rfl
    simp only [Specifier.candidates, List.mem_cons, List.not_mem_nil, or_false] at found
    rcases found with rfl | rfl | rfl
    · exact anchor
    · rw [Specifier.sibling, anchor]
    · rw [Specifier.index, anchor]

/-- The patched descriptor is there. -/
theorem isSome_of_patched {format : OutputFormat} (patched : Patched layout format before after) :
    (after.contentAt? layout.outputDescriptor.parts).isSome := by
  obtain ⟨content, patches, contents⟩ := patched.contents
  have here : after.contentAt? layout.outputDescriptor.parts = content := by
    rw [contents]
    exact Function.update_self _ _ _
  rw [here]
  exact patches.isSome

/-- The descriptor is there as it was before it was patched, or it has appeared then. -/
theorem Finished.descriptor_appears
    (finished : Finished tools layout request rewrites files before after)
    (beside : (∃ other ∈ files, other.dialect ≠ .declaration ∧
        placeOf layout other = layout.outputDescriptor.parts) ∨
      after.contentAt? (Specifier.sibling layout.outputDescriptor).parts = none) :
    before.holdsFile layout.outputDescriptor = after.holdsFile layout.outputDescriptor ∨
      Specifier.Appears before.holdsFile after.holdsFile layout.outputDescriptor := by
  have isThere := isSome_of_patched finished.patched
  cases was : before.contentAt? layout.outputDescriptor.parts with
  | some content => exact .inl (by simp [holdsFile, was, isThere])
  | none =>
    have noModule : after.contentAt? (Specifier.sibling layout.outputDescriptor).parts = none := by
      refine beside.resolve_left ?_
      rintro ⟨file, member, isEmitted, place⟩
      obtain ⟨-, -, bytes, -, -, held⟩ := finished.made file member isEmitted
      rw [place, was] at held
      cases held
    have noIndex : after.contentAt? (Specifier.index layout.outputDescriptor).parts = none := by
      by_contra held
      obtain ⟨content, held⟩ := Option.ne_none_iff_exists'.mp held
      obtain ⟨executable, present⟩ := contentAt?_eq_some.mp held
      rw [contentAt?_eq_none_of_directory (finished.patched.regular.directory_above present
        (List.prefix_append _ _) (by simp [Specifier.index]))] at isThere
      cases isThere
    rw [finished.patched.elsewhere (sibling_ne_outputDescriptor layout _)] at noModule
    rw [finished.patched.elsewhere (index_ne_outputDescriptor layout _)] at noIndex
    by_cases fits : layout.outputDescriptor.Fits
    · have present : after.holdsFile layout.outputDescriptor = true := by simp [holdsFile, fits, isThere]
      exact .inr ⟨Watch.holdsFile_of_none was, present, Watch.holdsFile_of_none noModule,
        Watch.holdsFile_of_none noIndex⟩
    · exact .inl (by simp [holdsFile, fits])

/-- A source that is built again finds all files that are there, among them its own product. -/
theorem standing_of_made (made : (after.contentAt? (placeOf layout file)).isSome) :
    standing layout [file] after.contentAt? = after.holdsFile := by
  funext path
  by_cases here : path.parts = placeOf layout file
  · simp [standing, holdsFile, here, made]
  · simp [standing, holdsFile, here]

/-! ### Declarations -/

/-- A declaration that is built by itself leads to nothing: only the descriptor of the output is patched. -/
theorem run_leaves_declaration {path : Path} (writes : tools.WritesTargets (Layout.ofRoot root))
    (placed : (Layout.ofRoot root).IsPlaced) (rooted : path.anchor = .root) (plain : path.IsPlain)
    (nonempty : path.parts ≠ []) (literal : Glob.hasMagic path.toString = false)
    (declaration : Dialect.ofPath path = .declaration)
    (outside : ¬ (Layout.ofRoot root).output.parts <+: path.parts)
    (plainTemporary : temporary.IsPlain) (regular : start.IsRegular) (held : start.isFile path = .ok true)
    (given : request.input = .proper path.toString) (isFiles : request.isLiteral = false)
    (stops : request.settled.runtimeOnly)
    (free : start.contentAt? (Configuration.copyPath temporary clock).parts = none) :
    Ends
      (fun session => Session.Shows (fun tree => tree = start) temporary clock session ∧
        session.environment = environment)
      (run tools request (Layout.ofRoot root))
      (fun _ session => Patched (Layout.ofRoot root) request.format start session.tree) (fun _ => True) := by
  have absolute : path.isAbsolute := by simp [Path.isAbsolute, rooted]
  obtain ⟨content, executable, status⟩ := Tree.isFile_iff.mp held
  have here := contentAt?_of_get? ((regular.status_iff plain).mp status).2
  have noProducts : emitted [SourceFile.ofPath (Layout.ofRoot root) path] = [] := by
    simp [emitted, declaration]
  have clears : Ends (Session.Shows (fun tree => tree = start) temporary clock)
      (clear request.settled (Layout.ofRoot root))
      (fun _ => Session.Shows (fun tree => tree = start) temporary clock) (fun _ => True) := by
    have nothing := @clear_of_path (Layout.ofRoot root) request.settled path absolute plain.proper given isFiles
    rw [nothing, if_neg (by simp [declaration])]
    exact .pure fun _ shown => shown
  have discovers : Ends (Session.Shows (fun tree => tree = start) temporary clock)
      (discoverInput request.settled (Layout.ofRoot root))
      (fun files => Session.Shows (fun tree => files = [SourceFile.ofPath (Layout.ofRoot root) path] ∧
        tree = start) temporary clock) (fun _ => True) := by
    refine (Ends.ask _).mono (fun _ shown => shown) (fun files state told => ?_) fun _ _ => trivial
    obtain ⟨answer, shown⟩ := told
    refine ⟨⟨?_, shown.tree⟩, shown.temporary, shown.clock⟩
    obtain ⟨-, -, answer⟩ := exists_of_bind_eq_ok answer
    change Sources.discover state.tree (Layout.ofRoot root) request.input.shown = .ok files at answer
    have found := @Sources.discover_of_isFile start (Layout.ofRoot root) path regular.linkless rooted plain
      nonempty literal held
    rw [given, shown.tree] at answer
    exact Except.ok.inj (answer.symm.trans found)
  have prospect : Prospect (Layout.ofRoot root) [SourceFile.ofPath (Layout.ofRoot root) path]
      start.contentAt? (fun tree => tree = start) := by
    constructor
    · constructor
      · exact placed
      · exact List.forall_mem_singleton.mpr absolute
      · exact List.forall_mem_singleton.mpr plain
      · exact List.forall_mem_singleton.mpr rfl
      · rw [noProducts]
        exact List.nodup_nil
      · exact List.forall_mem_singleton.mpr fun asset => by simp [declaration] at asset
      · exact List.forall_mem_singleton.mpr outside
    · exact List.forall_mem_singleton.mpr ⟨content, here⟩
    · rintro tree rfl
      exact regular
    · rintro tree rfl
      rfl
    · exact fun tree _ => List.forall_mem_singleton.mpr fun asset => by simp [declaration] at asset
  have ends := @run_ends request (Layout.ofRoot root) environment temporary clock
    (fun tree => tree = start) _ (fun _ => True) tools (fun _ _ => trivial)
    (fun _ literal => absurd literal (by simpa [Request.isLiteral, Request.settled] using isFiles))
    (fun _ _ compiler sameTools sameLayout => sameTools ▸ @course compiler request.settled
      (Layout.ofRoot root) environment temporary clock _ _ (sameTools ▸ writes) placed plainTemporary
      (fun tree => tree = start) (fun files => files = [SourceFile.ofPath (Layout.ofRoot root) path]) clears
      discovers fun files same => same ▸ prospect) stops
  refine ends.mono (fun _ shown => shown) (fun _ session known => ?_) fun _ _ => trivial
  obtain ⟨last, shown, -⟩ := known
  obtain ⟨files, rfl, options, middle, -, moment, patched⟩ := shown.tree
  have same : middle.contentAt? = start.contentAt? := by
    funext location
    have rest := moment.rest location (by rw [noProducts]; simp)
    rw [rest]
    by_cases copied : location = (Configuration.copyPath temporary clock).parts
    · rw [copied, Function.update_self, free]
    · exact Function.update_of_ne copied _ _
  refine ⟨patched.regular, ?_⟩
  rw [← same]
  exact patched.contents

end Build

namespace Watch

open TreeBuild.Build

/-- A full build is asked for: it takes all sources, and starts with nothing in the output. -/
structure IsFull (request : Request) : Prop where
  all : request.input = .proper "src/**/*"
  files : request.literalSource = none
  clears : request.clear

section

variable {tools : Toolchain} {layout : Layout} {root path : Path} {request single : Request} {rewrites : Bool}
  {files : List SourceFile} {file : SourceFile} {before after : Tree}
  {start built later final : Session} {outcome other : Outcome}
  {emit : CompilerOptions → Path → Text.Bytes → Text.Bytes}

/-- The options do not depend on which sources are built. -/
theorem choose_forFile (path : Path) (isFiles : request.literalSource = none) :
    CompilerOptions.choose (request.forFile path).settled = CompilerOptions.choose request.settled := by
  obtain ⟨input, literalSource⟩ := request
  cases isFiles
  rfl

/-- A source that has not changed is made into the same product again. -/
theorem makes_again {bytes : Text.Bytes}
    (finished : Finished tools layout request.settled rewrites files before after)
    (makes : tools.MakesBy layout emit) (placed : layout.IsPlaced) (isFiles : request.literalSource = none)
    (member : SourceFile.ofPath layout path ∈ files) (place : IsPlace layout path)
    (seen : Consults tools layout request after path layout.outputDescriptor →
      (∃ other ∈ files, other.dialect ≠ .declaration ∧
        placeOf layout other = layout.outputDescriptor.parts) ∨
      after.contentAt? (Specifier.sibling layout.outputDescriptor).parts = none)
    (demands : Demands tools layout request rewrites { path, kind := .modified } after (.makes bytes)) :
    before.contentAt? (placeOf layout (SourceFile.ofPath layout path)) = some bytes := by
  cases demands with | makes _ optionsAgain _ isEmitted _ chosenAgain productAgain =>
  obtain ⟨copy, options, first, chosen, product, held⟩ := finished.made _ member isEmitted
  have absolute := Layout.destination_isAbsolute placed place.absolute place.plain.proper
  have proper := (Layout.destination_isPlain placed place.absolute place.plain).proper
  have made : (after.contentAt? (placeOf layout (SourceFile.ofPath layout path))).isSome := by
    by_cases here : placeOf layout (SourceFile.ofPath layout path) = layout.outputDescriptor.parts
    · rw [here]
      exact isSome_of_patched finished.patched
    · rw [finished.patched.elsewhere here, held]
      rfl
  dsimp only at productAgain chosenAgain
  rw [standing_of_made made] at productAgain
  have consults : ∀ content raw, after.contentAt? path.parts = some content →
      tools.Compiled layout options path content raw →
      layout.outputDescriptor ∈ consulted (layout.destination path) raw →
      Consults tools layout request after path layout.outputDescriptor := by
    intro content raw known compiled found
    obtain ⟨value, told, chose⟩ := chosen
    have chosenAlone : CompilerOptions.Chosen (request.forFile path).settled
        (after.contentAt? layout.descriptor.parts) (some copy) options :=
      ⟨value, told, by rw [choose_forFile path isFiles, chose]⟩
    exact ⟨copy, options, content, raw, chosenAlone, known, compiled, found⟩
  have sameOptions : { options with tsconfig := none } = { optionsAgain with tsconfig := none } := by
    obtain ⟨value, told, chose⟩ := chosenAgain
    rw [choose_forFile path isFiles] at chose
    exact chosen.unique ⟨value, told, chose⟩
  have elsewhere {raw : Text.Bytes} : ∀ candidate ∈ consulted (layout.destination path) raw,
      candidate ≠ layout.outputDescriptor → before.holdsFile candidate = after.holdsFile candidate := by
    intro candidate found other
    refine (holdsFile_congr (finished.patched.elsewhere fun parts => other (Path.eq_of_parts ?_ parts))).symm
    obtain ⟨rest, destination, -⟩ :=
      Layout.destination_eq placed Layout.saysOfParts_isName place.absolute place.plain
    rw [anchor_of_consulted found, destination]
    exact (congrArg Path.anchor (Output.descriptorOf_eq layout.output)).symm
  have same : first = bytes := product.unique_of_rewritten makes productAgain sameOptions rfl
    fun content raw known compiled _ _ => Rewritten.unique_of_appears absolute proper elsewhere
      (fun other same => sibling_ne_outputDescriptor layout other (congrArg Path.parts same))
      (fun other same => index_ne_outputDescriptor layout other (congrArg Path.parts same))
      fun found => finished.descriptor_appears (seen (consults content raw known compiled found))
  rw [held, same]

/-- Patching a patched descriptor changes nothing. -/
theorem patches_nothing_new {format : OutputFormat} {last : Tree}
    (patched : Patched layout format before after) (again : Patched layout format after last) :
    last.contentAt? = after.contentAt? := by
  obtain ⟨content, patches, contents⟩ := patched.contents
  obtain ⟨contentAgain, patchesAgain, contentsAgain⟩ := again.contents
  have here : after.contentAt? (Output.descriptorOf layout.output).parts = content := by
    rw [contents, Function.update_self]
  rw [here] at patchesAgain
  rw [contentsAgain, patches.again patchesAgain, ← here, Function.update_eq_self]

/-- Making a product again that is there changes nothing. -/
theorem makes_nothing_new {place : Location} {bytes : Text.Bytes} {last : Contents}
    (patched : Patched layout request.format before after) (held : before.contentAt? place = some bytes)
    (takes : (Act.makes bytes).Takes request.format layout.outputDescriptor.parts place after.contentAt? last) :
    last = after.contentAt? := by
  obtain ⟨content, patches, contents⟩ := patched.contents
  obtain ⟨again, patchesAgain, rfl⟩ := takes
  change Output.Patches _ (before.contentAt? layout.outputDescriptor.parts) _ at patches
  change after.contentAt? = Function.update _ layout.outputDescriptor.parts _ at contents
  by_cases here : place = layout.outputDescriptor.parts
  · rw [here] at held patchesAgain ⊢
    rw [Function.update_self, ← held] at patchesAgain
    rw [patchesAgain.unique patches, Function.update_idem, contents, Function.update_idem]
  · have still : Function.update after.contentAt? place (some bytes) = after.contentAt? := by
      rw [Function.update_eq_self_iff, patched.elsewhere here, held]
    have descriptor : after.contentAt? layout.outputDescriptor.parts = content := by
      rw [contents, Function.update_self]
    rw [still, descriptor] at patchesAgain
    rw [still, patches.again patchesAgain, ← descriptor, Function.update_eq_self]

/-- A source that is found can be built by itself. -/
theorem isPlace_of_isSource {parts : List String} {tree : Tree} (source : IsSource root tree file parts)
    (rooted : root.anchor = .root) (plain : root.IsPlain)
    (literal : Glob.hasMagic file.path.toString = false) : IsPlace (Layout.ofRoot root) file.path where
  rooted := by
    rw [source.path, Sources.sources_eq]
    exact rooted
  plain := source.isPlain plain
  nonempty := by
    rw [source.path]
    simp [source.nonempty]
  literal := literal
  outside := by
    rw [source.path]
    exact not_output_of_sources root parts

/-- A full build that ends has finished, has changed nothing outside of the output, and leaves a session behind
in which sources can be built. -/
theorem run_finishes (setting : Setting tools root request) (full : IsFull request) (ready : Ready root start)
    (present : start.tree.status root = .ok .directory)
    (found : Sources.discover start.tree (.ofRoot root) "src/**/*" = .ok files)
    (apart : ((emitted files).map (placeOf (.ofRoot root))).Nodup)
    (ran : run tools request (.ofRoot root) start = (.ok outcome, built)) :
    (∀ location, ¬ (Layout.ofRoot root).output.parts <+: location →
      built.tree.contentAt? location = start.tree.contentAt? location) ∧
    Ready root built ∧ built.environment = start.environment ∧
    ∃ before, Finished tools (.ofRoot root) request.settled (!Tools.rewritesDisabled start.environment) files
      before built.tree := by
  obtain ⟨⟨others, same, results⟩, temporary, environment⟩ := run_builds_everything setting.writes
    setting.rooted setting.plain ready.plainTemporary ready.regular present found apart full.all
    (by simp [Request.isLiteral, full.files]) full.clears (by simp [Request.settled, setting.development]) ran
  obtain ⟨unchanged, before, finished⟩ := finished_of_results ready.regular setting.rooted setting.plain found
    apart same (ready.free _) results
  refine ⟨unchanged, ⟨finished.patched.regular, temporary ▸ ready.plainTemporary, temporary ▸ ready.outside,
    fun clock => ?_⟩, environment, before, finished⟩
  rw [temporary, unchanged _ (ready.copy_outside clock)]
  exact ready.free clock

/-- Building a source again that has not changed since a full build changes nothing. The module that is made
of it may look for the descriptor of the output only if that is among the products, or if no module stands
beside it. -/
theorem rebuild_of_unchanged (setting : Setting tools root request) (makes : tools.MakesBy (.ofRoot root) emit)
    (full : IsFull request) (ready : Ready root start) (present : start.tree.status root = .ok .directory)
    (found : Sources.discover start.tree (.ofRoot root) "src/**/*" = .ok files)
    (apart : ((emitted files).map (placeOf (.ofRoot root))).Nodup)
    (ran : run tools request (.ofRoot root) start = (.ok outcome, built))
    (tree : later.tree = built.tree) (environment : later.environment = start.environment)
    (readyLater : Ready root later) (member : file ∈ files)
    (literal : Glob.hasMagic file.path.toString = false)
    (seen : Consults tools (.ofRoot root) request built.tree file.path (Layout.ofRoot root).outputDescriptor →
      (∃ other ∈ files, other.dialect ≠ .declaration ∧
        placeOf (.ofRoot root) other = (Layout.ofRoot root).outputDescriptor.parts) ∨
      built.tree.contentAt? (Specifier.sibling (Layout.ofRoot root).outputDescriptor).parts = none)
    (narrowed : request.forPath later.tree file.path = .ok single)
    (again : run tools single (.ofRoot root) later = (.ok other, final)) :
    final.tree.contentAt? = built.tree.contentAt? := by
  have placed := setting.placed
  have stops : request.settled.runtimeOnly := by simp [Request.settled, setting.development]
  obtain ⟨unchanged, -, -, before, finished⟩ := run_finishes setting full ready present found apart ran
  obtain ⟨parts, source⟩ := isSource_of_discover ready.regular setting.rooted setting.plain found member
  have place := isPlace_of_isSource source setting.rooted setting.plain literal
  have isSourceFile : SourceFile.ofPath (.ofRoot root) file.path = file := by
    obtain ⟨paths, rfl, -⟩ := Sources.discover_everything ready.regular setting.rooted setting.plain found
    obtain ⟨path, -, rfl⟩ := List.mem_map.mp member
    rw [SourceFile.path_ofPath]
  have held : later.tree.holdsFile file.path = true := by
    rw [tree, holdsFile_congr (unchanged _ place.outside)]
    exact source.held
  obtain ⟨content, executable, status⟩ := readyLater.regular.status_of_holdsFile place.plain held
  have isFile : later.tree.isFile file.path = .ok true := Tree.isFile_iff.mpr ⟨content, executable, status⟩
  have isSingle : single = request.forFile file.path := by
    rw [Request.forPath, Sources.resolvePath_of_status readyLater.regular.linkless place.rooted place.plain
      status] at narrowed
    exact (Except.ok.inj narrowed).symm
  subst isSingle
  rw [← tree]
  rw [← tree] at finished seen
  by_cases declaration : Dialect.ofPath file.path = .declaration
  · have known := (@run_leaves_declaration tools root (request.forFile file.path) later.tree later.temporary
      later.clock later.environment file.path setting.writes placed place.rooted place.plain place.nonempty
      place.literal declaration place.outside readyLater.plainTemporary readyLater.regular isFile rfl rfl stops
      (readyLater.free later.clock)).outcome later ⟨⟨rfl, rfl, rfl⟩, rfl⟩
    rw [again] at known
    exact patches_nothing_new finished.patched known
  · have known := (@run_rebuilds tools (.ofRoot root) (request.forFile file.path) file.path later.tree
      later.temporary later.clock later.environment setting.writes placed (place.lone declaration)
      (place.descriptor_ne placed) readyLater.plainTemporary readyLater.regular isFile rfl rfl stops).outcome
        later ⟨⟨rfl, rfl, rfl⟩, rfl⟩
    rw [again] at known
    obtain ⟨last, shown, -⟩ := known
    have effect : Effect tools (.ofRoot root) request (!Tools.rewritesDisabled start.environment)
        later.temporary { path := file.path, kind := .modified } later.tree final.tree :=
      .rebuilt later.clock (by simp) declaration held (environment ▸ shown.tree)
    obtain ⟨-, act, demands, takes⟩ := effect.acts readyLater.free
    cases act with
    | removes =>
      cases demands with
      | removes gone => cases gone
    | makes bytes =>
      have held := makes_again finished makes placed full.files (isSourceFile ▸ member) place seen demands
      exact makes_nothing_new finished.patched held takes
    | nothing => exact takes

end

/-! ### A project of one source -/

/-- A project with one source, which holds this text. -/
def loneSession (name text : String) : Session where
  tree := ⟨[(["p"], .directory), (["p", "src"], .directory),
    (["p", "src", name], .file (Text.Utf8.encode text) false), (["t"], .directory)]⟩
  environment := []
  directory := ⟨.root, ["p"]⟩
  temporary := ⟨.root, ["t"]⟩
  clock := 1

/-- The source of the project. -/
def loneFile (name : String) : SourceFile :=
  SourceFile.ofPath (.ofRoot ⟨.root, ["p"]⟩) ⟨.root, ["p", "src", name]⟩

/-- The project with one module is ready for events. -/
theorem loneSession_ready {name text : String} (regular : (loneSession name text).tree.IsRegular) :
    Ready ⟨.root, ["p"]⟩ (loneSession name text) where
  regular := regular
  plainTemporary := (by decide : (Path.mk .root ["t"]).IsPlain)
  outside := (by decide +kernel : ¬ (Layout.ofRoot ⟨.root, ["p"]⟩).output.parts <+: ["t"])
  free clock := by
    refine contentAt?_eq_none_of_none (Option.eq_none_iff_forall_not_mem.mpr fun entry present => ?_)
    have inside : (Configuration.copyPath (loneSession name text).temporary clock).parts ≠ [] := by
      simp [Configuration.copyPath_eq]
    have member := mem_entries_of_get? present inside
    simp [loneSession, Configuration.copyPath_eq] at member

/-- The request of the watched project asks for a full build. -/
theorem watchRequest_isFull : IsFull watchRequest := ⟨rfl, rfl, rfl⟩

/-- The sessions that a full build of the project leaves behind, and one of its source after that. -/
def loneRuns? (name text : String) : Option (Session × Session) :=
  match run plainCompiler.toolchain watchRequest (.ofRoot ⟨.root, ["p"]⟩) (loneSession name text) with
  | (.ok _, built) =>
    match run plainCompiler.toolchain (watchRequest.forFile (loneFile name).path) (.ofRoot ⟨.root, ["p"]⟩)
      built with
    | (.ok _, final) => some (built, final)
    | (.error _, _) => none
  | (.error _, _) => none

/-- The source of the project is built again after a full build. -/
structure BuiltAgain (name text : String) (built final : Session) : Prop where
  found : Sources.discover (loneSession name text).tree (.ofRoot ⟨.root, ["p"]⟩) "src/**/*" = .ok [loneFile name]
  literal : Glob.hasMagic (loneFile name).path.toString = false
  ran : ∃ outcome, run plainCompiler.toolchain watchRequest (.ofRoot ⟨.root, ["p"]⟩) (loneSession name text) =
    (.ok outcome, built)
  narrowed : watchRequest.forPath built.tree (loneFile name).path =
    .ok (watchRequest.forFile (loneFile name).path)
  again : ∃ outcome, run plainCompiler.toolchain (watchRequest.forFile (loneFile name).path)
    (.ofRoot ⟨.root, ["p"]⟩) built = (.ok outcome, final)

/-- What two builds come to, given what is asked of the files that they leave behind. -/
theorem builtAgain_of_runs {Answer : Type} {name text : String} {ask : Tree → Tree → Answer} {answer : Answer}
    (found : (Sources.discover (loneSession name text).tree (.ofRoot ⟨.root, ["p"]⟩) "src/**/*").toOption =
      some [loneFile name])
    (literal : Glob.hasMagic (loneFile name).path.toString = false)
    (ended : (loneRuns? name text).map (fun sessions =>
      ((Sources.resolvePath sessions.1.tree (loneFile name).path).toOption,
        ask sessions.1.tree sessions.2.tree)) = some (some (loneFile name).path, answer)) :
    ∃ built final, BuiltAgain name text built final ∧ ask built.tree final.tree = answer := by
  obtain ⟨⟨built, final⟩, ended, told⟩ := Option.map_eq_some_iff.mp ended
  obtain ⟨resolved, told⟩ := Prod.mk.inj told
  unfold loneRuns? at ended
  split at ended
  · rename_i outcome middle ran
    split at ended
    · rename_i other last again
      cases ended
      have narrowed : watchRequest.forPath built.tree (loneFile name).path =
          .ok (watchRequest.forFile (loneFile name).path) := by
        rw [Request.forPath, ok_of_toOption resolved]
        rfl
      exact ⟨built, final, ⟨ok_of_toOption found, literal, ⟨outcome, ran⟩, narrowed, ⟨other, again⟩⟩, told⟩
    · cases ended
  · cases ended

/-- A module that imports itself does not change when it is built again. -/
theorem rebuild_of_unchanged_self : ∃ built final, BuiltAgain "a.ts" "import './a'" built final ∧
    final.tree.contentAt? = built.tree.contentAt? := by
  have ready := @loneSession_ready "a.ts" "import './a'" (isRegular_of_entries (by decide +kernel))
  have present : (loneSession "a.ts" "import './a'").tree.status ⟨.root, ["p"]⟩ = .ok .directory :=
    ok_of_toOption (by decide +kernel)
  have apart : ((emitted [loneFile "a.ts"]).map (placeOf (.ofRoot ⟨.root, ["p"]⟩))).Nodup := by decide +kernel
  obtain ⟨built, final, builtAgain, noModule⟩ := @builtAgain_of_runs _ "a.ts" "import './a'"
    (fun built _ => built.contentAt? (Specifier.sibling (Layout.ofRoot ⟨.root, ["p"]⟩).outputDescriptor).parts)
    none (by decide +kernel) (by decide +kernel) (by decide +kernel)
  obtain ⟨found, literal, ⟨outcome, ran⟩, narrowed, ⟨other, again⟩⟩ := builtAgain
  obtain ⟨-, readyLater, environment, -⟩ :=
    run_finishes watchSetting watchRequest_isFull ready present found apart ran
  refine ⟨built, final, ⟨found, literal, ⟨outcome, ran⟩, narrowed, ⟨other, again⟩⟩, ?_⟩
  exact rebuild_of_unchanged watchSetting watchSetting_makes watchRequest_isFull ready present found apart ran rfl
    environment readyLater (List.mem_singleton.mpr rfl) literal (fun _ => .inr noModule) narrowed again

/-- A module that looks for the descriptor of the output finds itself while there is none, but finds the
descriptor when it is built again. So it changes although its source has not changed. -/
theorem rebuild_sees_descriptor :
    Setting plainCompiler.toolchain ⟨.root, ["p"]⟩ watchRequest ∧
    plainCompiler.toolchain.MakesBy (.ofRoot ⟨.root, ["p"]⟩) (fun _ => plainCompiler.emitted) ∧
    IsFull watchRequest ∧ Ready ⟨.root, ["p"]⟩ (loneSession "package.json.ts" "import './package.json'") ∧
    ((emitted [loneFile "package.json.ts"]).map (placeOf (.ofRoot ⟨.root, ["p"]⟩))).Nodup ∧
    ∃ built final, BuiltAgain "package.json.ts" "import './package.json'" built final ∧
      built.tree.contentAt? ["p", "dist", "package.json.js"] =
        some (Text.Utf8.encode "import './package.json.js'") ∧
      final.tree.contentAt? ["p", "dist", "package.json.js"] =
        some (Text.Utf8.encode "import './package.json'") := by
  obtain ⟨built, final, builtAgain, told⟩ := @builtAgain_of_runs _ "package.json.ts" "import './package.json'"
    (fun built final => (built.contentAt? ["p", "dist", "package.json.js"],
      final.contentAt? ["p", "dist", "package.json.js"]))
    (some (Text.Utf8.encode "import './package.json.js'"), some (Text.Utf8.encode "import './package.json'"))
    (by decide +kernel) (by decide +kernel) (by decide +kernel)
  obtain ⟨before, after⟩ := Prod.mk.inj told
  exact ⟨watchSetting, watchSetting_makes, watchRequest_isFull,
    loneSession_ready (isRegular_of_entries (by decide +kernel)), by decide +kernel, built, final, builtAgain,
    before, after⟩

end Watch

end TreeBuild
