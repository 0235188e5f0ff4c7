import TreeBuild.Proofs.Build.Results

/-!
# Builds of one file

A build of one file removes the product of that file, makes it again, and patches the descriptor of the
output. Nothing else changes, except that the copy of the compiler configuration comes and goes: its
specifiers are resolved among the files that are there, but no other module is written again.
-/
namespace TreeBuild.Build

open TreeBuild.Tree

/-- The path of a source that is built by itself: it is written by names in which every character stands
for itself, it does not lie in the output, and it leads to a product. -/
structure IsLone (layout : Layout) (path : Path) : Prop where
  rooted : path.anchor = .root
  plain : path.IsPlain
  nonempty : path.parts ≠ []
  literal : Glob.hasMagic path.toString = false
  emitted : Dialect.ofPath path ≠ .declaration
  outside : ¬ layout.output.parts <+: path.parts

/-- A path that stands for one source is absolute. -/
theorem IsLone.absolute {layout : Layout} {path : Path} (lone : IsLone layout path) : path.isAbsolute := by
  simp [Path.isAbsolute, lone.rooted]

/-- A source is not its own destination. -/
theorem IsLone.ne_destination {layout : Layout} {path : Path} (lone : IsLone layout path)
    (placed : layout.IsPlaced) : path.parts ≠ (layout.destination path).parts := by
  obtain ⟨rest, same, -⟩ := Layout.destination_eq placed Layout.saysOfParts_isName lone.absolute lone.plain
  intro equal
  refine lone.outside ?_
  rw [equal, same]
  exact List.prefix_append _ rest

/-- A tree in which nothing is left at a location, and all other files are as they were. -/
structure Vacated (location : Location) (start tree : Tree) : Prop where
  regular : tree.IsRegular
  contents : tree.contentAt? = Function.update start.contentAt? location none
  notDirectory : tree.get? location ≠ some .directory

/-- What a build of one file leaves behind: the product of the file is new and can be named, the descriptor
is patched, and the copy of the configuration is gone. -/
structure Rebuilt (tools : Toolchain) (layout : Layout) (request : Request) (rewrites : Bool)
    (path copy : Path) (before after : Tree) : Prop where
  regular : after.IsRegular
  fits : (layout.destination path).Fits
  product : ∃ (options : CompilerOptions) (bytes : Text.Bytes) (descriptor : Option Text.Bytes),
    CompilerOptions.Chosen request (before.contentAt? layout.descriptor.parts) (some copy) options ∧
    Product tools layout options rewrites
      (standing layout [SourceFile.ofPath layout path] (Function.update
        (Function.update before.contentAt? (layout.destination path).parts none) copy.parts none))
      before.contentAt? (SourceFile.ofPath layout path) bytes ∧
    Output.Patches request.format (Function.update (Function.update before.contentAt? copy.parts none)
      (layout.destination path).parts (some bytes) layout.outputDescriptor.parts) descriptor ∧
    after.contentAt? = Function.update (Function.update (Function.update before.contentAt?
      copy.parts none) (layout.destination path).parts (some bytes)) layout.outputDescriptor.parts
      descriptor

section

variable {tools : Toolchain} {layout : Layout} {request : Request} {path : Path} {start : Tree}
  {temporary : Path} {clock : Nat} {environment : Environment}

/-- Nothing is left at a destination that has been cleared. -/
theorem invalidate_vacates (regular : start.IsRegular) {destination : Path}
    (plain : destination.IsPlain) :
    Ends (Session.Shows (fun tree => tree = start) temporary clock) (Output.invalidate destination)
      (fun _ => Session.Shows (Vacated destination.parts start) temporary clock) (fun _ => True) := by
  unfold Output.invalidate
  refine Ends.get.bind fun now => Ends.of_forall fun state ⟨same, shown⟩ => ?_
  subst same
  have tree := shown.tree
  split
  · rename_i after unlinked
    rw [tree] at unlinked
    refine (Ends.modify (Session.Shows (Vacated destination.parts start) temporary clock) ?_).bind
      fun _ => .pure fun _ shown => shown
    rintro _ rfl
    have changes := regular.unlink plain unlinked
    exact ⟨⟨changes.regular, changes.contents, regular.notDirectory_of_unlink plain unlinked⟩,
      shown.temporary, shown.clock⟩
  · rename_i text refused
    rw [tree] at refused
    have none := regular.get?_of_unlink_error plain refused
    refine .pure fun session same => ?_
    subst same
    refine ⟨⟨tree ▸ regular, ?_, ?_⟩, shown.temporary, shown.clock⟩
    · rw [tree, ← contentAt?_eq_none_of_none none, Function.update_eq_self]
    · rw [tree, none]
      simp
  · exact .throw fun _ _ => trivial

/-- A build of one path clears its destination, unless that is left to another tool. -/
theorem clear_of_path (absolute : path.isAbsolute) (proper : path.IsProper)
    (given : request.input = .proper path.toString) (files : request.isLiteral = false) :
    clear request layout = (if Dialect.ofPath path ≠ .declaration then
      discard (Output.invalidate (layout.destination path)) else pure ()) := by
  have read : Path.ofString path.toString = path := Path.ofString_toString absolute proper
  have input : request.input.path = .ok path := by rw [given, Given.path, read]
  have single : request.isSinglePath = .ok true := by
    rw [Request.isSinglePath, files, input, Except.map, absolute]
    rfl
  funext session
  unfold clear
  rw [bind_apply, Action.ask_apply, single]
  dsimp only
  rw [if_pos rfl, bind_apply, Action.ask_apply, input]

/-- A build of one file starts with its product removed. -/
theorem clear_vacates (regular : start.IsRegular) (placed : layout.IsPlaced) (lone : IsLone layout path)
    (given : request.input = .proper path.toString) (files : request.isLiteral = false) :
    Ends (Session.Shows (fun tree => tree = start) temporary clock) (clear request layout)
      (fun _ => Session.Shows (Vacated (layout.destination path).parts start) temporary clock)
      (fun _ => True) := by
  rw [clear_of_path lone.absolute lone.plain.proper given files, if_pos lone.emitted]
  exact Ends.discard (invalidate_vacates regular
    (Layout.destination_isPlain placed lone.absolute lone.plain))

/-- The source that is built by itself is the one that is found. -/
theorem discoverInput_lone (regular : start.IsRegular) (placed : layout.IsPlaced)
    (lone : IsLone layout path) (given : request.input = .proper path.toString)
    (held : start.isFile path = .ok true) :
    Ends (Session.Shows (Vacated (layout.destination path).parts start) temporary clock)
      (discoverInput request layout)
      (fun files => Session.Shows (fun tree => files = [SourceFile.ofPath layout path] ∧
        Vacated (layout.destination path).parts start tree) temporary clock) (fun _ => True) := by
  refine (Ends.ask _).mono (fun _ shown => shown) (fun files state told => ?_) fun _ _ => trivial
  obtain ⟨answer, shown⟩ := told
  refine ⟨⟨?_, shown.tree⟩, shown.temporary, shown.clock⟩
  obtain ⟨-, -, answer⟩ := exists_of_bind_eq_ok answer
  change Sources.discover state.tree layout request.input.shown = .ok files at answer
  rw [given] at answer
  have isFile : state.tree.isFile path = .ok true := by
    obtain ⟨content, executable, status⟩ := Tree.isFile_iff.mp held
    obtain ⟨fits, present⟩ := (regular.status_iff lone.plain).mp status
    have other := lone.ne_destination placed
    have still : state.tree.contentAt? path.parts = some content := by
      rw [shown.tree.contents, Function.update_of_ne other, contentAt?_of_get? present]
    obtain ⟨mode, here⟩ := contentAt?_eq_some.mp still
    exact Tree.isFile_iff.mpr ⟨content, mode, (shown.tree.regular.status_iff lone.plain).mpr ⟨fits, here⟩⟩
  have found := @Sources.discover_of_isFile state.tree layout path shown.tree.regular.linkless lone.rooted
    lone.plain lone.nonempty lone.literal isFile
  change Sources.discover state.tree layout path.toString = .ok files at answer
  rw [found] at answer
  exact (Except.ok.inj answer).symm

/-- A file by itself is a batch. -/
theorem batch_singleton (placed : layout.IsPlaced) (lone : IsLone layout path) :
    Batch layout [SourceFile.ofPath layout path] where
  placed := placed
  absolute file member := by
    rw [List.mem_singleton.mp member]
    exact lone.absolute
  plain file member := by
    rw [List.mem_singleton.mp member]
    exact lone.plain
  dialect file member := by
    rw [List.mem_singleton.mp member]
    rfl
  apart := by
    refine List.Nodup.sublist (List.Sublist.map _ List.filter_sublist) ?_
    simp
  separate asset member _ other another _ _ := by
    rw [List.mem_singleton.mp member, List.mem_singleton.mp another]
  outside file member := by
    rw [List.mem_singleton.mp member]
    exact lone.outside

/-- What a build of one file has to do with once its product has been removed. -/
theorem prospect_singleton (placed : layout.IsPlaced) (lone : IsLone layout path)
    (regular : start.IsRegular) (held : start.isFile path = .ok true) :
    Prospect layout [SourceFile.ofPath layout path]
      (Function.update start.contentAt? (layout.destination path).parts none)
      (Vacated (layout.destination path).parts start) where
  batch := batch_singleton placed lone
  present file member := by
    obtain ⟨-, isFile⟩ := (regular.isFile_iff lone.plain held).mp rfl
    obtain ⟨content, here⟩ := Option.isSome_iff_exists.mp isFile
    rw [List.mem_singleton.mp member]
    exact ⟨content, by rw [SourceFile.path_ofPath, Function.update_of_ne (lone.ne_destination placed), here]⟩
  regular tree vacated := vacated.regular
  contents tree vacated := vacated.contents
  clear tree vacated file member _ := by
    rw [List.mem_singleton.mp member]
    exact vacated.notDirectory

/-- What a build of one file leaves behind is that this file has been built again. -/
theorem rebuilt_of_results {rewrites : Bool} {copy : Path} {after : Tree} (placed : layout.IsPlaced)
    (lone : IsLone layout path)
    (descriptor : layout.descriptor.parts ≠ (layout.destination path).parts)
    (results : Results tools layout request rewrites [SourceFile.ofPath layout path]
      (Function.update start.contentAt? (layout.destination path).parts none) copy after) :
    Rebuilt tools layout request rewrites path copy start after := by
  obtain ⟨options, middle, chosen, moment, patched⟩ := results
  have isEmitted : emitted [SourceFile.ofPath layout path] = [SourceFile.ofPath layout path] := by
    simp [emitted, lone.emitted]
  have only : SourceFile.ofPath layout path ∈ emitted [SourceFile.ofPath layout path] := by
    rw [isEmitted]
    exact List.mem_singleton.mpr rfl
  rw [isEmitted] at moment only
  obtain ⟨fits, bytes, held, product⟩ := moment.made _ only
  obtain ⟨content, patches, contents⟩ := patched.contents
  have whole : middle.contentAt? = Function.update (Function.update start.contentAt? copy.parts none)
      (layout.destination path).parts (some bytes) := by
    funext location
    by_cases here : location = (layout.destination path).parts
    · rw [here, Function.update_self]
      exact held
    · have free : ∀ file ∈ [SourceFile.ofPath layout path], location ≠ placeOf layout file := by
        intro file member
        rw [List.mem_singleton.mp member]
        exact here
      rw [Function.update_of_ne here, moment.rest location free, Function.update_apply,
        Function.update_apply, if_neg here, Function.update_apply]
  rw [Function.update_of_ne descriptor] at chosen
  refine ⟨patched.regular, fits, options, bytes, content, chosen, ?_, ?_, ?_⟩
  · have same : (Function.update start.contentAt? (layout.destination path).parts none) path.parts =
        start.contentAt? path.parts := Function.update_of_ne (lone.ne_destination placed) _ _
    unfold Product Makes at product ⊢
    rw [SourceFile.path_ofPath, same] at product
    exact product
  · rw [← whole]
    exact patches
  · rw [contents, whole]
    rfl

/-- A build of one file that ends has built this file again. -/
theorem run_rebuilds (writes : tools.WritesTargets layout) (placed : layout.IsPlaced)
    (lone : IsLone layout path) (descriptor : layout.descriptor.parts ≠ (layout.destination path).parts)
    (plainTemporary : temporary.IsPlain) (regular : start.IsRegular) (held : start.isFile path = .ok true)
    (given : request.input = .proper path.toString) (isFiles : request.isLiteral = false)
    (stops : request.settled.runtimeOnly) :
    Ends
      (fun session => Session.Shows (fun tree => tree = start) temporary clock session ∧
        session.environment = environment)
      (run tools request layout)
      (fun _ session => ∃ last, Session.Shows (Rebuilt tools layout request.settled
        (!Tools.rewritesDisabled environment) path (Configuration.copyPath temporary clock) start)
        temporary last session ∧ session.environment = environment) (fun _ => True) := by
  have ends := @run_ends request layout environment temporary clock (fun tree => tree = start)
    (fun after => ∃ files, files = [SourceFile.ofPath layout path] ∧
      Results tools layout request.settled (!Tools.rewritesDisabled environment) files
        (Function.update start.contentAt? (layout.destination path).parts none)
        (Configuration.copyPath temporary clock) after)
    (fun _ => True) tools (fun _ _ => trivial)
    (fun _ literal => absurd literal (by simpa [Request.isLiteral, Request.settled] using isFiles))
    (fun _ _ compiler sameTools sameLayout => by
      subst sameTools
      have clears := @clear_vacates layout request.settled path start temporary clock regular placed lone
        given isFiles
      have discovers := @discoverInput_lone layout request.settled path start temporary clock regular
        placed lone given held
      exact @course compiler request.settled layout environment temporary clock _ _ writes placed
        plainTemporary (fun tree => tree = start) (fun files => files = [SourceFile.ofPath layout path])
        clears discovers fun files same => same ▸ prospect_singleton placed lone regular held) stops
  refine ends.mono (fun _ shown => shown) (fun _ session known => ?_) fun _ _ => trivial
  obtain ⟨last, shown, same⟩ := known
  refine ⟨last, ?_, same⟩
  refine Session.Shows.mono (fun after results => ?_) session shown
  obtain ⟨files, rfl, results⟩ := results
  exact rebuilt_of_results placed lone descriptor results

end

end TreeBuild.Build
