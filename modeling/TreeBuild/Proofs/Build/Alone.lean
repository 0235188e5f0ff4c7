import TreeBuild.Proofs.Build.Containment
import TreeBuild.Proofs.Build.Handing

/-!
# Builds of one path

A build of a path that names a file clears the destination of this file and then works on this file alone:
discovery gives nothing else for the path, the compiler is handed nothing else, and the report lists nothing
else. In a tree without links, a build that ends has made the destination anew, whatever was there before
and wherever the file lies.
-/
namespace TreeBuild

namespace Tree

/-- A file that is changed somewhere else, or written, is still there. -/
theorem Changes.isSome {location : Location} {bytes : Text.Bytes} {before after : Tree}
    (changes : Changes location (some bytes) before after) {other : Location}
    (held : (before.contentAt? other).isSome) : (after.contentAt? other).isSome := by
  by_cases same : other = location
  · rw [same, changes.here]
    rfl
  · rwa [changes.elsewhere same]

end Tree

/-- Tools behind the compiler that leave a file where it is. -/
def Toolchain.SparesFile (tools : Toolchain) (layout : Layout) (location : Location) : Prop :=
  ∀ (invocation : Invocation) (tree : Tree), Auxiliary.Calls layout invocation →
    (tree.contentAt? location).isSome → ((tools.run invocation tree).2.contentAt? location).isSome

namespace Build

open TreeBuild.Tree

/-- A tree in which the destination of a path is free: no directory is in its place. -/
structure IsFree (layout : Layout) (path : Path) (tree : Tree) : Prop where
  regular : tree.IsRegular
  notDirectory : tree.get? (layout.destination path).parts ≠ some .directory

/-- A tree in which there is a file at the destination of a path. -/
structure IsMade (layout : Layout) (path : Path) (tree : Tree) : Prop where
  regular : tree.IsRegular
  held : (tree.contentAt? (layout.destination path).parts).isSome

/-- What a compilation has left of the destination: a module is there, and an asset may still come. -/
def IsReady (layout : Layout) (path : Path) (tree : Tree) : Prop :=
  if (Dialect.ofPath path).isCompiled then IsMade layout path tree else IsFree layout path tree

/-- A tree in which a path stands for the source at it. -/
def Finds (layout : Layout) (path : Path) (tree : Tree) : Prop :=
  Sources.discover tree layout path.toString = .ok [SourceFile.ofPath layout path]

/-- A path whose destination is made by a build: it is written by names from the root, and what it leads to
is a product. -/
structure Makeable (layout : Layout) (path : Path) : Prop where
  placed : layout.IsPlaced
  rooted : path.anchor = .root
  plain : path.IsPlain
  emitted : Dialect.ofPath path ≠ .declaration

section

variable {compiler : Compiler} {request : Request} {layout : Layout} {path : Path} {temporary : Path}
  {clock : Nat} {environment : Environment}

/-- The copy of the configuration leaves the destination free. -/
theorem copyConfiguration_frees (plain : temporary.IsPlain) :
    Ends (Session.Shows (IsFree layout path) temporary clock) (copyConfiguration request layout)
      (fun copy => Session.Shows (fun tree => copy = Configuration.copyPath temporary clock ∧
        IsFree layout path tree) temporary (clock + 1)) (fun _ => True) := by
  unfold copyConfiguration
  refine ((Ends.ask _).mono (fun _ shown => shown) (fun _ _ told => told.2)
    fun _ _ => trivial).bind fun asked => ?_
  have written (text : String) : Ends (Session.Shows (IsFree layout path) temporary (clock + 1))
      (Action.writeText (Configuration.copyPath temporary clock) text)
      (fun _ => Session.Shows (IsFree layout path) temporary (clock + 1)) (fun _ => True) := by
    refine .changeFiles (fun session tree shown written => ?_) fun _ _ _ _ => trivial
    obtain ⟨-, changes⟩ := shown.tree.regular.write (Configuration.copyPath_isPlain plain clock) written
    exact ⟨⟨changes.regular, fun directory => shown.tree.notDirectory (changes.directories _ directory)⟩,
      shown.temporary, shown.clock⟩
  refine (Configuration.makeCopy_ends (fun _ _ => trivial) _ fun _ _ _ _ => written _).mono
    (fun _ shown => shown) (fun copy session told => ?_) fun _ _ => trivial
  obtain ⟨place, shown⟩ := told
  exact ⟨⟨place, shown.tree⟩, shown.temporary, shown.clock⟩

/-- A module that was written is written again when its specifiers are rewritten, and nothing is removed. -/
theorem normalizeFiles_keeps_made {modules : List Path} (plain : ∀ output ∈ modules, output.IsPlain)
    (source : Path → Option SourceFile) :
    Keeps (Session.Shows (IsMade layout path) temporary clock) (Specifier.normalizeFiles modules source) := by
  refine Specifier.normalizeFiles_keeps Session.Shows.silent (fun output member text => ?_) source
  refine .changeFiles (fun session tree shown written => ?_) fun _ _ shown _ => shown
  obtain ⟨-, changes⟩ := shown.tree.regular.write (plain output member) written
  exact ⟨⟨changes.regular, changes.isSome shown.tree.held⟩, shown.temporary, shown.clock⟩

variable (makeable : Makeable layout path)

include makeable

/-- A path that can be made is absolute. -/
theorem Makeable.absolute : path.isAbsolute := by simp [Path.isAbsolute, makeable.rooted]

/-- The destination of a source that can be made has no special parts. -/
theorem Makeable.destination : (layout.destination path).IsPlain :=
  Layout.destination_isPlain makeable.placed makeable.absolute makeable.plain

/-- The destination is free once it has been cleared, and the path still stands for its source. -/
theorem clear_frees {start : Tree} (names : Names start path) (regular : start.IsRegular)
    (given : request.input = .proper path.toString) (files : request.isLiteral = false) :
    Ends (Session.Shows (fun tree => tree = start) temporary clock) (clear request layout)
      (fun _ => Session.Shows (fun tree => Finds layout path tree ∧ IsFree layout path tree) temporary clock)
      (fun _ => True) := by
  have frees : Ends (Session.Shows (fun tree => tree = start) temporary clock) (clear request layout)
      (fun _ => Session.Shows (IsFree layout path) temporary clock) (fun _ => True) := by
    rw [clear_of_path makeable.absolute makeable.plain.proper given files, if_pos makeable.emitted]
    exact Ends.discard ((invalidate_vacates regular makeable.destination).mono (fun _ shown => shown)
      (fun _ => Session.Shows.mono fun tree vacated => ⟨vacated.regular, vacated.notDirectory⟩)
      fun _ _ => trivial)
  refine Ends.of_forall fun state shown => ?_
  have named : Names state.tree path := shown.tree ▸ names
  have both := (clear_discovers named given files).and frees
  refine both.mono (fun session same => ?_) (fun _ session known => ?_) fun _ _ => trivial
  · subst same
    exact ⟨rfl, shown⟩
  · exact ⟨⟨known.1.found, known.2.tree⟩, known.2.temporary, known.2.clock⟩

/-- A call of the compiler for the destination makes it. -/
theorem run_makes (writes : compiler.tools.WritesTargets layout) (arguments : List String)
    (input : Option String) (directory : Path)
    (asks : Compiler.Asks layout ⟨compiler.program :: arguments, directory, input⟩)
    (targets : Invocation.targets ⟨compiler.program :: arguments, directory, input⟩ =
      [layout.destination path]) :
    Ends (Session.Shows (IsFree layout path) temporary clock) (compiler.run arguments input directory)
      (fun _ => Session.Shows (IsMade layout path) temporary clock) (fun _ => True) := by
  refine Compiler.run_ends compiler arguments input directory (fun _ => Session.Shows.silent)
    (fun session output errors tree shown ran => ?_) fun _ _ _ _ _ => trivial
  have gains := writes _ session.tree tree output errors asks shown.tree.regular (by
    rw [targets]
    intro target member
    exact List.mem_singleton.mp member ▸ makeable.destination) ran
  rw [targets] at gains
  exact ⟨⟨gains.regular, gains.made _ (List.mem_singleton.mpr rfl)⟩, shown.temporary, shown.clock⟩

/-- The compilation makes the destination of a module, and leaves that of an asset free. -/
theorem compile_makes_alone (writes : compiler.tools.WritesTargets layout) (options : CompilerOptions) :
    Ends (Session.Shows (IsFree layout path) temporary clock)
      (compile compiler options layout [SourceFile.ofPath layout path])
      (fun outputs => Session.Shows (fun tree =>
        outputs = (tallyOf layout path).compiled ∧ IsReady layout path tree) temporary clock)
      (fun _ => True) := by
  have absolute := Layout.destination_isAbsolute makeable.placed makeable.absolute makeable.plain.proper
  have proper := makeable.destination.proper
  cases dialect : Dialect.ofPath path with
  | plain =>
    have calls : Invocation.CallsFiles layout [path] := by
      constructor
      · exact makeable.placed.sourcesAbsolute
      · exact makeable.placed.sourcesPlain.proper
      · exact makeable.placed.outputAbsolute
      · exact makeable.placed.outputPlain.proper
      · simpa using makeable.absolute
      · simpa using makeable.plain.proper
      · simp [dialect, Dialect.isCompiled]
    have made : Ends (Session.Shows (IsFree layout path) temporary clock)
        (compiler.buildEntryPoints [path] options layout)
        (fun _ => Session.Shows (IsMade layout path) temporary clock) (fun _ => True) :=
      Ends.discard (run_makes makeable writes _ none layout.root
        (.files compiler.program options [path] calls)
        (Compiler.targets_filesCall calls compiler.program options))
    rw [compile_plain dialect]
    unfold compilePlain
    refine made.bind fun _ => .pure fun session shown => ⟨⟨?_, ?_⟩, shown.temporary, shown.clock⟩
    · simp [tallyOf, dialect, Dialect.isCompiled]
    · simpa [IsReady, dialect, Dialect.isCompiled] using shown.tree
  | templatedUi =>
    rw [compile_markup dialect]
    unfold compileMarkup Compiler.buildBuffer
    refine Ends.through (fun output session => output = layout.destination path ∧
      Session.Shows (IsMade layout path) temporary clock session) ?_ fun output => .pure ?_
    · refine ((Ends.readText _).mono (fun _ shown => shown) (fun _ _ told => told.2)
        fun _ _ => trivial).bind fun text => ?_
      refine Ends.through (fun _ => Session.Shows (IsMade layout path) temporary clock) ?_
        fun _ => .pure fun _ shown => ⟨rfl, shown⟩
      refine ((Ends.askFiles _).mono (fun _ shown => shown) (fun _ _ told => told.2)
        fun _ _ => trivial).bind fun present => Ends.discard ?_
      exact run_makes makeable writes _ _ _
        (.text compiler.program options path _ (Compiler.withPreamble text) _ absolute proper)
        (Compiler.targets_textCall compiler.program options path (Compiler.withPreamble text) _ absolute proper)
    · rintro session ⟨rfl, shown⟩
      refine ⟨⟨?_, ?_⟩, shown.temporary, shown.clock⟩
      · simp [tallyOf, dialect, Dialect.isCompiled]
      · simpa [IsReady, dialect, Dialect.isCompiled] using shown.tree
  | asset =>
    rw [compile_other (by simp [dialect, Dialect.isCompiled])]
    refine .pure fun session shown => ⟨⟨?_, ?_⟩, shown.temporary, shown.clock⟩
    · simp [tallyOf, dialect, Dialect.isCompiled]
    · simpa [IsReady, dialect, Dialect.isCompiled] using shown.tree
  | declaration => exact absurd dialect makeable.emitted

/-- What was compiled is still there once the copy of the configuration is gone. -/
theorem removeCopy_spares (plain : temporary.IsPlain) {last : Nat} :
    Ends (Session.Shows (IsReady layout path) temporary last)
      (Configuration.removeCopy (Configuration.copyPath temporary clock))
      (fun _ => Session.Shows (IsReady layout path) temporary last) (fun _ => True) := by
  refine .changeFiles (fun session tree shown changed => ?_) fun _ _ _ _ => trivial
  refine ⟨?_, shown.temporary, shown.clock⟩
  have before := shown.tree
  split at changed
  · cases changed
    exact before
  · unfold IsReady at before ⊢
    split at before
    · rename_i compiled
      have changes := before.regular.unlink (Configuration.copyPath_isPlain plain clock) changed
      rw [if_pos compiled]
      refine ⟨changes.regular, ?_⟩
      rw [changes.elsewhere ?_]
      · exact before.held
      · obtain ⟨stem, last⟩ := Layout.getLast?_destination makeable.placed makeable.absolute
          makeable.plain.proper compiled
        intro same
        rw [same, Configuration.copyPath_eq] at last
        simp only [List.getLast?_append, List.getLast?_singleton, Option.some_or, Option.some.injEq] at last
        exact append_compiledSuffix_ne (Configuration.toList_copyName clock) last.symm
    · rename_i copied
      have changes := before.regular.unlink (Configuration.copyPath_isPlain plain clock) changed
      rw [if_neg copied]
      exact ⟨changes.regular, fun directory => before.notDirectory (changes.directories _ directory)⟩

/-- An asset is copied to its destination, and a module stays there. -/
theorem copyAssets_makes_alone :
    Ends (Session.Shows (IsReady layout path) temporary clock)
      (Output.copyAssets (Sources.ofDialect .asset [SourceFile.ofPath layout path]) layout)
      (fun _ => Session.Shows (IsMade layout path) temporary clock) (fun _ => True) := by
  have plain := makeable.destination
  have plainParent : (layout.destination path).parent.IsPlain := fun part inside =>
    plain part (List.dropLast_subset _ inside)
  have opened : Ends (Session.Shows (IsFree layout path) temporary clock)
      (Action.alterFiles (·.makeDirectories (layout.destination path).parent))
      (fun _ => Session.Shows (IsFree layout path) temporary clock) (fun _ => True) := by
    refine .alterFiles (fun session shown _ => ?_) fun _ _ => trivial
    have free := shown.tree
    refine ⟨⟨(free.regular.makeDirectories plainParent).regular, fun directory => ?_⟩, shown.temporary,
      shown.clock⟩
    rcases free.regular.directory_of_makeDirectories plainParent directory with old | front
    · exact free.notDirectory old
    · have nonempty : (layout.destination path).parts ≠ [] := fun empty =>
        free.notDirectory (empty ▸ rfl)
      have positive := List.length_pos_iff.mpr nonempty
      have short : (layout.destination path).parts.length ≤ (layout.destination path).parts.dropLast.length :=
        front.length_le
      rw [List.length_dropLast] at short
      omega
  have copied : Ends (Session.Shows (IsFree layout path) temporary clock)
      (Action.changeFiles (·.copyFile path (layout.destination path)))
      (fun _ => Session.Shows (IsMade layout path) temporary clock) (fun _ => True) := by
    refine .changeFiles (fun session tree shown done => ?_) fun _ _ _ _ => trivial
    obtain ⟨content, -, -, -, changes⟩ := shown.tree.regular.copyFile makeable.plain plain
      shown.tree.notDirectory done
    exact ⟨⟨changes.regular, by rw [changes.here]; rfl⟩, shown.temporary, shown.clock⟩
  refine (copyAssets_alone (fun asset => ?_) fun other session shown => ?_).mono (fun _ shown => shown)
    (fun _ _ told => told.2) fun _ _ => trivial
  · have ready : ∀ session, Session.Shows (IsReady layout path) temporary clock session →
        Session.Shows (IsFree layout path) temporary clock session :=
      Session.Shows.mono fun tree known => by simpa [IsReady, asset, Dialect.isCompiled] using known
    unfold Output.copyAsset
    rw [SourceFile.path_ofPath]
    exact (opened.mono ready (fun _ _ shown => shown) fun _ _ => trivial).bind fun _ =>
      copied.bind fun _ => .pure fun _ shown => shown
  · have compiled : (Dialect.ofPath path).isCompiled := by
      have emitted := makeable.emitted
      cases dialect : Dialect.ofPath path <;> simp_all [Dialect.isCompiled]
    refine Session.Shows.mono (fun tree known => ?_) session shown
    simpa [IsReady, compiled] using known

/-- The destination is still there once the descriptor of the output has been patched. -/
theorem patchType_keeps_made (format : OutputFormat) :
    Ends (Session.Shows (IsMade layout path) temporary clock) (Output.patchType layout.output format)
      (fun _ => Session.Shows (IsMade layout path) temporary clock) (fun _ => True) := by
  refine Ends.of_forall fun state shown => ?_
  refine (@Output.patchType_patches layout.output state.tree.contentAt? temporary clock
    makeable.placed.outputPlain format).mono (fun session same => ?_)
    (fun _ => Session.Shows.mono fun after known => ?_) fun _ _ => trivial
  · subst same
    exact ⟨⟨shown.tree.regular, rfl⟩, shown.temporary, shown.clock⟩
  · obtain ⟨regular, content, patches, contents⟩ := known
    refine ⟨regular, ?_⟩
    rw [contents, Function.update_apply]
    split
    · exact patches.isSome
    · exact shown.tree.held

/-- A build of one path leads from a tree without links to one in which the destination of the path is
there. -/
def courseAlone (writes : compiler.tools.WritesTargets layout) (plain : temporary.IsPlain) {start : Tree}
    (names : Names start path) (regular : start.IsRegular)
    (given : request.input = .proper path.toString) (literal : request.isLiteral = false) :
    Course compiler request layout environment temporary clock (fun tree => tree = start)
      (IsMade layout path) (fun _ => True) where
  cleared tree := Finds layout path tree ∧ IsFree layout path tree
  found files tree := files = [SourceFile.ofPath layout path] ∧ IsFree layout path tree
  copied files copy tree := files = [SourceFile.ofPath layout path] ∧
    copy = Configuration.copyPath temporary clock ∧ IsFree layout path tree
  broken _ _ := True
  chosen _ _ := True
  compiled files copy outputs tree := files = [SourceFile.ofPath layout path] ∧
    copy = Configuration.copyPath temporary clock ∧
    outputs = (tallyOf layout path).compiled ∧ IsReady layout path tree
  emitted files outputs tree := files = [SourceFile.ofPath layout path] ∧
    outputs = (tallyOf layout path).compiled ∧ IsReady layout path tree
  complete files outputs tree := files = [SourceFile.ofPath layout path] ∧
    outputs = (tallyOf layout path).compiled ∧ IsMade layout path tree
  normalized := IsMade layout path
  clears := clear_frees makeable names regular given literal
  discovers := by
    refine (Ends.ask _).mono (fun _ shown => shown) (fun files state told => ?_) fun _ _ => trivial
    obtain ⟨answer, shown⟩ := told
    obtain ⟨-, -, answer⟩ := exists_of_bind_eq_ok answer
    rw [given] at answer
    exact ⟨⟨Except.ok.inj (answer.symm.trans shown.tree.1), shown.tree.2⟩, shown.temporary, shown.clock⟩
  copies files := Ends.knowing fun _ => copyConfiguration_frees plain
  chooses files copy := (CompilerOptions.ofRequest_keeps request layout (some copy)).mono
    (fun _ shown => shown) (fun _ _ shown => ⟨⟨trivial, shown.tree⟩, shown.temporary, shown.clock⟩)
    fun _ _ => trivial
  compiles files copy options _ := by
    refine Ends.knowing fun same => Ends.knowing fun _ => ?_
    subst same
    exact (compile_makes_alone makeable writes options).mono (fun _ shown => shown)
      (fun _ _ shown => shown) fun _ _ => trivial
  removes files copy outputs := by
    refine Ends.knowing fun _ => Ends.granting fun place => Ends.knowing fun _ => ?_
    rw [place]
    exact removeCopy_spares makeable plain
  cleans := cleans_any
  copiesAssets files outputs := by
    refine Ends.knowing fun same => Ends.knowing fun _ => ?_
    subst same
    exact copyAssets_makes_alone makeable
  normalizes _ files outputs := by
    refine Ends.granting fun _ => Ends.granting fun same => ?_
    have isPlain : ∀ output ∈ outputs, output.IsPlain := by
      intro output member
      rw [same, tallyOf] at member
      split at member
      · exact List.mem_singleton.mp member ▸ makeable.destination
      · cases member
    exact (normalizeFiles_keeps_made isPlain _).mono (fun _ shown => shown) (fun _ _ shown => shown)
      fun _ _ => trivial
  skips _ files outputs tree complete := complete.2.2
  patches := patchType_keeps_made makeable request.format

/-- A build of one path that ends has made the destination of the path, also if further tools are called
that spare it. -/
theorem buildFiles_makes (writes : compiler.tools.WritesTargets layout) (plain : temporary.IsPlain)
    {start : Tree} (names : Names start path) (regular : start.IsRegular)
    (given : request.input = .proper path.toString) (literal : request.isLiteral = false) {tools : Toolchain}
    (spares : request.runtimeOnly = false → tools.SparesFile layout (layout.destination path).parts) :
    Ends (Session.During environment (fun _ tree => tree = start) temporary clock)
      (buildFiles tools compiler request layout)
      (fun _ state => (state.session.tree.contentAt? (layout.destination path).parts).isSome)
      (fun _ => True) := by
  let held : BuildState → Prop := fun state =>
    (state.session.tree.contentAt? (layout.destination path).parts).isSome
  have required : Ends (Session.During environment (fun _ tree => tree = start) temporary clock)
      (requiredStages compiler request layout) (fun _ => held) (fun _ => True) :=
    (requiredStages_ends (courseAlone makeable writes plain names regular given literal)).mono
      (fun _ shown => shown) (fun _ _ shown => shown.1.tree.held) fun _ _ => trivial
  have optional (goesOn : request.runtimeOnly = false) :
      Ends held (optionalStages tools request layout) (fun _ => held) (fun _ => True) := by
    have endures : Endures tools layout fun session =>
        (session.tree.contentAt? (layout.destination path).parts).isSome :=
      ⟨fun _ _ made => made, fun session other made =>
        (contentAt?_makeDirectories session.tree other _).symm ▸ made,
        fun session invocation other made => spares goesOn invocation session.tree other.calls made⟩
    refine Ends.of_forall fun state made => ?_
    exact (optionalStages_keeps endures).mono
      (fun other same => (⟨same ▸ rfl, same ▸ made⟩ : Tells
        ⟨state.report.compiled, state.report.copied, state.report.declarations⟩ _ other))
      (fun _ _ told => told.session) fun _ _ => trivial
  have led := @buildFiles_leads tools compiler request layout _ held held (fun _ => True) required optional
    (fun _ _ made => made)
    (fun state journal shown => Session.During.silent state.session journal shown)
    fun _ _ _ made => made
  refine led.mono (fun _ shown => shown) ?_ fun _ left => left
  rintro outcome state ⟨report, -, made⟩
  exact made

end

/-- What a build of one path needs in order to leave a file at the destination: the project is placed as usual,
no link is around, the compiler writes what it is asked for, and tools that follow leave it there. -/
structure Remakes (tools : Toolchain) (layout : Layout) (request : Request) (path : Path) (start : Session) :
    Prop where
  placed : layout.IsPlaced
  regular : start.tree.IsRegular
  temporary : start.temporary.IsPlain
  writes : tools.WritesTargets layout
  spares : request.settled.runtimeOnly = false → tools.SparesFile layout (layout.destination path).parts

/-- A build of files does what its stages do, or is refused before the first of them. -/
theorem run_files (tools : Toolchain) (request : Request) (layout : Layout) (start : Session)
    (files : request.isLiteral = false) :
    (∃ fault, run tools request layout start = (.error fault, start)) ∨
    ∃ compiler : Compiler, compiler.tools = tools ∧ compiler.layout = layout ∧
      run tools request layout start =
        match buildFiles tools compiler request.settled layout
          { session := start, report := { mode := request.settled.mode.name } } with
        | (result, after) => (result, after.session) := by
  have literal : request.settled.isLiteral = false := files
  rcases run_cases tools request layout start with
    ⟨fault, refused, -⟩ | ⟨compiler, result, state, -, ⟨sameTools, sameLayout⟩, ended, ran⟩
  · exact .inl ⟨fault, refused⟩
  · rw [literal, if_neg Bool.false_ne_true] at ended
    exact .inr ⟨compiler, sameTools, sameLayout, by rw [ran, ended]⟩

/-- A path names itself. Whatever a tree holds, discovery finds for the path the source there and no other one,
and a build of the path hands this source to the compiler if it is a module, copies it if it is an asset, and
hands over nothing else; all other calls are of tools that follow. The report lists its destination alone,
and where no link is around, there is a file at the destination again. A build that fails has handed over
no other source either. -/
theorem run_builds_path_alone (tools : Toolchain) (request : Request) (layout : Layout) (start : Session)
    {path : Path} (names : Names start.tree path) :
    Sources.discover start.tree layout path.toString = .ok [SourceFile.ofPath layout path] ∧
    ∃ single, Request.forPath start.tree request path = .ok single ∧
      match run tools single layout start with
      | (.ok outcome, final) => ∃ program report, outcome = .report report ∧
          (⟨report.compiled, report.copied, report.declarations⟩ : Tally) = tallyOf layout path ∧
          HandedBefore program layout path start (timesOf path) final ∧
          (single.settled.runtimeOnly → Handed program layout path start (timesOf path) final) ∧
          (Dialect.ofPath path ≠ .declaration → Remakes tools layout single path start →
            (final.tree.contentAt? (layout.destination path).parts).isSome)
      | (.error _, final) => ∃ program times, HandedBefore program layout path start times final := by
  obtain ⟨content, executable, status⟩ := Tree.isFile_iff.mp names.isFile
  have narrowed : Request.forPath start.tree request path = .ok (request.forFile path) := by
    rw [Request.forPath, Sources.resolvePath_of_unlinked names.unlinked names.rooted names.plain status]
    rfl
  refine ⟨names.discover, request.forFile path, narrowed, ?_⟩
  rcases run_files tools (request.forFile path) layout start rfl with
    ⟨fault, refused⟩ | ⟨compiler, rfl, rfl, ran⟩
  · rw [refused]
    exact ⟨"", 0, [], [], ⟨by simp, rfl⟩, rfl, by simp, by simp⟩
  have given : (request.forFile path).settled.input = .proper path.toString := rfl
  have literal : (request.forFile path).settled.isLiteral = false := rfl
  let handover : Handover compiler (request.forFile path).settled compiler.layout path start
      (Hands compiler.program compiler.layout path) := handoverAlone compiler names given literal
  have hands := handover.buildFiles_tells compiler.tools (request.forFile path).settled.mode.name
  rw [ran]
  rcases built : buildFiles compiler.tools compiler (request.forFile path).settled compiler.layout
      { session := start, report := { mode := (request.forFile path).settled.mode.name } } with
    ⟨fault | outcome, state⟩
  · obtain ⟨times, -, handed⟩ := hands.refused rfl built
    exact ⟨compiler.program, times, handed⟩
  · obtain ⟨report, rfl, tells⟩ := hands.answered rfl built
    refine ⟨compiler.program, report, rfl, tells.tally, tells.session.1, tells.session.2,
      fun emitted remakes => ?_⟩
    have makeable : Makeable compiler.layout path := ⟨remakes.placed, names.rooted, names.plain, emitted⟩
    have makes : Ends (Session.During start.environment (fun _ tree => tree = start.tree) start.temporary
          start.clock)
        (buildFiles compiler.tools compiler (request.forFile path).settled compiler.layout)
        (fun _ state => (state.session.tree.contentAt? (compiler.layout.destination path).parts).isSome)
        (fun _ => True) :=
      buildFiles_makes makeable remakes.writes remakes.temporary names remakes.regular given literal
        remakes.spares
    have during : Session.During start.environment (fun _ tree => tree = start.tree) start.temporary start.clock
        { session := start, report := { mode := (request.forFile path).settled.mode.name } } :=
      ⟨⟨rfl, rfl, rfl⟩, rfl⟩
    exact makes.answered during built

/-! ### Two pages -/

/-- A project with two pages, both of which have been built before. The name of one of them has brackets. -/
def pagesSession : Session where
  tree := ⟨[(["p"], .directory), (["p", "src"], .directory),
    (["p", "src", "home.ts"], .file (Text.Utf8.encode "let home") false),
    (["p", "src", "blog"], .directory),
    (["p", "src", "blog", "[id].ts"], .file (Text.Utf8.encode "let id") false), (["p", "dist"], .directory),
    (["p", "dist", "home.js"], .file [98] false), (["p", "dist", "blog"], .directory),
    (["p", "dist", "blog", "[id].js"], .file [98] false), (["t"], .directory)]⟩
  environment := []
  directory := ⟨.root, ["p"]⟩
  temporary := ⟨.root, ["t"]⟩
  clock := 1

/-- The project with the two pages is a regular tree. -/
theorem pagesSession_isRegular : pagesSession.tree.IsRegular := isRegular_of_entries (by decide +kernel)

/-- The path of a page. -/
def pagePath (page : List String) : Path := ⟨.root, ["p", "src"] ++ page⟩

/-- A request that stops once the output can be run. -/
def pagesRequest : Request := { runtimeOnly := true }

/-- What the page with a plain name needs in order to be found. -/
theorem pagesSession_names : Names pagesSession.tree (pagePath ["home.ts"]) where
  rooted := rfl
  plain := by decide
  literal := by decide +kernel
  unlinked := pagesSession_isRegular.linkless.unlinked [] _
  isFile := ok_of_toOption (by decide +kernel)

/-- The page with a plain name is built alone: the compiler is called once, and the page is there again. -/
theorem run_builds_path_alone_of_home : ∃ single outcome final,
    Request.forPath pagesSession.tree pagesRequest (pagePath ["home.ts"]) = .ok single ∧
      run plainCompiler.toolchain single (.ofRoot ⟨.root, ["p"]⟩) pagesSession = (.ok outcome, final) ∧
      final.invocations.length = 1 ∧ (final.tree.contentAt? ["p", "dist", "home.js"]).isSome := by
  obtain ⟨-, single, narrowed, built⟩ := run_builds_path_alone plainCompiler.toolchain pagesRequest
    (.ofRoot ⟨.root, ["p"]⟩) pagesSession pagesSession_names
  have ends : ((Request.forPath pagesSession.tree pagesRequest (pagePath ["home.ts"])).toOption.map
      fun single => (run plainCompiler.toolchain single (.ofRoot ⟨.root, ["p"]⟩) pagesSession).1.isOk) =
      some true := by decide +kernel
  rw [narrowed] at ends
  simp only [Except.toOption, Option.map_some, Option.some.injEq] at ends
  have stops : single.settled.runtimeOnly := by
    rw [Request.forPath] at narrowed
    obtain ⟨resolved, -, same⟩ := exists_of_bind_eq_ok narrowed
    rw [← Except.ok.inj same]
    rfl
  rcases ran : run plainCompiler.toolchain single (.ofRoot ⟨.root, ["p"]⟩) pagesSession with
    ⟨fault | outcome, final⟩
  · rw [ran] at ends
    cases ends
  · rw [ran] at built
    obtain ⟨program, report, -, -, -, handed, made⟩ := built
    refine ⟨single, outcome, final, narrowed, ran, ?_, ?_⟩
    · obtain ⟨calls, since, length, -⟩ := handed stops
      rw [since.calls, show pagesSession.invocations = [] from rfl, List.nil_append, length]
      decide
    · have remade := made (by decide) {
        placed := (Layout.isPlaced_ofRoot rfl (by decide)).1
        regular := pagesSession_isRegular
        temporary := by decide
        writes := plainCompiler.toolchain_writesTargets _
        spares := fun goesOn => absurd stops (by simp [goesOn]) }
      exact remade

/-- The page whose name has brackets is a file, and no link leads to it; but nothing is found for its path,
nothing is handed over for it, and its output, which has been removed, is not made again. -/
theorem run_loses_path :
    Path.IsPlain (pagePath ["blog", "[id].ts"]) ∧ pagesSession.tree.IsRegular ∧
      pagesSession.tree.isFile (pagePath ["blog", "[id].ts"]) = .ok true ∧
      Sources.discover pagesSession.tree (.ofRoot ⟨.root, ["p"]⟩) (pagePath ["blog", "[id].ts"]).toString = .ok [] ∧
      pagesSession.tree.contentAt? ["p", "dist", "blog", "[id].js"] = some [98] ∧
      ∃ single outcome final,
        Request.forPath pagesSession.tree pagesRequest (pagePath ["blog", "[id].ts"]) = .ok single ∧
          run plainCompiler.toolchain single (.ofRoot ⟨.root, ["p"]⟩) pagesSession = (.ok outcome, final) ∧
          final.invocations.length = 0 ∧ final.tree.contentAt? ["p", "dist", "blog", "[id].js"] = none := by
  have isFile : pagesSession.tree.isFile (pagePath ["blog", "[id].ts"]) = .ok true :=
    ok_of_toOption (by decide +kernel)
  -- All of this is about one build of the page, which is evaluated once.
  obtain ⟨found, present, ends, lost⟩ :
      (Sources.discover pagesSession.tree (.ofRoot ⟨.root, ["p"]⟩)
        (pagePath ["blog", "[id].ts"]).toString).toOption = some [] ∧
      pagesSession.tree.contentAt? ["p", "dist", "blog", "[id].js"] = some [98] ∧
      (run plainCompiler.toolchain (pagesRequest.forFile (pagePath ["blog", "[id].ts"]))
        (.ofRoot ⟨.root, ["p"]⟩) pagesSession).1.isOk ∧
      (run plainCompiler.toolchain (pagesRequest.forFile (pagePath ["blog", "[id].ts"]))
        (.ofRoot ⟨.root, ["p"]⟩) pagesSession).2.invocations.length = 0 ∧
      (run plainCompiler.toolchain (pagesRequest.forFile (pagePath ["blog", "[id].ts"]))
        (.ofRoot ⟨.root, ["p"]⟩) pagesSession).2.tree.contentAt? ["p", "dist", "blog", "[id].js"] = none := by
    decide +kernel
  have narrowed : Request.forPath pagesSession.tree pagesRequest (pagePath ["blog", "[id].ts"]) =
      .ok (pagesRequest.forFile (pagePath ["blog", "[id].ts"])) := by
    obtain ⟨content, executable, status⟩ := Tree.isFile_iff.mp isFile
    rw [Request.forPath, Sources.resolvePath_of_unlinked (pagesSession_isRegular.linkless.unlinked [] _) rfl
      (by decide) status]
    rfl
  refine ⟨by decide, pagesSession_isRegular, isFile, ok_of_toOption found, present,
    pagesRequest.forFile (pagePath ["blog", "[id].ts"]), ?_⟩
  rcases ran : run plainCompiler.toolchain (pagesRequest.forFile (pagePath ["blog", "[id].ts"]))
      (.ofRoot ⟨.root, ["p"]⟩) pagesSession with ⟨fault | outcome, final⟩
  · rw [ran] at ends
    cases ends
  · rw [ran] at lost
    exact ⟨outcome, final, narrowed, rfl, lost⟩

end Build

end TreeBuild
