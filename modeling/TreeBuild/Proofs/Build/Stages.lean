import TreeBuild.Build.Pipeline
import TreeBuild.Proofs.Build.CommandLine
import TreeBuild.Proofs.Project.Destinations
import TreeBuild.Proofs.Project.Discovery
import TreeBuild.Proofs.Request.Targets
import TreeBuild.Proofs.Session.Ends

/-!
# What the parts of a build do to the tree

The parts of a build read where they like and write to few places: the destinations of sources, the
descriptor of the output, and the outputs that a compiler is told of. Where these places belong to a
ground, each part keeps what is known of the trees of that ground, whatever it answers and however it
fails. What a compiler does to the tree is up to the compiler; a ground hosts it if its calls are
edits of the zone as long as their outputs are accepted.
-/
namespace TreeBuild

open TreeBuild.Tree

/-- A session whose tree is like this, and that names its next temporary file like this. -/
structure Session.Shows (holds : Tree → Prop) (temporary : Path) (clock : Nat) (session : Session) :
    Prop where
  tree : holds session.tree
  temporary : session.temporary = temporary
  clock : session.clock = clock

/-- What a session shows of its tree does not depend on the log. -/
theorem Session.Shows.silent {holds : Tree → Prop} {temporary : Path} {clock : Nat} :
    Silent (Session.Shows holds temporary clock) :=
  fun _ _ shown => ⟨shown.tree, shown.temporary, shown.clock⟩

/-- What is known of a tree is known of the session that it belongs to. -/
theorem Session.Shows.mono {first second : Tree → Prop} (less : ∀ tree, first tree → second tree)
    {temporary : Path} {clock : Nat} :
    ∀ session, Session.Shows first temporary clock session →
      Session.Shows second temporary clock session :=
  fun session shown => ⟨less session.tree shown.tree, shown.temporary, shown.clock⟩

/-- What does not depend on the tree is known of every tree that follows. -/
theorem Ends.knowing {Answer : Type} {fact : Prop} {first : Tree → Prop}
    {second : Answer → Tree → Prop} {failed : Session → Prop} {temporary : Path} {clock later : Nat}
    {action : Action Answer}
    (ends : fact → Ends (Session.Shows first temporary clock) action
      (fun answer => Session.Shows (second answer) temporary later) failed) :
    Ends (Session.Shows (fun tree => fact ∧ first tree) temporary clock) action
      (fun answer => Session.Shows (fun tree => fact ∧ second answer tree) temporary later) failed := by
  refine Ends.mono (Ends.of_and fun known => (ends known).mono (fun _ shown => shown)
    (fun answer session shown => ?_) fun _ left => left) (fun session shown => ?_)
    (fun _ _ shown => shown) fun _ left => left
  · exact ⟨⟨known, shown.tree⟩, shown.temporary, shown.clock⟩
  · exact ⟨shown.tree.1, shown.tree.2, shown.temporary, shown.clock⟩

/-- What does not depend on the tree may be used up. -/
theorem Ends.granting {Answer : Type} {fact : Prop} {first : Tree → Prop}
    {after : Answer → Session → Prop} {failed : Session → Prop} {temporary : Path} {clock : Nat}
    {action : Action Answer}
    (ends : fact → Ends (Session.Shows first temporary clock) action after failed) :
    Ends (Session.Shows (fun tree => fact ∧ first tree) temporary clock) action after failed :=
  ⟨fun session shown => (ends shown.tree.1).outcome session
    ⟨shown.tree.2, shown.temporary, shown.clock⟩⟩

/-- What is known of a tree in every case is known whatever the case is. -/
theorem Ends.choosing {Answer Case : Type} {first : Case → Tree → Prop}
    {second : Case → Answer → Tree → Prop} {failed : Session → Prop} {temporary : Path}
    {clock later : Nat} {action : Action Answer}
    (ends : ∀ given, Ends (Session.Shows (first given) temporary clock) action
      (fun answer => Session.Shows (second given answer) temporary later) failed) :
    Ends (Session.Shows (fun tree => ∃ given, first given tree) temporary clock) action
      (fun answer => Session.Shows (fun tree => ∃ given, second given answer tree) temporary later)
      failed := by
  refine Ends.mono (Ends.of_exists fun given => (ends given).mono (fun _ shown => shown)
    (fun answer session shown => ?_) fun _ left => left) (fun session shown => ?_)
    (fun _ _ shown => shown) fun _ left => left
  · exact ⟨⟨given, shown.tree⟩, shown.temporary, shown.clock⟩
  · obtain ⟨given, known⟩ := shown.tree
    exact ⟨given, known, shown.temporary, shown.clock⟩

/-- A session whose tree belongs to a ground. -/
abbrev Tree.Ground.Held (ground : Ground) : Path → Nat → Session → Prop :=
  Session.Shows ground.holds

/-- Calls whose outputs are all accepted edit the zone. -/
def Tree.Ground.Hosts (ground : Ground) (tools : Toolchain) (accepted : Path → Prop) : Prop :=
  ∀ invocation : Invocation, (∀ output ∈ invocation.outputs, accepted output) →
    ∀ tree, ground.holds tree → ground.zone.Edit tree (tools.run invocation tree).2

/-! ### Questions -/

section

variable {property : Session → Prop}

/-- Reading the descriptor keeps everything. -/
theorem Descriptor.read_keeps (layout : Layout) : Keeps property (Descriptor.read layout) := by
  unfold Descriptor.read
  refine (Keeps.attempt (Keeps.readText _)).bind fun result => ?_
  split
  · exact .pure
  · exact .throw
  · split
    · exact .pure
    · exact .pure
    · exact .throw

/-- Asking for one field of the descriptor keeps everything. -/
theorem Descriptor.given?_keeps (layout : Layout) (name : String) :
    Keeps property (Descriptor.given? layout name) := by
  unfold Descriptor.given?
  refine (Descriptor.read_keeps layout).bind fun value => ?_
  split
  · exact .throw
  · exact .pure

/-- Finding the options for a request keeps everything. -/
theorem CompilerOptions.ofRequest_keeps (request : Request) (layout : Layout)
    (tsconfig : Option Path) : Keeps property (CompilerOptions.ofRequest request layout tsconfig) :=
  (Descriptor.read_keeps layout).bind fun _ => .ask _

/-- Finding a tool keeps everything. -/
theorem Tools.find_keeps (root : Option Path) (name : String) :
    Keeps property (Tools.find root name) := by
  unfold Tools.find
  refine Keeps.get.bind fun session => ?_
  split
  · exact .pure
  · exact .throw

/-- Reading a configuration keeps everything. -/
theorem Configuration.read_keeps (path : Path) : Keeps property (Configuration.read path) := by
  unfold Configuration.read
  refine (Keeps.attempt (Keeps.readText _)).bind fun result => ?_
  split
  · exact .pure
  · exact .throw
  · split
    · exact .pure
    · exact .throw

/-- Finding the absolute path for a relative one keeps everything. -/
theorem Configuration.anchored_keeps (base : Path) (relative : Text.Units) :
    Keeps property (Configuration.anchored base relative) := by
  unfold Configuration.anchored
  refine (Keeps.ask _).bind fun path => ?_
  exact .pure

/-- So does replacing it where it has to be replaced. -/
theorem Configuration.replacement?_keeps (base : Path) (isRelative : String → Bool)
    (value : Option Json) : Keeps property (Configuration.replacement? base isRelative value) := by
  unfold Configuration.replacement?
  split
  · split
    · refine (Configuration.anchored_keeps _ _).bind fun path => ?_
      exact .pure
    · exact .pure
  · exact .pure

/-- Deriving the options of a configuration keeps everything. -/
theorem Configuration.deriveOptions_keeps (base : Path) (options : Json.Dictionary) :
    Keeps property (Configuration.deriveOptions base options) := by
  unfold Configuration.deriveOptions
  refine (Configuration.replacement?_keeps _ _ _).bind fun path => ?_
  exact .pure

/-- Deriving the fields of a configuration keeps everything. -/
theorem Configuration.deriveFields_keeps (base : Path) (fields : Json.Fields) :
    Keeps property (Configuration.deriveFields base fields) := by
  unfold Configuration.deriveFields
  refine (Configuration.replacement?_keeps _ _ _).bind fun path => ?_
  dsimp only
  split
  · exact .throw
  · refine (Configuration.deriveOptions_keeps _ _).bind fun derived => ?_
    exact .pure

/-- Deriving a configuration keeps everything: it is written only afterwards. -/
theorem Configuration.derive_keeps (path : Path) : Keeps property (Configuration.derive path) := by
  unfold Configuration.derive
  refine (Configuration.read_keeps path).bind fun value => ?_
  split
  · refine (Configuration.deriveFields_keeps _ _).bind fun derived => ?_
    exact .pure
  · exact .throw

/-- Where the copy of a configuration goes. -/
def Configuration.copyPath (temporary : Path) (clock : Nat) : Path :=
  temporary / s!"tsconfig.{clock}.json"

/-- The letters of the name of a copy. -/
theorem Configuration.toList_copyName (clock : Nat) : s!"tsconfig.{clock}.json".toList =
    't' :: 's' :: ("config.".toList ++ Nat.toDigits 10 clock) ++ ".json".toList := by
  have spelled : s!"tsconfig.{clock}.json" = "tsconfig." ++ Nat.repr clock ++ ".json" := rfl
  rw [spelled, String.toList_append, String.toList_append, Nat.toList_repr]
  rfl

/-- What a copy of a configuration is called is a name. -/
theorem Configuration.isName_copyName (clock : Nat) : Path.IsName s!"tsconfig.{clock}.json" := by
  have letters := toList_copyName clock
  have other (text : String) (second : text.toList[1]? ≠ some 's') :
      s!"tsconfig.{clock}.json" ≠ text := by
    rintro rfl
    rw [letters] at second
    exact second rfl
  have noSlash : '/' ∉ s!"tsconfig.{clock}.json".toList := by
    have digits : '/' ∉ Nat.toDigits 10 clock := fun member =>
      absurd (Nat.isDigit_of_mem_toDigits (by decide) (by decide) member) (by decide)
    rw [letters]
    simp [digits]
  exact ⟨⟨other "" (by decide), other "." (by decide), noSlash⟩, other ".." (by decide)⟩

/-- A copy of a configuration has a name of its own in the directory of temporary files. -/
theorem Configuration.copyPath_eq (temporary : Path) (clock : Nat) :
    copyPath temporary clock = ⟨temporary.anchor, temporary.parts ++ [s!"tsconfig.{clock}.json"]⟩ :=
  Path.div_of_isPart temporary (isName_copyName clock).toIsPart

/-- The path of a copy has no special parts. -/
theorem Configuration.copyPath_isPlain {temporary : Path} (plain : temporary.IsPlain) (clock : Nat) :
    (Configuration.copyPath temporary clock).IsPlain := by
  rw [copyPath_eq]
  intro part member
  rcases List.mem_append.mp member with above | last
  · exact plain part above
  · exact List.mem_singleton.mp last ▸ isName_copyName clock

/-- A copy of a configuration is written where the clock says, once the configuration is derived. -/
theorem Configuration.makeCopy_ends {temporary : Path} {clock : Nat} {first second : Tree → Prop}
    {failed : Session → Prop}
    (fails : ∀ session, Session.Shows first temporary (clock + 1) session → failed session)
    (path : Path)
    (written : ∀ value taken, Session.Shows first temporary (clock + 1) taken →
      (Configuration.derive path taken).1 = .ok value →
      Ends (Session.Shows first temporary (clock + 1))
        (Action.writeText (Configuration.copyPath temporary clock) value.pretty)
        (fun _ => Session.Shows second temporary (clock + 1)) failed) :
    Ends (Session.Shows first temporary clock) (Configuration.makeCopy path)
      (fun copy session => copy = Configuration.copyPath temporary clock ∧
        Session.Shows second temporary (clock + 1) session) failed := by
  unfold Configuration.makeCopy
  refine Ends.get.bind fun session => Ends.of_forall fun state ⟨same, shown⟩ => ?_
  subst same
  dsimp only
  rw [shown.temporary, shown.clock]
  refine Ends.through (fun _ => Session.Shows first temporary (clock + 1)) (.set _ fun _ _ => ?_)
    fun _ => ?_
  · exact ⟨shown.tree, rfl, rfl⟩
  have derived := (Configuration.derive_keeps path).recalls.mono (fun _ shown => shown)
    (fun _ _ told => told) fails
  refine derived.bind fun value => Ends.of_and fun ⟨taken, shown, told⟩ => ?_
  refine (written value taken shown told).bind fun _ => ?_
  exact .pure fun _ shown => ⟨rfl, shown⟩

end

/-! ### Changes -/

section

variable {ground : Ground} {temporary : Path} {clock : Nat}

/-- A session is held after every edit of its tree. -/
theorem Session.Shows.edit {session : Session} (held : ground.Held temporary clock session)
    {tree : Tree} (edit : ground.zone.Edit session.tree tree) :
    ground.Held temporary clock { session with tree } :=
  ⟨ground.kept held.tree edit, held.temporary, held.clock⟩

/-- Writing a file that a ground owns keeps the session held. -/
theorem writeText_keeps {path : Path} (owns : ground.Owns path) (text : String) :
    Keeps (ground.Held temporary clock) (Action.writeText path text) :=
  .changeFiles (fun _ _ held written => held.edit (Ground.write_edit held.tree owns written))
    fun _ _ held _ => held

/-- Making directories on the way to a ground keeps the session held. -/
theorem makeDirectories_keeps {path : Path} (opens : ground.Opens path) :
    Keeps (ground.Held temporary clock) (Action.alterFiles (·.makeDirectories path)) :=
  .alterFiles (fun _ held _ => held.edit (Ground.makeDirectories_edit held.tree opens))
    fun _ held => held.edit (Ground.makeDirectories_edit held.tree opens)

/-- Removing a file that a ground owns keeps the session held. -/
theorem invalidate_keeps {path : Path} (owns : ground.Owns path) :
    Keeps (ground.Held temporary clock) (Output.invalidate path) := by
  unfold Output.invalidate
  refine Ends.get.bind fun session => ?_
  split
  · rename_i tree unlinked
    refine (Ends.modify (ground.Held temporary clock) ?_).bind fun _ => ?_
    · rintro _ ⟨rfl, held⟩
      exact held.edit (Ground.unlink_edit held.tree owns unlinked)
    · exact .pure fun _ held => held
  · exact .pure fun _ held => held.2
  · exact .throw fun _ held => held.2

/-- The descriptor of the output is written where the output tree is. -/
theorem patchType_keeps {output : Path} (owns : ground.Owns (output / "package.json"))
    (opens : ground.Opens output) (format : OutputFormat) :
    Keeps (ground.Held temporary clock) (Output.patchType output format) := by
  unfold Output.patchType
  refine Keeps.bind ?_ fun descriptor => ?_
  · unfold Output.readDescriptor
    refine (Keeps.attempt (Keeps.readText _)).bind fun result => ?_
    split
    · exact .pure
    · exact .throw
    · split
      · exact .pure
      · exact .throw
  · dsimp only
    split
    · exact .pure
    · refine (makeDirectories_keeps opens).bind fun _ => ?_
      refine (writeText_keeps owns _).bind fun _ => ?_
      exact .pure

/-! ### Sources and their destinations -/

/-- A source whose destination is accepted. -/
structure Layout.Serves (layout : Layout) (accepted : Path → Prop) (path : Path) : Prop where
  absolute : path.isAbsolute
  proper : path.IsProper
  accepted : accepted (layout.destination path)

/-- A source whose destination belongs to a ground. -/
structure Tree.Ground.Serves (ground : Ground) (accepted : Path → Prop) (layout : Layout)
    (path : Path) : Prop extends layout.Serves accepted path where
  owns : ground.Owns (layout.destination path)
  opens : ground.Opens (layout.destination path)
  receives : ground.Receives (layout.destination path) path.name

variable {accepted : Path → Prop} {layout : Layout} {tools : Toolchain}

/-- Copying an asset to a destination in a ground keeps the session held. -/
theorem copyAsset_ends {file : SourceFile} (serves : ground.Serves accepted layout file.path) :
    Ends (ground.Held temporary clock) (Output.copyAsset layout file)
      (fun path session => path = layout.destination file.path ∧ ground.Held temporary clock session)
      (ground.Held temporary clock) := by
  have copied : Keeps (ground.Held temporary clock)
      (Action.changeFiles (·.copyFile file.path (layout.destination file.path))) := by
    refine .changeFiles (fun session tree held copied => ?_) fun _ _ held _ => held
    exact held.edit (Ground.copyFile_edit held.tree serves.owns serves.receives copied)
  have made : Keeps (ground.Held temporary clock)
      (Action.alterFiles (·.makeDirectories (layout.destination file.path).parent)) :=
    makeDirectories_keeps serves.opens.parent
  unfold Output.copyAsset
  dsimp only
  refine Ends.bind made fun _ => ?_
  refine Ends.bind copied fun _ => ?_
  exact .pure fun _ held => ⟨rfl, held⟩

/-- Copying all assets keeps the session held if the destination of each is in the ground. -/
theorem copyAssets_keeps {files : List SourceFile}
    (serves : ∀ file ∈ files, ground.Serves accepted layout file.path) :
    Keeps (ground.Held temporary clock) (Output.copyAssets files layout) := by
  unfold Output.copyAssets
  refine (Keeps.attempt (Keeps.all fun action member => ?_)).bind fun result => ?_
  · obtain ⟨file, found, rfl⟩ := List.mem_map.mp member
    exact (copyAsset_ends (serves file found)).mono (fun _ held => held) (fun _ _ told => told.2)
      fun _ held => held
  · split
    · exact .pure
    · exact .throw
    · exact .throw

end

/-! ### The compiler -/

section

variable {before failed : Session → Prop} {later : String → Session → Prop}

/-- The session after a call: the tool has changed the tree, and the call is noted. -/
def Session.called (session : Session) (invocation : Invocation) (tree : Tree) : Session :=
  { session with tree, invocations := session.invocations ++ [(invocation, session.tree)] }

/-- A call of the compiler answers if the tool ends with status zero. -/
theorem Compiler.run_ends (compiler : Compiler) (arguments : List String) (input : Option String)
    (directory : Path) (silent : ∀ output, Silent (later output))
    (succeeded : ∀ session output errors tree, before session →
      compiler.tools.run ⟨compiler.program :: arguments, directory, input⟩ session.tree =
        (.finished 0 output errors, tree) →
      later output (session.called ⟨compiler.program :: arguments, directory, input⟩ tree))
    (ended : ∀ session outcome tree, before session →
      compiler.tools.run ⟨compiler.program :: arguments, directory, input⟩ session.tree =
        (outcome, tree) →
      failed (session.called ⟨compiler.program :: arguments, directory, input⟩ tree)) :
    Ends before (compiler.run arguments input directory) later failed := by
  have called : Ends before
      (Action.call compiler.tools ⟨compiler.program :: arguments, directory, input⟩)
      (fun outcome session => failed session ∧
        ∀ output errors, outcome = .finished 0 output errors → later output session) failed := by
    refine .call fun session start => ⟨ended session _ _ start rfl, fun output errors success => ?_⟩
    exact succeeded session output errors _ start (by rw [← success])
  unfold Compiler.run
  refine called.bind fun outcome => ?_
  split
  · exact .throw fun _ told => told.1
  · exact .throw fun _ told => told.1
  · rename_i status output errors
    dsimp only
    split
    · exact .throw_bind fun _ told => told.1
    · rename_i success
      have finished : status = 0 := by simpa using success
      subst finished
      split
      · refine Ends.bind (.modify (later output) fun session told => ?_) fun _ => ?_
        · exact silent output session _ (told.2 output errors rfl)
        · exact .pure fun _ holds => holds
      · exact .pure fun _ told => told.2 output errors rfl

/-- The compiler that a build uses is that of its toolchain and its layout. -/
theorem Compiler.ofLayout_ends (tools : Toolchain) (layout : Layout) :
    Ends before (Compiler.ofLayout tools layout none)
      (fun compiler session => (compiler.tools = tools ∧ compiler.layout = layout) ∧ before session)
      before := by
  have found : Keeps before (Tools.find (some layout.root) "esbuild") := Tools.find_keeps _ _
  unfold Compiler.ofLayout
  refine Ends.bind found fun program => ?_
  exact .pure fun _ holds => ⟨⟨rfl, rfl⟩, holds⟩

end

section

variable {accepted : Path → Prop} {layout : Layout} {compiler : Compiler} {options : CompilerOptions}
  {property : Session → Prop}

/-- A property of the session that calls of a compiler keep, as long as their outputs are accepted and they
name no configuration but that of the options. -/
structure Compiler.Minds (compiler : Compiler) (options : CompilerOptions) (accepted : Path → Prop)
    (property : Session → Prop) : Prop where
  silent : Silent property
  call : ∀ (arguments : List String) (directory : Path) (input : Option String) (session : Session),
    let invocation : Invocation := ⟨compiler.program :: arguments, directory, input⟩
    (∀ output ∈ invocation.outputs, accepted output) → invocation.NamesOnly options.tsconfig →
      property session →
        property (session.called invocation (compiler.tools.run invocation session.tree).2)

/-- Calls whose outputs are accepted keep the session held. -/
theorem Tree.Ground.Hosts.minds {ground : Ground} {temporary : Path} {clock : Nat}
    (hosts : ground.Hosts compiler.tools accepted) :
    compiler.Minds options accepted (ground.Held temporary clock) where
  silent := Session.Shows.silent
  call _ _ _ session outputs _ held :=
    ⟨ground.kept held.tree (hosts _ outputs session.tree held.tree), held.temporary, held.clock⟩

variable (minds : compiler.Minds options accepted property)

include minds

/-- A call of the compiler keeps what calls with accepted outputs keep. -/
theorem Compiler.run_keeps {arguments : List String} {input : Option String} {directory : Path}
    (outputs : ∀ output ∈ Invocation.outputs ⟨compiler.program :: arguments, directory, input⟩,
      accepted output)
    (names : Invocation.NamesOnly options.tsconfig ⟨compiler.program :: arguments, directory, input⟩) :
    Keeps property (compiler.run arguments input directory) := by
  have kept (session : Session) (outcome : ToolOutcome) (tree : Tree) (holds : property session)
      (ran : compiler.tools.run ⟨compiler.program :: arguments, directory, input⟩ session.tree =
        (outcome, tree)) :
      property (session.called ⟨compiler.program :: arguments, directory, input⟩ tree) := by
    have called := minds.call arguments directory input session outputs names holds
    rwa [ran] at called
  exact Compiler.run_ends compiler arguments input directory (fun _ => minds.silent)
    (fun session output errors tree => kept session (.finished 0 output errors) tree) kept

/-- A text whose compiled form is returned leads to no output. -/
theorem Compiler.transform_keeps (source label : String) :
    Keeps property (compiler.transform source label options) := by
  refine Compiler.run_keeps minds (fun output member => ?_)
    (Invocation.namesOnly_transform _ _ _ _ _)
  rw [Invocation.outputs_transform] at member
  cases member

/-- A call that compiles a text to an accepted output keeps what calls with accepted outputs keep. -/
theorem Compiler.buildBuffer_keeps {outFile : Path} (absolute : outFile.isAbsolute)
    (proper : outFile.IsProper) (isAccepted : accepted outFile) (source : String) (sourceFile : Path) :
    Keeps property (compiler.buildBuffer source sourceFile outFile options) := by
  unfold Compiler.buildBuffer
  refine Keeps.bind (Keeps.askFiles _) fun present => ?_
  refine Keeps.discard (Compiler.run_keeps minds (fun output member => ?_)
    (Invocation.namesOnly_buffer _ _ _ _ _ _))
  rw [Invocation.outputs_buffer, Path.ofString_toString absolute proper, List.mem_singleton] at member
  subst member
  simpa [Path.join, absolute] using isAccepted

/-- The destinations of files that are compiled by one call, and the output tree itself, have to be
accepted. -/
theorem Compiler.buildEntryPoints_keeps (placed : layout.IsPlaced)
    (acceptsOutput : accepted layout.output) {paths : List Path}
    (serves : ∀ path ∈ paths, layout.Serves accepted path)
    (compiled : ∀ path ∈ paths, (Dialect.ofPath path).isCompiled) :
    Keeps property (compiler.buildEntryPoints paths options layout) := by
  have calls : Invocation.CallsFiles layout paths :=
    { sourcesAbsolute := placed.sourcesAbsolute
      sourcesProper := placed.sourcesPlain.proper
      outputAbsolute := placed.outputAbsolute
      outputProper := placed.outputPlain.proper
      absolute := fun path found => (serves path found).absolute
      proper := fun path found => (serves path found).proper
      compiled }
  unfold Compiler.buildEntryPoints
  split
  · exact .pure
  · refine Keeps.discard (Compiler.run_keeps minds (fun output member => ?_)
      (Invocation.namesOnly_entryPoints _ _ _ calls.absolute _ _))
    rw [Invocation.outputs_entryPoints compiler.program options none calls] at member
    rcases List.mem_cons.mp member with rfl | member
    · exact acceptsOutput
    · obtain ⟨path, found, rfl⟩ := List.mem_map.mp member
      exact (serves path found).accepted

/-! ### The stages of a build -/

/-- The compiled form of a file with markup goes to its destination. -/
theorem Build.compileMarkup_ends (placed : layout.IsPlaced) {file : SourceFile}
    (serves : layout.Serves accepted file.path) :
    Ends property (Build.compileMarkup compiler options layout file)
      (fun output session => output = layout.destination file.path ∧ property session) property := by
  have absolute := Layout.destination_isAbsolute placed serves.absolute serves.proper
  have proper := Layout.destination_isProper placed serves.absolute serves.proper
  unfold Build.compileMarkup
  refine Ends.bind (Keeps.readText _) fun source => ?_
  refine Ends.bind (Compiler.buildBuffer_keeps minds absolute proper serves.accepted _ _) fun _ => ?_
  exact .pure fun _ holds => ⟨rfl, holds⟩

/-- The compilation of the plain sources keeps it, too, and its outputs are destinations of theirs. -/
theorem Build.compilePlain_ends (placed : layout.IsPlaced) (acceptsOutput : accepted layout.output)
    {files : List SourceFile} (serves : ∀ file ∈ files, layout.Serves accepted file.path)
    (compiled : ∀ file ∈ files, (Dialect.ofPath file.path).isCompiled) :
    Ends property (Build.compilePlain compiler options layout files)
      (fun outputs session => (∀ output ∈ outputs, ∃ file ∈ files,
        output = layout.destination file.path) ∧ property session) property := by
  have called : Keeps property
      (compiler.buildEntryPoints (files.map SourceFile.path) options layout) := by
    refine Compiler.buildEntryPoints_keeps minds placed acceptsOutput (fun path member => ?_)
      (fun path member => ?_)
    · obtain ⟨file, found, rfl⟩ := List.mem_map.mp member
      exact serves file found
    · obtain ⟨file, found, rfl⟩ := List.mem_map.mp member
      exact compiled file found
  unfold Build.compilePlain
  refine Ends.bind called fun _ => ?_
  refine .pure fun _ holds => ⟨fun output member => ?_, holds⟩
  obtain ⟨file, found, rfl⟩ := List.mem_map.mp member
  exact ⟨file, found, rfl⟩

omit minds in
/-- The outputs of a successful compilation are those of one kind of files or of the other. -/
theorem Build.mem_of_verdict {markup : List (Except Fault Path)} {plain : Except Fault (List Path)}
    {outputs : List Path} (told : Build.verdict markup plain = .ok outputs) :
    ∀ output ∈ outputs, .ok output ∈ markup ∨ ∃ others, plain = .ok others ∧ output ∈ others := by
  intro output member
  obtain ⟨first, firstTold, told⟩ := exists_of_bind_eq_ok told
  obtain ⟨second, secondTold, told⟩ := exists_of_bind_eq_ok told
  cases told
  rcases List.mem_append.mp member with inMarkup | inPlain
  · exact .inl (Action.mem_of_allOrFirst firstTold output inMarkup)
  · exact .inr ⟨second, secondTold, inPlain⟩

/-- The modules that a compilation lists are destinations of its files. -/
theorem Build.compile_ends (placed : layout.IsPlaced) (acceptsOutput : accepted layout.output)
    {files : List SourceFile} (dialects : ∀ file ∈ files, file.dialect = Dialect.ofPath file.path)
    (serves : ∀ file ∈ files, file.dialect ≠ .declaration → layout.Serves accepted file.path) :
    Ends property (Build.compile compiler options layout files)
      (fun outputs session => (∀ output ∈ outputs, ∃ file ∈ files,
        file.dialect ≠ .declaration ∧ output = layout.destination file.path) ∧ property session)
      property := by
  have ofPlain : ∀ file ∈ Sources.ofDialect .plain files, file ∈ files ∧ file.dialect = .plain := by
    intro file member
    simpa [Sources.ofDialect] using member
  have ofMarkup : ∀ file ∈ Sources.ofDialect .templatedUi files,
      file ∈ files ∧ file.dialect = .templatedUi := by
    intro file member
    simpa [Sources.ofDialect] using member
  have plain := @Ends.settle _ property
    [Build.compilePlain compiler options layout (Sources.ofDialect .plain files)]
    (fun outputs => ∀ output ∈ outputs, ∃ file ∈ files,
      file.dialect ≠ .declaration ∧ output = layout.destination file.path) (by
      intro action member
      rw [List.mem_singleton.mp member]
      refine (Build.compilePlain_ends minds placed acceptsOutput (fun file found => ?_)
        (fun file found => ?_)).mono (fun _ holds => holds)
        (fun outputs session told => ⟨fun output listed => ?_, told.2⟩) fun _ holds => holds
      · have of := ofPlain file found
        exact serves file of.1 (by simp [of.2])
      · have of := ofPlain file found
        simp [← dialects file of.1, of.2, Dialect.isCompiled]
      · obtain ⟨file, found, same⟩ := told.1 output listed
        have of := ofPlain file found
        exact ⟨file, of.1, by simp [of.2], same⟩)
  have markup := @Ends.settle _ property
    ((Sources.ofDialect .templatedUi files).map (Build.compileMarkup compiler options layout))
    (fun output => ∃ file ∈ files,
      file.dialect ≠ .declaration ∧ output = layout.destination file.path) (by
      intro action member
      obtain ⟨file, found, rfl⟩ := List.mem_map.mp member
      have of := ofMarkup file found
      refine (Build.compileMarkup_ends minds placed (serves file of.1 (by simp [of.2]))).mono
        (fun _ holds => holds) (fun output session told => ?_) fun _ holds => holds
      exact ⟨⟨file, of.1, by simp [of.2], told.1⟩, told.2⟩)
  unfold Build.compile
  refine plain.bind fun plainResults => ?_
  refine Ends.of_forall fun state ⟨plainGood, holds⟩ => ?_
  refine (markup.mono ?_ (fun _ _ told => told) fun _ holds => holds).bind fun markupResults => ?_
  · rintro _ rfl
    exact holds
  · split
    · rename_i outputs told
      refine .pure fun session ⟨markupGood, holds⟩ => ⟨fun output member => ?_, holds⟩
      rcases Build.mem_of_verdict told output member with inMarkup | ⟨others, given, inPlain⟩
      · exact markupGood output inMarkup
      · cases all : Action.allOrFirst plainResults with
        | error fault => simp [all, Except.map] at given
        | ok lists =>
          simp only [all, Except.map, Except.ok.injEq] at given
          subst given
          obtain ⟨list, listed, within⟩ := List.mem_flatten.mp inPlain
          exact plainGood list (Action.mem_of_allOrFirst all list listed) output within
    · exact .throw fun _ told => told.2

omit minds

/-- Rewriting the specifiers of a file writes to that file at most. -/
theorem Specifier.normalizeFile_keeps (silent : Silent property) {path : Path}
    (writes : ∀ text, Keeps property (Action.writeText path text)) (source : Option SourceFile) :
    Keeps property (Specifier.normalizeFile path source) := by
  unfold Specifier.normalizeFile
  refine (Keeps.readText _).bind fun text => (Keeps.ask _).bind fun normalized => ?_
  have warned {next : Action Specifier.FileResult} (kept : Keeps property next) :
      Keeps property (do
        for unresolved in normalized.unresolved do
          Action.record Specifier.logSource .warning unresolved.message
        next) :=
    Keeps.bind (Keeps.forIn fun unresolved _ => Keeps.record silent _ _ _) fun _ => kept
  dsimp only
  split
  · exact (writes _).bind fun _ => warned .pure
  · exact warned .pure

/-- What is selected is among the items it is selected from. -/
theorem mem_of_filterM {Item Failure : Type} {test : Item → Except Failure Bool}
    {items selected : List Item} (told : items.filterM test = .ok selected) :
    ∀ item ∈ selected, item ∈ items := by
  have loop : ∀ (rest before after : List Item), rest.filterAuxM test before = .ok after →
      ∀ item ∈ after, item ∈ rest ∨ item ∈ before := by
    intro rest
    induction rest with
    | nil =>
      intro before after same item member
      cases same
      exact .inr member
    | cons first others inductionHypothesis =>
      intro before after same item member
      obtain ⟨answer, -, next⟩ := exists_of_bind_eq_ok same
      rcases inductionHypothesis _ after next item member with later | earlier
      · exact .inl (List.mem_cons_of_mem _ later)
      · cases answer with
        | false => exact .inr earlier
        | true =>
          rcases List.mem_cons.mp earlier with rfl | old
          · exact .inl List.mem_cons_self
          · exact .inr old
  obtain ⟨backward, found, reversed⟩ := exists_of_bind_eq_ok told
  cases reversed
  intro item member
  exact (loop items [] backward found item (List.mem_reverse.mp member)).resolve_right (by simp)

/-- Rewriting the specifiers of files writes to some of these files. -/
theorem Specifier.normalizeFiles_keeps (silent : Silent property)
    {paths : List Path} (writes : ∀ path ∈ paths, ∀ text, Keeps property (Action.writeText path text))
    (source : Path → Option SourceFile) : Keeps property (Specifier.normalizeFiles paths source) := by
  unfold Specifier.normalizeFiles
  have listed : Ends property (Action.askFiles fun tree => paths.filterM fun path => tree.isFile path)
      (fun existing session => (∀ path ∈ existing, path ∈ paths) ∧ property session) property := by
    refine (Ends.askFiles _).mono (fun _ holds => holds) (fun existing session told => ?_)
      fun _ told => told.2
    exact ⟨mem_of_filterM told.1, told.2⟩
  refine Ends.bind listed fun existing => Ends.of_and fun within => Keeps.all fun action member => ?_
  obtain ⟨path, found, rfl⟩ := List.mem_map.mp member
  exact Specifier.normalizeFile_keeps silent (writes path (within path found)) _

end

end TreeBuild
