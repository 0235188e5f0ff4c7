import TreeBuild.Build.Pipeline
import TreeBuild.Proofs.Build.Stages

/-!
# What surrounds a build

A build changes the tree, reads the clock, calls tools and writes to the log. It leaves alone what it runs
in: the environment, the directory and the place of temporary files. So what is known of these at the
start is known at every moment of the build, also where it fails.
-/
namespace TreeBuild

/-- A property of a session that depends on its surroundings only. -/
def Lasting (property : Session → Prop) : Prop :=
  ∀ session tree clock journal invocations, property session →
    property { session with tree, clock, journal, invocations }

/-- A property of a session that depends on its surroundings and on the calls of tools that were made. -/
def Quiet (property : Session → Prop) : Prop :=
  ∀ session tree clock journal, property session → property { session with tree, clock, journal }

/-- What lasts through everything depends on the surroundings alone, so it is quiet. -/
theorem Lasting.quiet {property : Session → Prop} (lasting : Lasting property) : Quiet property :=
  fun session tree clock journal holds => lasting session tree clock journal session.invocations holds

/-- An environment lasts. -/
theorem lasting_environment (environment : Environment) :
    Lasting fun session => session.environment = environment :=
  fun _ _ _ _ _ same => same

section

variable {State Answer : Type} {before failed property : State → Prop}
  {action : ExceptT Fault (StateM State) Answer} {after : Answer → State → Prop}

/-- What is known of an action in two ways is known of it together. -/
theorem Concludes.and {begun : State → Prop} {failed refused : Fault → State → Prop}
    {final : Answer → State → Prop} (first : Concludes before action after failed)
    (second : Concludes begun action final refused) :
    Concludes (fun state => before state ∧ begun state) action
      (fun answer state => after answer state ∧ final answer state)
      (fun fault state => failed fault state ∧ refused fault state) := by
  refine ⟨fun state holds => ?_⟩
  have known := first.outcome state holds.1
  have also := second.outcome state holds.2
  rcases finished : action state with ⟨fault | answer, last⟩
  · rw [finished] at known also
    exact ⟨known, also⟩
  · rw [finished] at known also
    exact ⟨known, also⟩

/-- What is known of an action in two ways is known of it together. -/
theorem Ends.and {begun refused : State → Prop} {final : Answer → State → Prop}
    (first : Ends before action after failed) (second : Ends begun action final refused) :
    Ends (fun state => before state ∧ begun state) action
      (fun answer state => after answer state ∧ final answer state)
      (fun state => failed state ∧ refused state) :=
  Concludes.and first second

/-- What an action keeps is known besides what it leads to. -/
theorem Ends.and_keeps (ends : Ends before action after failed) (kept : Keeps property action) :
    Ends (fun state => before state ∧ property state) action
      (fun answer state => after answer state ∧ property state) failed :=
  (ends.and kept).mono (fun _ holds => holds) (fun _ _ holds => holds) fun _ holds => holds.1

end

namespace Quiet

variable {property : Session → Prop} (quiet : Quiet property)

include quiet

/-- What is quiet does not depend on the log. -/
theorem silent : Silent property :=
  fun session journal holds => quiet session session.tree session.clock journal holds

/-- Changing the tree keeps what is quiet. -/
theorem changeFiles (change : Tree → Except FileFault Tree) :
    Keeps property (Action.changeFiles change) :=
  Ends.changeFiles (fun session tree holds _ => quiet session tree _ _ holds)
    fun _ _ holds _ => holds

/-- So does changing it with traces of what was refused. -/
theorem alterFiles (change : Tree → Except FileFault Unit × Tree) :
    Keeps property (Action.alterFiles change) :=
  Ends.alterFiles (fun session holds _ => quiet session _ _ _ holds)
    fun session holds => quiet session _ _ _ holds

/-! ### The output -/

/-- Removing the output of a source keeps what is quiet. -/
theorem invalidate (destination : Path) : Keeps property (Output.invalidate destination) := by
  unfold Output.invalidate
  refine Keeps.get.bind fun session => ?_
  split
  · refine Keeps.bind (Ends.modify property fun other holds => ?_) fun _ => .pure
    exact quiet other _ _ _ holds
  · exact .pure
  · exact .throw

/-- Removing the output tree keeps what is quiet. -/
theorem outputClear (output : Path) : Keeps property (Output.clear output) := by
  unfold Output.clear
  refine (Keeps.askFiles _).bind fun present => ?_
  split
  · exact quiet.alterFiles _
  · exact .pure

/-- Patching the descriptor of the output keeps what is quiet. -/
theorem patchType (output : Path) (format : OutputFormat) :
    Keeps property (Output.patchType output format) := by
  unfold Output.patchType
  have read : Keeps property (Output.readDescriptor (output / "package.json")) := by
    unfold Output.readDescriptor
    refine (Keeps.attempt (Keeps.readText _)).bind fun result => ?_
    split
    · exact .pure
    · exact .throw
    · split
      · exact .pure
      · exact .throw
  refine read.bind fun descriptor => ?_
  dsimp only
  split
  · exact .pure
  · exact (quiet.alterFiles _).bind fun _ => (quiet.changeFiles _).bind fun _ => .pure

/-- Copying the assets keeps what is quiet. -/
theorem copyAssets (files : List SourceFile) (layout : Layout) :
    Keeps property (Output.copyAssets files layout) := by
  unfold Output.copyAssets
  refine (Keeps.attempt (Keeps.all fun action member => ?_)).bind fun result => ?_
  · obtain ⟨file, -, rfl⟩ := List.mem_map.mp member
    exact (quiet.alterFiles _).bind fun _ => (quiet.changeFiles _).bind fun _ => .pure
  · split
    · exact .pure
    · exact .throw
    · exact .throw

/-! ### The configuration and the sources -/

/-- Making the copy of a configuration keeps what is quiet. -/
theorem makeCopy (path : Path) : Keeps property (Configuration.makeCopy path) := by
  unfold Configuration.makeCopy
  refine Ends.get.bind fun session => ?_
  refine Ends.through (fun _ => property) (Ends.set property fun state told => ?_) fun _ => ?_
  · obtain ⟨rfl, holds⟩ := told
    exact quiet session _ _ _ holds
  · exact (Configuration.derive_keeps _).bind fun derived =>
      Keeps.bind (quiet.changeFiles _) fun _ => .pure

/-- Removing the copy keeps what is quiet. -/
theorem removeCopy (copy : Path) : Keeps property (Configuration.removeCopy copy) :=
  quiet.changeFiles _

/-- Clearing keeps what is quiet. -/
theorem buildClear (request : Request) (layout : Layout) :
    Keeps property (Build.clear request layout) := by
  unfold Build.clear
  refine (Keeps.ask _).bind fun single => ?_
  split
  · refine (Keeps.ask _).bind fun path => ?_
    split
    · exact (quiet.invalidate _).discard
    · exact .pure
  · split
    · exact quiet.outputClear _
    · exact .pure

/-- Copying the configuration of a request keeps what is quiet. -/
theorem copyConfiguration (request : Request) (layout : Layout) :
    Keeps property (Build.copyConfiguration request layout) :=
  (Keeps.ask _).bind fun _ => quiet.makeCopy _

/-- Rewriting the specifiers of the outputs keeps what is quiet. -/
theorem normalizeFiles (paths : List Path) (source : Path → Option SourceFile) :
    Keeps property (Specifier.normalizeFiles paths source) :=
  Specifier.normalizeFiles_keeps quiet.silent (fun _ _ _ => quiet.changeFiles _) source

end Quiet

namespace Lasting

variable {property : Session → Prop} (lasting : Lasting property)

include lasting

/-- A call of the compiler keeps what lasts. -/
theorem compilerRun (compiler : Compiler) (arguments : List String) (input : Option String)
    (directory : Path) : Keeps property (compiler.run arguments input directory) :=
  Compiler.run_ends compiler arguments input directory (fun _ => lasting.quiet.silent)
    (fun session _ _ tree holds _ => lasting session tree _ _ _ holds)
    fun session _ tree holds _ => lasting session tree _ _ _ holds

/-- So does a call that compiles a text to a file. -/
theorem buildBuffer (compiler : Compiler) (source : String) (sourceFile outFile : Path)
    (options : CompilerOptions) :
    Keeps property (compiler.buildBuffer source sourceFile outFile options) := by
  unfold Compiler.buildBuffer
  exact (Keeps.askFiles _).bind fun present => (lasting.compilerRun _ _ _ _).discard

/-- So does a whole compilation. -/
theorem compile (compiler : Compiler) (options : CompilerOptions) (layout : Layout)
    (files : List SourceFile) : Keeps property (Build.compile compiler options layout files) := by
  have settled : ∀ {Answer : Type} {actions : List (Action Answer)},
      (∀ action ∈ actions, Keeps property action) → Keeps property (Action.settle actions) := by
    intro Answer actions each
    refine (Ends.settle (fun _ => True) fun action member => ?_).mono (fun _ holds => holds)
      (fun _ _ told => told.2) fun _ holds => holds
    exact Ends.mono (each action member) (fun _ holds => holds) (fun _ _ holds => ⟨trivial, holds⟩)
      fun _ holds => holds
  unfold Build.compile
  refine Keeps.bind (settled fun action member => ?_) fun plain =>
    Keeps.bind (settled fun action member => ?_) fun markup => ?_
  · rw [List.mem_singleton.mp member]
    unfold Build.compilePlain Compiler.buildEntryPoints
    split
    · exact Keeps.bind .pure fun _ => .pure
    · exact Keeps.bind (lasting.compilerRun _ _ _ _).discard fun _ => .pure
  · obtain ⟨file, -, rfl⟩ := List.mem_map.mp member
    unfold Build.compileMarkup
    exact (Keeps.readText _).bind fun source =>
      Keeps.bind (lasting.buildBuffer _ _ _ _ _) fun _ => .pure
  · split
    · exact .pure
    · exact .throw

end Lasting

end TreeBuild
