import TreeBuild.Proofs.Session.Surroundings

/-!
# The course of a build

The stages of a build follow each other, and each is given the tree that the one before has left. What
a build as a whole does to the tree therefore follows from what holds between the stages: a course says
that, and for each stage that it leads from what holds before it to what holds behind it. A failure ends
the build, but for the copy of the compiler configuration, which is removed in any case.

A text that is compiled has a course of its own, with fewer stages.
-/
namespace TreeBuild

open TreeBuild.Tree

/-- A session that leaves behind a tree like this. -/
def Session.Leaves (holds : Tree → Prop) (session : Session) : Prop := holds session.tree

/-- What a failed build leaves does not depend on the log. -/
theorem Session.Leaves.silent {holds : Tree → Prop} : Silent (Session.Leaves holds) :=
  fun _ _ left => left

/-- A build that goes on in an environment, in a session whose tree is like this. -/
def Session.During (environment : Environment) (holds : List Path → Tree → Prop) (temporary : Path)
    (clock : Nat) : BuildState → Prop :=
  Amid fun modules session =>
    Session.Shows (holds modules) temporary clock session ∧ session.environment = environment

/-- What holds during a build does not depend on the log. -/
theorem Session.During.silent {environment : Environment} {holds : Tree → Prop} {temporary : Path}
    {clock : Nat} : Silent fun session =>
      Session.Shows holds temporary clock session ∧ session.environment = environment :=
  fun session journal shown => ⟨Session.Shows.silent session journal shown.1, shown.2⟩

/-- A build that has come to an end and leaves behind a tree like this. -/
def Session.Ended (holds : Tree → Prop) : BuildState → Prop :=
  Amid fun _ => Session.Leaves holds

namespace Build

/-- Whatever becomes of the copy of the configuration, nothing is expected of the tree. -/
theorem cleans_any (copy : Path) :
    Ends (Session.Leaves fun _ => True) (Configuration.removeCopy copy)
      (fun _ => Session.Leaves fun _ => True) (Session.Leaves fun _ => True) :=
  (Ends.any _).mono (fun _ shown => shown) (fun _ _ _ => trivial) fun _ _ => trivial

/-- What holds between the stages of a build of files. -/
structure Course (compiler : Compiler) (request : Request) (layout : Layout)
    (environment : Environment) (temporary : Path) (clock : Nat)
    (start final failed : Tree → Prop) where
  cleared : Tree → Prop
  found : List SourceFile → Tree → Prop
  copied : List SourceFile → Path → Tree → Prop
  /-- What holds when a build has failed while there is a copy of the configuration. -/
  broken : Path → Tree → Prop
  /-- Which options the compiler is called with. -/
  chosen : Path → CompilerOptions → Prop
  compiled : List SourceFile → Path → List Path → Tree → Prop
  emitted : List SourceFile → List Path → Tree → Prop
  complete : List SourceFile → List Path → Tree → Prop
  normalized : Tree → Prop
  clears : Ends (Session.Shows start temporary clock) (clear request layout)
    (fun _ => Session.Shows cleared temporary clock) (Session.Leaves failed)
  discovers : Ends (Session.Shows cleared temporary clock) (discoverInput request layout)
    (fun files => Session.Shows (found files) temporary clock) (Session.Leaves failed)
  copies : ∀ files, Ends (Session.Shows (found files) temporary clock)
    (copyConfiguration request layout)
    (fun copy => Session.Shows (copied files copy) temporary (clock + 1)) (Session.Leaves failed)
  chooses : ∀ files copy, Ends (Session.Shows (copied files copy) temporary (clock + 1))
    (CompilerOptions.ofRequest request layout (some copy))
    (fun options => Session.Shows (fun tree => chosen copy options ∧ copied files copy tree)
      temporary (clock + 1)) (Session.Leaves (broken copy))
  compiles : ∀ files copy options, chosen copy options →
    Ends (Session.Shows (copied files copy) temporary (clock + 1))
    (compile compiler options layout files)
    (fun outputs => Session.Shows (compiled files copy outputs) temporary (clock + 1))
    (Session.Leaves (broken copy))
  removes : ∀ files copy outputs,
    Ends (Session.Shows (compiled files copy outputs) temporary (clock + 1))
      (Configuration.removeCopy copy)
      (fun _ => Session.Shows (emitted files outputs) temporary (clock + 1)) (Session.Leaves failed)
  cleans : ∀ copy, Ends (Session.Leaves (broken copy)) (Configuration.removeCopy copy)
    (fun _ => Session.Leaves failed) (Session.Leaves failed)
  copiesAssets : ∀ files outputs,
    Ends (Session.Shows (emitted files outputs) temporary (clock + 1))
      (Output.copyAssets (Sources.ofDialect .asset files) layout)
      (fun _ => Session.Shows (complete files outputs) temporary (clock + 1)) (Session.Leaves failed)
  normalizes : Tools.rewritesDisabled environment = false → ∀ files outputs,
    Ends (Session.Shows (complete files outputs) temporary (clock + 1))
      (Specifier.normalizeFiles outputs (sourceOf layout files))
      (fun _ => Session.Shows normalized temporary (clock + 1)) (Session.Leaves failed)
  /-- The rewriting of specifiers is left out where the environment says so. -/
  skips : Tools.rewritesDisabled environment → ∀ files outputs tree, complete files outputs tree → normalized tree
  patches : Ends (Session.Shows normalized temporary (clock + 1))
    (Output.patchType layout.output request.format)
    (fun _ => Session.Shows final temporary (clock + 1)) (Session.Leaves failed)

variable {compiler : Compiler} {request : Request} {layout : Layout} {environment : Environment}
  {temporary : Path} {clock : Nat} {start final failed : Tree → Prop}

variable {Answer : Type} {stage : Stage} {before : List Path → Tree → Prop} {first last : Nat}

/-- A stage that has to succeed answers if its body does. -/
theorem stage_ends (required : stage.isRequired) {after : Answer → List Path → Tree → Prop}
    {body : Pass Answer}
    (ends : Ends (Session.During environment before temporary first) body
      (fun answer => Session.During environment (after answer) temporary last) (Session.Ended failed))
    (context : List (String × Json)) (texts : StageTexts) :
    Ends (Session.During environment before temporary first) (Pass.stage context stage texts body)
      (fun answer state => ∃ given, answer = some given ∧
        Session.During environment (after given) temporary last state)
      (Session.Ended failed) :=
  Ends.stage required (fun _ => Session.During.silent) (fun _ _ => Session.During.silent)
    (fun _ => Session.Leaves.silent) ends context texts

/-- A stage whose answer is left aside. -/
theorem stage_discarded (required : stage.isRequired) {after : List Path → Tree → Prop}
    {body : Pass Answer}
    (ends : Ends (Session.During environment before temporary first) body
      (fun _ => Session.During environment after temporary last) (Session.Ended failed))
    (context : List (String × Json)) (texts : StageTexts) :
    Ends (Session.During environment before temporary first) (discard (Pass.stage context stage texts body))
      (fun _ => Session.During environment after temporary last) (Session.Ended failed) := by
  refine Ends.discard ((stage_ends required ends context texts).mono (fun _ shown => shown) ?_
    fun _ left => left)
  rintro answer state ⟨given, -, shown⟩
  exact shown

/-- An action does in a build what it does by itself. -/
theorem action_ends {action : Action Answer} {after : Answer → List Path → Tree → Prop}
    (ends : ∀ modules, Ends (Session.Shows (before modules) temporary first) action
      (fun answer => Session.Shows (after answer modules) temporary last) (Session.Leaves failed))
    (kept : ∀ property, Lasting property → Keeps property action) :
    Ends (Session.During environment before temporary first) (Pass.ofAction action)
      (fun answer => Session.During environment (after answer) temporary last)
      (Session.Ended failed) :=
  Ends.ofAction fun modules =>
    Ends.and_keeps (ends modules) (kept _ (lasting_environment environment))

/-- What does not depend on the tree may be taken for granted within a build. -/
theorem known_ends {fact : Prop} {body : Pass Answer} {after : Answer → BuildState → Prop}
    {lost : BuildState → Prop}
    (ends : fact → Ends (Session.During environment before temporary first) body after lost) :
    Ends (Session.During environment (fun modules tree => fact ∧ before modules tree) temporary first)
      body after lost := by
  refine ⟨fun state shown => (ends shown.1.tree.1).outcome state ?_⟩
  exact ⟨⟨shown.1.tree.2, shown.1.temporary, shown.1.clock⟩, shown.2⟩

/-- A change of the report leaves the session as it is. -/
theorem update_ends {change : Report → Report} {after : List Path → Tree → Prop}
    (noted : ∀ report tree, before report.compiled tree → after (change report).compiled tree) :
    Ends (Session.During environment before temporary first) (Pass.update change)
      (fun _ => Session.During environment after temporary first) (Session.Ended failed) :=
  .modify _ fun state shown =>
    ⟨⟨noted state.report _ shown.1.tree, shown.1.temporary, shown.1.clock⟩, shown.2⟩

/-- The modules whose specifiers are rewritten are those that the report lists. -/
theorem Course.normalizing_ends
    (course : Course compiler request layout environment temporary clock start final failed)
    (rewrites : Tools.rewritesDisabled environment = false) (files : List SourceFile) :
    Ends (Session.During environment (course.complete files) temporary (clock + 1))
      (do
        let compiled := (← get).report.compiled
        let results ← Pass.ofAction (Specifier.normalizeFiles compiled (sourceOf layout files))
        Pass.update (addResults results))
      (fun _ => Session.During environment (fun _ => course.normalized) temporary (clock + 1))
      (Session.Ended failed) := by
  refine Ends.bind Ends.get fun state => ?_
  dsimp only
  refine Ends.through (fun _ => Session.During environment (fun _ => course.normalized) temporary (clock + 1))
    ⟨fun other ⟨same, shown⟩ => ?_⟩ fun results => update_ends fun _ _ shown => shown
  subst same
  exact (action_ends (fun _ => course.normalizes rewrites files state.report.compiled)
    fun _ lasting => lasting.quiet.normalizeFiles _ _).outcome state shown

/-- That the descriptor of the output has been written is noted in the report and in the log. -/
theorem Course.patching_ends
    (course : Course compiler request layout environment temporary clock start final failed) :
    Ends (Session.During environment (fun _ => course.normalized) temporary (clock + 1))
      (do
        let patched ← Pass.ofAction (Output.patchType layout.output request.format)
        Pass.update fun report => { report with patchedMetadata := patched }
        if patched then
          Pass.log (contextOf request) .info
            s!"Forced \"type\" package.json field in dist ({request.format.packageType})." [])
      (fun _ => Session.During environment (fun _ => final) temporary (clock + 1)) (Session.Ended failed) := by
  refine (action_ends (fun _ => course.patches) fun _ lasting => lasting.quiet.patchType _ _).bind
    fun patched => ?_
  refine Ends.through (fun _ => Session.During environment (fun _ => final) temporary (clock + 1))
    (update_ends fun _ _ shown => shown) fun _ => ?_
  split
  · exact .modify _ fun state shown => Session.During.silent state.session _ shown
  · exact .pure fun _ shown => shown

/-- The stages that every build of files has lead from one end of a course to the other. -/
theorem requiredStages_ends (course : Course compiler request layout environment temporary clock start final failed) :
    Ends (Session.During environment (fun _ => start) temporary clock) (requiredStages compiler request layout)
      (fun _ => Session.During environment (fun _ => final) temporary (clock + 1)) (Session.Ended failed) := by
  unfold requiredStages
  dsimp only
  refine Ends.bind (stage_discarded rfl (action_ends (fun _ => course.clears)
    fun _ lasting => lasting.quiet.buildClear request layout) _ _) fun _ => ?_
  refine Ends.through (fun files state => ∃ given, files = some given ∧
    Session.During environment (fun _ => course.found given) temporary clock state) ?_ fun answer => ?_
  · refine stage_ends rfl ?_ _ _
    refine (action_ends (fun _ => course.discovers) fun _ _ => .ask _).bind fun files => ?_
    refine Ends.through (fun _ => Session.During environment (fun _ => course.found files) temporary clock)
      (update_ends fun _ _ shown => shown) fun _ => ?_
    exact .pure fun _ shown => shown
  refine Ends.of_exists fun files => Ends.of_and fun same => ?_
  subst same
  refine (action_ends (fun _ => course.copies files)
    fun _ lasting => lasting.quiet.copyConfiguration _ _).bind fun copy => ?_
  refine Ends.through (fun _ => Session.During environment (course.emitted files) temporary (clock + 1))
    ?_ fun _ => ?_
  · refine Ends.closingPass ?_ (fun _ outputs => Ends.and_keeps (course.removes files copy outputs)
      ((lasting_environment environment).quiet.removeCopy copy)) fun _ => course.cleans copy
    refine (action_ends (fun _ => course.chooses files copy)
      fun _ _ => CompilerOptions.ofRequest_keeps _ _ _).bind fun options => ?_
    refine known_ends fun chosen => ?_
    refine stage_discarded rfl ?_ _ _
    refine (action_ends (fun _ => course.compiles files copy options chosen)
      fun _ lasting => lasting.compile _ _ _ _).bind fun outputs => ?_
    exact update_ends fun _ _ shown => shown
  refine Ends.through (fun _ => Session.During environment (course.complete files) temporary (clock + 1))
    ?_ fun _ => ?_
  · refine stage_discarded rfl ?_ _ _
    refine (action_ends (fun outputs => course.copiesAssets files outputs)
      fun _ lasting => lasting.quiet.copyAssets _ _).bind fun copied => ?_
    exact update_ends fun _ _ shown => shown
  refine Ends.through (fun state other => state.session.environment = environment ∧
      Session.During environment (course.complete files) temporary (clock + 1) other)
    (Ends.get.mono (fun _ shown => shown) (fun _ _ told => ⟨told.1 ▸ told.2.2, told.2⟩)
      fun _ left => left) fun state => ?_
  refine Ends.of_and fun same => ?_
  rw [same]
  split
  · rename_i rewrites
    exact (stage_discarded rfl (course.normalizing_ends (by simpa using rewrites) files) _ _).bind
      fun _ => stage_discarded rfl course.patching_ends _ _
  · rename_i disabled
    refine (stage_discarded rfl course.patching_ends _ _).mono (fun _ shown => ?_)
      (fun _ _ shown => shown) fun _ left => left
    have skipped := course.skips (by simpa using disabled) files _ _ shown.1.tree
    exact ⟨⟨skipped, shown.1.temporary, shown.1.clock⟩, shown.2⟩

/-- A build of files that stops once the output can be run leads from one end of a course to the other. -/
theorem buildFiles_ends (tools : Toolchain)
    (course : Course compiler request layout environment temporary clock start final failed)
    (stops : request.runtimeOnly) :
    Ends (Session.During environment (fun _ => start) temporary clock) (buildFiles tools compiler request layout)
      (fun _ => Session.During environment (fun _ => final) temporary (clock + 1)) (Session.Ended failed) := by
  unfold buildFiles
  dsimp only
  refine Ends.through (fun _ => Session.During environment (fun _ => start) temporary clock)
    (.modify _ fun state shown => Session.During.silent state.session _ shown) fun _ => ?_
  refine (requiredStages_ends course).bind fun _ => ?_
  rw [if_pos stops]
  refine Ends.through (fun _ => Session.During environment (fun _ => final) temporary (clock + 1))
    (update_ends fun _ _ shown => shown) fun _ => ?_
  refine Ends.get.bind fun state => ?_
  exact .pure fun _ shown => shown.2

/-- What holds between the parts of a build of a given text. -/
structure TextCourse (compiler : Compiler) (request : Request) (layout : Layout) (temporary : Path)
    (clock : Nat) (start final failed : Tree → Prop) where
  copied : Path → Tree → Prop
  /-- What holds when a build has failed while there is a copy of the configuration. -/
  broken : Path → Tree → Prop
  compiled : Path → Tree → Prop
  fails : ∀ tree, start tree → failed tree
  transforms : ∀ source label options, Ends (Session.Shows start temporary clock)
    (compiler.transform source label options) (fun _ => Session.Shows final temporary clock)
    (Session.Leaves failed)
  copies : Ends (Session.Shows start temporary clock) (copyConfiguration request layout)
    (fun copy => Session.Shows (copied copy) temporary (clock + 1)) (Session.Leaves failed)
  breaks : ∀ copy tree, copied copy tree → broken copy tree
  compiles : ∀ place, request.noWrite = false →
    (request.stdinFile.getD (.proper "")).path = .ok place →
    ∀ copy source options, Ends (Session.Shows (copied copy) temporary (clock + 1))
      (compiler.buildBuffer source (layout.resolve place)
        (layout.destination (layout.resolve place)) options)
      (fun _ => Session.Shows (compiled copy) temporary (clock + 1)) (Session.Leaves (broken copy))
  removes : ∀ copy, Ends (Session.Shows (compiled copy) temporary (clock + 1))
    (Configuration.removeCopy copy) (fun _ => Session.Shows final temporary (clock + 1))
    (Session.Leaves failed)
  cleans : ∀ copy, Ends (Session.Leaves (broken copy)) (Configuration.removeCopy copy)
    (fun _ => Session.Leaves failed) (Session.Leaves failed)

/-- A build of a text leads from one end of a course to the other. -/
theorem buildLiteral_ends
    (course : TextCourse compiler request layout temporary clock start final failed) :
    Ends (Session.During environment (fun _ => start) temporary clock)
      (buildLiteral compiler request layout)
      (fun _ state => ∃ last, Session.During environment (fun _ => final) temporary last state)
      (Session.Ended failed) := by
  unfold buildLiteral
  dsimp only
  split
  · have optioned : Ends (Session.Shows start temporary clock)
        (CompilerOptions.ofRequest request layout none)
        (fun _ => Session.Shows start temporary clock) (Session.Leaves failed) :=
      (CompilerOptions.ofRequest_keeps request layout none).mono (fun _ shown => shown)
        (fun _ _ shown => shown) fun session shown => course.fails session.tree shown.tree
    refine (action_ends (fun _ => optioned) fun _ _ => CompilerOptions.ofRequest_keeps _ _ _).bind
      fun options => ?_
    refine Ends.bind (stage_ends rfl (action_ends (fun _ => course.transforms _ _ options)
      fun _ lasting => lasting.compilerRun _ _ _ _) _ _) fun compiled => ?_
    refine .pure fun state shown => ?_
    obtain ⟨given, -, shown⟩ := shown
    exact ⟨clock, shown⟩
  · rename_i writes
    have placed : Ends (Session.Shows start temporary clock)
        (Action.ask fun _ => (request.stdinFile.getD (.proper "")).path)
        (fun place session => (request.stdinFile.getD (.proper "")).path = .ok place ∧
          Session.Shows start temporary clock session) (Session.Leaves failed) :=
      (Ends.ask _).mono (fun _ shown => shown) (fun _ _ told => told) fun session told =>
        course.fails session.tree told.2.tree
    refine Ends.through
      (fun place state => (request.stdinFile.getD (.proper "")).path = .ok place ∧
        Session.During environment (fun _ => start) temporary clock state)
      ((Ends.ofAction fun _ => Ends.and_keeps placed (.ask _)).mono (fun _ shown => shown)
        (fun _ _ told => ⟨told.1.1, told.1.2, told.2⟩) fun _ left => left)
      fun place => Ends.of_and fun given => ?_
    refine Ends.bind (action_ends (fun _ => course.copies)
      fun _ lasting => lasting.quiet.copyConfiguration _ _) fun copy => ?_
    refine Ends.through (fun _ => Session.During environment (fun _ => final) temporary (clock + 1))
      (Ends.closingPass ?_ (fun _ _ => Ends.and_keeps (course.removes copy)
        ((lasting_environment environment).quiet.removeCopy copy)) fun _ => course.cleans copy) fun _ => ?_
    · have optioned : Ends (Session.Shows (course.copied copy) temporary (clock + 1))
          (CompilerOptions.ofRequest request layout (some copy))
          (fun _ => Session.Shows (course.copied copy) temporary (clock + 1))
          (Session.Leaves (course.broken copy)) :=
        (CompilerOptions.ofRequest_keeps request layout (some copy)).mono (fun _ shown => shown)
          (fun _ _ shown => shown) fun session shown => course.breaks copy session.tree shown.tree
      refine (action_ends (fun _ => optioned) fun _ _ => CompilerOptions.ofRequest_keeps _ _ _).bind
        fun options => ?_
      exact stage_discarded rfl (action_ends (fun _ =>
        course.compiles place (by simpa using writes) given copy _ options)
        fun _ lasting => lasting.buildBuffer _ _ _ _ _) _ _
    · refine Ends.through (fun _ => Session.During environment (fun _ => final) temporary (clock + 1))
        (.modify _ fun state shown => Session.During.silent state.session _ shown) fun _ => ?_
      exact .pure fun _ shown => ⟨clock + 1, shown⟩

/-! ### Whole builds -/

/-- What a build does to a tree is what its course says, and nothing if it is refused. -/
theorem run_ends (tools : Toolchain)
    (fails : ∀ tree, start tree → failed tree)
    (literal : request.fault? = none → request.settled.isLiteral → ∀ compiler : Compiler,
      compiler.tools = tools → compiler.layout = layout →
      TextCourse compiler request.settled layout temporary clock start final failed)
    (files : request.fault? = none → request.settled.isLiteral = false → ∀ compiler : Compiler,
      compiler.tools = tools → compiler.layout = layout →
      Course compiler request.settled layout environment temporary clock start final failed)
    (stops : request.settled.runtimeOnly) :
    Ends
      (fun session => Session.Shows start temporary clock session ∧ session.environment = environment)
      (run tools request layout)
      (fun _ session => ∃ last, Session.Shows final temporary last session ∧
        session.environment = environment)
      (Session.Leaves failed) := by
  have lost : ∀ session, Session.Shows start temporary clock session ∧
      session.environment = environment → Session.Leaves failed session :=
    fun session shown => fails session.tree shown.1.tree
  unfold run
  refine ((Ends.ask _).mono (fun _ shown => shown) (fun _ _ told => told)
    fun session told => lost session told.2).bind fun settled => ?_
  refine Ends.of_and fun told => ?_
  obtain ⟨accepted, rfl⟩ := Request.accepted_of_normalized told
  refine ((Compiler.ofLayout_ends tools layout).mono (fun _ shown => shown) (fun _ _ told => told)
    lost).bind fun compiler => Ends.of_and fun ⟨sameTools, sameLayout⟩ => ?_
  have built : Ends (Session.During environment (fun _ => start) temporary clock)
      (if request.settled.isLiteral then buildLiteral compiler request.settled layout
        else buildFiles tools compiler request.settled layout)
      (fun _ state => ∃ last, Session.During environment (fun _ => final) temporary last state)
      (Session.Ended failed) := by
    split
    · rename_i isLiteral
      exact buildLiteral_ends (literal accepted isLiteral compiler sameTools sameLayout)
    · rename_i isLiteral
      have ends := buildFiles_ends tools
        (files accepted (by simpa using isLiteral) compiler sameTools sameLayout) stops
      exact ends.mono (fun _ shown => shown) (fun _ _ shown => ⟨clock + 1, shown⟩) fun _ left => left
  refine ⟨fun session shown => ?_⟩
  have known := built.outcome { session, report := { mode := request.settled.mode.name } } shown
  generalize (if request.settled.isLiteral then buildLiteral compiler request.settled layout
    else buildFiles tools compiler request.settled layout)
    { session, report := { mode := request.settled.mode.name } } = outcome at known ⊢
  rcases outcome with ⟨fault | answer, state⟩ <;> exact known

end Build

end TreeBuild
