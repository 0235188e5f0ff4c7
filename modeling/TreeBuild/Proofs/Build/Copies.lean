import TreeBuild.Proofs.Build.Containment
import TreeBuild.Proofs.Build.Handing

/-!
# The copy of the compiler configuration

A build derives a compiler configuration of its own from that of the project, and writes it where temporary
files are. This copy is there whenever the compiler is called with it, and it is gone when the build ends,
however that ends: with a report, with the failure of some step, or because the user has interrupted a call.
Copies that other builds have left behind stay as they are.

What is known of a build is handed on from step to step: a step is given what is known before it, and leads
to what is known before the next one. If it fails, it leaves behind what is known while its copy of the
configuration is still to be removed.
-/
namespace TreeBuild

open TreeBuild.Tree

namespace Build

/-! ### From step to step -/

section

variable (effect : Step → Work → Action Work) (final : Session → Prop)
  (lost : Option Path → Session → Prop)

/-- What is known before the first step of a list leads to what is known behind the last one. -/
inductive Guides : (Work → Session → Prop) → List Step → Prop where
  | done {before : Work → Session → Prop} (ends : ∀ work session, before work session → final session) :
      Guides before []
  | step {before after broken : Work → Session → Prop} {step : Step} {rest : List Step}
      (silent : ∀ work, Silent (before work))
      (ends : ∀ work, Ends (before work) (effect step work) after (broken work))
      (loses : ∀ work session, broken work session → lost (step.pending work) session)
      (endures : step.isRequired = false → ∀ work session, broken work session → after work session)
      (next : Guides after rest) : Guides before (step :: rest)

variable {effect final lost} {before : Work → Session → Prop} {all done rest : List Step}
  {start session ended : Session} {endings : List Ending} {work : Work} {pending : Option Path}
  {cause fault : Fault}

/-- A property that does not depend on the log holds of what is the same session but for the log. -/
theorem Relogs.holds {property : Session → Prop} (relogs : Relogs session ended)
    (silent : Silent property) (known : property session) : property ended := by
  obtain ⟨journal, rfl⟩ := relogs
  exact silent session journal known

/-- Where some of the steps have been taken, what is known leads on to the end. -/
theorem Guides.leads (guides : Guides effect final lost before all) (begins : before {} start)
    (leads : Leads effect start done endings work session) (split : all = done ++ rest) :
    ∃ known : Work → Session → Prop, known work session ∧ Guides effect final lost known rest := by
  induction leads generalizing rest with
  | start =>
    obtain rfl : all = rest := split
    exact ⟨before, begins, guides⟩
  | passed step _ relogs does inductionHypothesis =>
    obtain ⟨known, holds, guides⟩ := inductionHypothesis (by simpa using split)
    cases guides with
    | step silent ends loses endures next =>
      exact ⟨_, (ends _).answered (relogs.holds (silent _) holds) does, next⟩
  | endured stage _ relogs does optional _ inductionHypothesis =>
    obtain ⟨known, holds, guides⟩ := inductionHypothesis (by simpa using split)
    cases guides with
    | step silent ends loses endures next =>
      exact ⟨_, endures optional _ _ ((ends _).refused (relogs.holds (silent _) holds) does), next⟩

/-- Where a step has failed, the copy of the configuration that it had is still to be removed. -/
theorem Guides.stops (guides : Guides effect final lost before all) (begins : before {} start)
    (stops : Stops effect start all pending cause session) : lost pending session := by
  cases stops with
  | «at» step leads relogs does =>
    obtain ⟨known, holds, guides⟩ := guides.leads begins leads rfl
    cases guides with
    | step silent ends loses endures next =>
      exact loses _ _ ((ends _).refused (relogs.holds (silent _) holds) does)

/-- Where there is no copy, none is to be removed. -/
theorem Step.pending_of_none (step : Step) (bare : work.copy = none) : step.pending work = none := by
  cases step <;> simp only [pending, bare]

variable (silent : Silent final) (silentLost : ∀ pending, Silent (lost pending))
  (nothing : ∀ session, lost none session → final session)
  (cleans : ∀ copy, Ends (lost (some copy)) (Configuration.removeCopy copy) (fun _ => final) final)

include silentLost nothing cleans

/-- What a build leaves behind that has failed. -/
theorem Guides.fails (guides : Guides effect final lost before all) (begins : before {} start)
    (fails : Fails effect start all fault ended) : final ended := by
  obtain ⟨stops, relogs, abandons⟩ := fails
  have known := relogs.holds (silentLost _) (guides.stops begins stops)
  cases abandons with
  | plain => exact nothing _ known
  | removed fault does => exact (cleans _).answered known does
  | refused cause does => exact (cleans _).refused known does

include silent

/-- What a build of files leaves behind, however it ends. -/
theorem run_guided {tools : Toolchain} {request : Request} {layout : Layout}
    (files : request.isLiteral = false) (begins : before {} start) (refused : final start)
    (guides : ∀ compiler, Compiler.ofLayout tools layout none start = (.ok compiler, start) →
      Guides (Step.effect tools compiler request.settled layout) final lost before
        (steps request.settled start.environment)) :
    final (run tools request layout start).2 := by
  have taken := run_takes_steps tools request layout start files
  rcases ran : run tools request layout start with ⟨fault | outcome, ended⟩
  · rw [ran] at taken
    rcases taken with ⟨rfl, -⟩ | ⟨compiler, found, fails⟩
    · exact refused
    · exact (guides compiler found).fails silentLost nothing cleans begins fails
  · rw [ran] at taken
    obtain ⟨compiler, report, endings, found, -, completes⟩ := taken
    obtain ⟨work, last, leads, relogs⟩ := completes.leads
    obtain ⟨known, holds, guides⟩ :=
      (guides compiler found).leads begins leads (List.append_nil _).symm
    cases guides with
    | done ends => exact relogs.holds silent (ends _ _ holds)

end

/-! ### Copies and calls -/

/-- The configuration of a request, derived in a tree like this. -/
def Derived (request : Request) (layout : Layout) (prepared : Tree → Prop) (content : Text.Bytes) : Prop :=
  ∃ path taken value, request.tsconfig.path = .ok path ∧ prepared taken.tree ∧
    (Configuration.derive (layout.resolve path) taken).1 = .ok value ∧
      content = Text.Utf8.encode value.pretty

/-- The tree in which a build derives its configuration: that of the start, cleared unless a text is
compiled. -/
def Prepared (request : Request) (layout : Layout) (start : Session) (tree : Tree) : Prop :=
  if request.isLiteral then tree = start.tree
  else ∃ begun, Relogs start begun ∧ tree = (clear request layout begun).2.tree

/-- A call that names no configuration but a copy, which can be read and has a content like this. -/
def UsesCopy (copy : Path) (derived : Text.Bytes → Prop) (call : Invocation × Tree) : Prop :=
  ∀ text, ("tsconfig", text) ∈ call.1.settings →
    text = copy.toString ∧ ∃ content, call.2.read copy = .ok content ∧ derived content

/-- A session of a build, in which only the compiler was called since the start. -/
structure Served (copy : Path) (derived : Text.Bytes → Prop) (start session : Session) : Prop where
  environment : session.environment = start.environment
  directory : session.directory = start.directory
  calls : ∃ calls, session.invocations = start.invocations ++ calls ∧
    ∀ call ∈ calls, UsesCopy copy derived call

/-- A session of a build, in which the compiler was called first, and then other tools. The copies of
configurations are as they were at the start. -/
structure Tidy (layout : Layout) (copy : Path) (derived : Text.Bytes → Prop) (start session : Session) :
    Prop where
  environment : session.environment = start.environment
  directory : session.directory = start.directory
  copies : ∀ clock, session.tree.contentAt? (Configuration.copyPath start.temporary clock).parts =
    start.tree.contentAt? (Configuration.copyPath start.temporary clock).parts
  calls : ∃ calls others, session.invocations = start.invocations ++ (calls ++ others) ∧
    (∀ call ∈ calls, UsesCopy copy derived call) ∧
      ∀ call ∈ others, Auxiliary.CallsIn { start with tree := call.2 } layout call.1

end Build

/-- Tools behind the compiler that leave alone the copies of configurations. -/
def Toolchain.SparesCopies (tools : Toolchain) (layout : Layout) (start : Session) : Prop :=
  ∀ (invocation : Invocation) (tree : Tree) (clock : Nat),
    Auxiliary.CallsIn { start with tree } layout invocation →
      (tools.run invocation tree).2.contentAt? (Configuration.copyPath start.temporary clock).parts =
        tree.contentAt? (Configuration.copyPath start.temporary clock).parts

/-- The configuration that the compiler is told of is the one that is given. -/
theorem CompilerOptions.ofRequest_names {property : Session → Prop} (request : Request) (layout : Layout)
    (tsconfig : Option Path) :
    Ends property (CompilerOptions.ofRequest request layout tsconfig)
      (fun options session => options.tsconfig = tsconfig ∧ property session) property := by
  unfold CompilerOptions.ofRequest
  refine Ends.bind (Descriptor.read_keeps layout) fun value => ?_
  refine (Ends.ask _).mono (fun _ holds => holds) (fun options session told => ⟨?_, told.2⟩)
    fun _ told => told.2
  obtain ⟨external, -, chosen⟩ := exists_of_bind_eq_ok told.1
  obtain ⟨platform, -, chosen⟩ := exists_of_bind_eq_ok chosen
  cases chosen
  rfl

/-- Which program is run for a tool depends on the tree and on what surrounds the session. -/
theorem Auxiliary.CallsIn.surrounded {session start : Session} {layout : Layout} {invocation : Invocation}
    (called : CallsIn session layout invocation) (environment : session.environment = start.environment)
    (directory : session.directory = start.directory) :
    CallsIn { start with tree := session.tree } layout invocation := by
  obtain ⟨name, other, program, arguments, resolved, same⟩ := called
  refine ⟨name, other, program, arguments, ?_, same⟩
  unfold Tools.resolve Tools.onSearchPath? Tools.isProgram at resolved ⊢
  rw [environment, directory] at resolved
  exact resolved

namespace Build

section

variable {copy : Path} {derived : Text.Bytes → Prop} {start session : Session} {layout : Layout}
  {tools : Toolchain}

/-- At the start nothing has been called. -/
theorem Served.refl (start : Session) : Served copy derived start start :=
  ⟨rfl, rfl, [], (List.append_nil _).symm, by simp⟩

/-- Which calls a build has made does not depend on the tree, the log or the clock. -/
theorem Served.quiet : Quiet (Served copy derived start) :=
  fun _ _ _ _ served => ⟨served.environment, served.directory, served.calls⟩

/-- The compiler is called once more. -/
theorem Served.call (served : Served copy derived start session) {invocation : Invocation}
    (uses : UsesCopy copy derived (invocation, session.tree)) (tree : Tree) :
    Served copy derived start (session.called invocation tree) := by
  obtain ⟨calls, same, all⟩ := served.calls
  refine ⟨served.environment, served.directory, calls ++ [(invocation, session.tree)], ?_, ?_⟩
  · simp [Session.called, same]
  · exact List.forall_mem_append.mpr ⟨all, fun call last => List.mem_singleton.mp last ▸ uses⟩

/-- Which copies there are and which calls were made does not depend on the log. -/
theorem Tidy.silent : Silent (Tidy layout copy derived start) :=
  fun _ _ tidy => ⟨tidy.environment, tidy.directory, tidy.copies, tidy.calls⟩

/-- At the start no copy has come or gone, and nothing has been called. -/
theorem Tidy.refl (start : Session) : Tidy layout copy derived start start :=
  ⟨rfl, rfl, fun _ => rfl, [], [], by simp, by simp, by simp⟩

/-- Other tools may be called once the compiler has done its work. -/
theorem Tidy.endures (spares : tools.SparesCopies layout start) :
    Endures tools layout (Tidy layout copy derived start) where
  silent := Tidy.silent
  directories session path tidy := by
    refine ⟨tidy.environment, tidy.directory, fun clock => ?_, tidy.calls⟩
    rw [contentAt?_makeDirectories, tidy.copies]
  call session invocation called tidy := by
    have other := called.surrounded tidy.environment tidy.directory
    obtain ⟨calls, others, same, compiles, aside⟩ := tidy.calls
    refine ⟨tidy.environment, tidy.directory, fun clock => ?_, calls,
      others ++ [(invocation, session.tree)], ?_, compiles, ?_⟩
    · exact (spares invocation session.tree clock other).trans (tidy.copies clock)
    · simp [same]
    · exact List.forall_mem_append.mpr ⟨aside, fun call last => List.mem_singleton.mp last ▸ other⟩

end

namespace Scene

variable {scene : Scene} {derived : Text.Bytes → Prop} {start session : Session} {tree : Tree}

variable (scene derived) in
/-- The trees with a copy that has a content like this. -/
def loaded : Ground where
  zone := scene.zone
  holds tree := scene.copying.holds tree ∧ ∃ content executable, derived content ∧
    tree.get? scene.copy.parts = some (.file content executable)
  kept := by
    rintro before after ⟨copying, content, executable, isDerived, isFile⟩ edit
    exact ⟨scene.copying.kept copying edit, content, executable, isDerived, (get?_copy edit).trans isFile⟩

/-- A copy that is there can be read. -/
theorem read_copy (held : (scene.loaded derived).holds tree) :
    ∃ content, tree.read scene.copy = .ok content ∧ derived content := by
  obtain ⟨⟨spared, hasCopy⟩, content, executable, isDerived, isFile⟩ := held
  have status : tree.status scene.copy = .ok (.file content executable) :=
    (status_iff scene.copy_isPlain spared.unlinked).mpr ⟨hasCopy.fits, hasCopy.reaches, isFile⟩
  exact ⟨content, by simp only [Tree.read, status], isDerived⟩

/-- Where only the output tree has changed, all copies are as they were. -/
theorem tidy_of_spared (shown : Session.Shows (· = scene.start) scene.temporary scene.clock start)
    (apart : ∀ clock, ¬ scene.output <+: (Configuration.copyPath scene.temporary clock).parts)
    (spared : scene.IsSpared session.tree) (served : Served scene.copy derived start session) :
    Tidy scene.layout scene.copy derived start session := by
  refine ⟨served.environment, served.directory, fun clock => ?_, ?_⟩
  · rw [shown.tree, shown.temporary]
    rcases spared _ (apart clock) with same | ⟨-, none, made⟩
    · simp only [contentAt?, same]
    · simp only [contentAt?, none, made]
  · obtain ⟨calls, same, uses⟩ := served.calls
    exact ⟨calls, [], by rw [same, List.append_nil], uses, by simp⟩

/-- The compiler may be called in every tree of a ground if it finds there the configuration that it is told
of. -/
theorem minds {compiler : Compiler} (writes : compiler.WritesOutputsOnly) {options : CompilerOptions}
    {ground : Ground} (sameZone : ground.zone = scene.zone) (room : ground.Room scene.output)
    {temporary : Path} {clock : Nat}
    (finds : ∀ tree, ground.holds tree → ∀ path ∈ options.tsconfig, path = scene.copy ∧
      ∃ content, tree.read scene.copy = .ok content ∧ derived content) :
    compiler.Minds options (fun output => output.StaysIn scene.output)
      (fun session => ground.Held temporary clock session ∧ Served scene.copy derived start session) where
  silent session journal held := ⟨Session.Shows.silent session journal held.1,
    Served.quiet.silent session journal held.2⟩
  call arguments directory input session outputs names := by
    rintro ⟨held, served⟩
    have edit : ground.zone.Edit session.tree
        (compiler.tools.run ⟨compiler.program :: arguments, directory, input⟩ session.tree).2 := by
      rw [sameZone]
      exact writes arguments directory input session.tree scene.output room.names
        (room.straight session.tree held.tree) outputs
    refine ⟨⟨ground.kept held.tree edit, held.temporary, held.clock⟩, served.call ?_ _⟩
    intro text named
    obtain ⟨path, given, rfl⟩ := names text named
    obtain ⟨same, found⟩ := finds session.tree held.tree path given
    subst path
    exact ⟨rfl, found⟩

/-! ### The steps of a build of files -/

variable (scene derived start) in
/-- What is known of a build that has no copy: the sources and the modules so far are as they should be, and
so is the tree. -/
def Bare (known : Work → Tree → Prop) (clock : Nat) (work : Work) (session : Session) : Prop :=
  work.copy = none ∧
    Session.Shows (fun tree => known work tree ∧ scene.quiet.holds tree) scene.temporary clock session ∧
      Served scene.copy derived start session

variable (scene derived start) in
/-- What is known of a build that has a copy. -/
def Equipped (known : Work → Prop) (work : Work) (session : Session) : Prop :=
  (work.copy = some scene.copy ∧ known work) ∧
    (scene.loaded derived).Held scene.temporary (scene.clock + 1) session ∧
      Served scene.copy derived start session

variable (scene) in
/-- The sources and the modules that have been written are as they should be. -/
def Emitted (work : Work) : Prop :=
  scene.Found work.files ∧ ∀ output ∈ work.outputs, output.StaysIn scene.output

variable (scene derived start) in
/-- What is known of a build whose output can be run. -/
def Done (work : Work) (session : Session) : Prop :=
  work.copy = none ∧ Tidy scene.layout scene.copy derived start session

variable (scene derived start) in
/-- What is known of a build that has failed, depending on whether there is still a copy to be removed. -/
def Lost : Option Path → Session → Prop
  | none => Tidy scene.layout scene.copy derived start
  | some copy => fun session => copy = scene.copy ∧ Session.Leaves scene.copying.holds session ∧
      Served scene.copy derived start session

/-- What is known of a build that has failed does not depend on the log. -/
theorem Lost.silent (pending : Option Path) : Silent (scene.Lost derived start pending) := by
  intro session journal known
  cases pending with
  | none => exact Tidy.silent session journal known
  | some copy => exact ⟨known.1, known.2.1, Served.quiet.silent session journal known.2.2⟩

/-- There is room for outputs beside a copy that has been loaded. -/
theorem roomLoaded : (scene.loaded derived).Room scene.output := room rfl fun _ held => held.1.1

/-- The compiler finds the copy where it is told to look for it. -/
theorem loaded_minds {compiler : Compiler} (writes : compiler.WritesOutputsOnly) {options : CompilerOptions}
    (names : options.tsconfig = some scene.copy) {clock : Nat} :
    compiler.Minds options (fun output => output.StaysIn scene.output) (fun session =>
      (scene.loaded derived).Held scene.temporary clock session ∧
        Served scene.copy derived start session) := by
  refine minds writes rfl roomLoaded fun tree held path given => ?_
  rw [names] at given
  exact ⟨(Option.some.inj given).symm, read_copy held⟩

variable {request : Request} {compiler : Compiler} {tools : Toolchain} {rest : List Step}

variable (scene derived start request compiler tools) in
/-- What is known before the first of some steps of a build of files leads to a tidy session. -/
abbrev Guided (before : Work → Session → Prop) (rest : List Step) : Prop :=
  Guides (Step.effect tools compiler request scene.layout) (Tidy scene.layout scene.copy derived start)
    (scene.Lost derived start) before rest

/-- The copy is made and holds what the configuration of the request is derived to. -/
theorem copyConfiguration_loads {prepared : Tree → Prop} :
    Ends (fun session => Session.Shows (fun tree => prepared tree ∧ scene.quiet.holds tree)
        scene.temporary scene.clock session ∧ Served scene.copy derived start session)
      (copyConfiguration request scene.layout)
      (fun copy session => copy = scene.copy ∧
        (scene.loaded (Derived request scene.layout prepared)).Held scene.temporary (scene.clock + 1) session ∧
          Served scene.copy derived start session)
      (fun session => Session.Leaves scene.IsSpared session ∧ Served scene.copy derived start session) := by
  have made : Ends (Session.Shows (fun tree => prepared tree ∧ scene.quiet.holds tree) scene.temporary
      scene.clock) (copyConfiguration request scene.layout)
      (fun copy session => copy = scene.copy ∧
        (scene.loaded (Derived request scene.layout prepared)).Held scene.temporary (scene.clock + 1) session)
      (Session.Leaves scene.IsSpared) := by
    unfold copyConfiguration
    refine ((Ends.ask _).mono (fun _ shown => shown) (fun _ _ told => told)
      fun session told => isSpared_of_quiet told.2.tree.2).bind fun path => Ends.of_and fun given => ?_
    refine Configuration.makeCopy_ends (fun session shown => isSpared_of_quiet shown.tree.2) _
      fun value taken before told => ?_
    refine .changeFiles (fun session tree shown written => ?_) fun session fault shown _ =>
      isSpared_of_quiet shown.tree.2
    obtain ⟨copying, isFile⟩ := hasCopy_of_write shown.tree.2 written
    exact ⟨⟨copying, _, false, ⟨path, taken, value, given, before.tree.1, told, rfl⟩, isFile⟩,
      shown.temporary, shown.clock⟩
  exact (made.and (Served.quiet.copyConfiguration request scene.layout)).mono (fun _ known => known)
    (fun _ _ known => ⟨known.1.1, known.1.2, known.2⟩) fun _ left => left

/-- A copy that is there is removed. -/
theorem removeCopy_unloads {holds : Tree → Prop} {failed : Session → Prop} {temporary : Path} {clock : Nat}
    (copying : ∀ tree, holds tree → scene.copying.holds tree) :
    Ends (fun session => Session.Shows holds temporary clock session ∧
        Served scene.copy derived start session) (Configuration.removeCopy scene.copy)
      (fun _ session => Session.Shows scene.quiet.holds temporary clock session ∧
        Served scene.copy derived start session) failed := by
  have removed : Ends (Session.Shows scene.copying.holds temporary clock)
      (Configuration.removeCopy scene.copy) (fun _ => Session.Shows scene.quiet.holds temporary clock)
      (fun _ => False) := removeCopy_ends
  exact (removed.and (Served.quiet.removeCopy scene.copy)).mono
    (fun session known => ⟨Session.Shows.mono copying session known.1, known.2⟩) (fun _ _ known => known)
    fun _ known => known.1.elim

section

variable (shown : Session.Shows (· = scene.start) scene.temporary scene.clock start)
  (apart : ∀ clock, ¬ scene.output <+: (Configuration.copyPath scene.temporary clock).parts)

include shown apart

/-- The copy is removed also when the build has failed. -/
theorem removeCopy_tidies (copy : Path) :
    Ends (scene.Lost derived start (some copy)) (Configuration.removeCopy copy)
      (fun _ => Tidy scene.layout scene.copy derived start)
      (Tidy scene.layout scene.copy derived start) := by
  refine Ends.of_forall fun session ⟨same, copying, served⟩ => ?_
  subst copy
  have removed := @removeCopy_unloads scene derived start scene.copying.holds
    (Tidy scene.layout scene.copy derived start) session.temporary session.clock fun _ holds => holds
  refine removed.mono ?_ (fun _ session known => ?_) fun _ left => left
  · rintro _ rfl
    exact ⟨⟨copying, rfl, rfl⟩, served⟩
  · exact tidy_of_spared shown apart (isSpared_of_quiet known.1.tree) known.2

/-- A step that works in the output tree while there is no copy. -/
theorem guides_bare {Answer : Type} {step : Step} {action : Work → Action Answer}
    {add : Work → Answer → Work} {known next : Work → Tree → Prop} {first last : Nat}
    (effect : ∀ work, step.effect tools compiler request scene.layout work =
      action work >>= fun answer => pure (add work answer))
    (required : step.isRequired)
    (ends : ∀ work, Ends
      (Session.Shows (fun tree => known work tree ∧ scene.quiet.holds tree) scene.temporary first)
      (action work)
      (fun answer => Session.Shows (fun tree => next (add work answer) tree ∧ scene.quiet.holds tree)
        scene.temporary last) (Session.Leaves scene.IsSpared))
    (quiet : ∀ work, Keeps (Served scene.copy derived start) (action work))
    (kept : ∀ work answer, (add work answer).copy = work.copy)
    (following : scene.Guided derived start request compiler tools (scene.Bare derived start next last) rest) :
    scene.Guided derived start request compiler tools (scene.Bare derived start known first)
      (step :: rest) := by
  have leads (work : Work) : Ends (scene.Bare derived start known first work)
      (step.effect tools compiler request scene.layout work) (scene.Bare derived start next last)
      (fun session => step.pending work = none ∧ Session.Leaves scene.IsSpared session ∧
        Served scene.copy derived start session) := by
    rw [effect]
    refine Ends.of_and fun bare => ?_
    refine Ends.bind (((ends work).and (quiet work)).mono (fun _ known => known) (fun _ _ known => known)
      fun _ left => ⟨step.pending_of_none bare, left⟩) fun answer => ?_
    exact .pure fun _ known => ⟨(kept work answer).trans bare, known⟩
  refine .step (fun work session journal bare => ⟨bare.1, Session.Shows.silent session journal bare.2.1,
    Served.quiet.silent session journal bare.2.2⟩) leads ?_ ?_ following
  · rintro work session ⟨nothing, spared, served⟩
    rw [nothing]
    exact tidy_of_spared shown apart spared served
  · intro optional
    rw [required] at optional
    cases optional

end

/-- A step that works while there is a copy. -/
theorem guides_equipped {step : Step} {known : Work → Prop} {after : Work → Session → Prop}
    (required : step.isRequired) (pending : ∀ work, step.pending work = work.copy)
    (ends : ∀ work, work.copy = some scene.copy → known work → Ends
      (fun session => (scene.loaded derived).Held scene.temporary (scene.clock + 1) session ∧
        Served scene.copy derived start session)
      (step.effect tools compiler request scene.layout work) after
      (fun session => Session.Leaves scene.copying.holds session ∧
        Served scene.copy derived start session))
    (following : scene.Guided derived start request compiler tools after rest) :
    scene.Guided derived start request compiler tools (scene.Equipped derived start known)
      (step :: rest) := by
  have leads (work : Work) : Ends (scene.Equipped derived start known work)
      (step.effect tools compiler request scene.layout work) after
      (fun session => work.copy = some scene.copy ∧ Session.Leaves scene.copying.holds session ∧
        Served scene.copy derived start session) :=
    Ends.of_and fun ⟨copy, good⟩ => (ends work copy good).mono (fun _ known => known)
      (fun _ _ known => known) fun _ left => ⟨copy, left⟩
  refine .step (fun work session journal equipped => ⟨equipped.1, Session.Shows.silent session journal
    equipped.2.1, Served.quiet.silent session journal equipped.2.2⟩) leads ?_ ?_ following
  · rintro work session ⟨copy, copying, served⟩
    rw [pending, copy]
    exact ⟨rfl, copying, served⟩
  · intro optional
    rw [required] at optional
    cases optional

/-- A stage that calls other tools, once the compiler has done its work. -/
theorem guides_tidy {Answer : Type} {stage : Stage} {action : Action Answer}
    (effect : ∀ work, Step.effect tools compiler request scene.layout (.stage stage) work =
      action >>= fun _ => pure work)
    (kept : Keeps (Tidy scene.layout scene.copy derived start) action)
    (following : scene.Guided derived start request compiler tools (scene.Done derived start) rest) :
    scene.Guided derived start request compiler tools (scene.Done derived start)
      (.stage stage :: rest) := by
  have leads (work : Work) : Ends (scene.Done derived start work)
      (Step.effect tools compiler request scene.layout (.stage stage) work) (scene.Done derived start)
      (scene.Done derived start work) := by
    rw [effect]
    refine Ends.of_and fun bare => Ends.bind (kept.mono (fun _ known => known) (fun _ _ known => known)
      fun _ left => ⟨bare, left⟩) fun _ => ?_
    exact .pure fun _ known => ⟨bare, known⟩
  refine .step (fun work session journal known => ⟨known.1, Tidy.silent session journal known.2⟩) leads ?_
    (fun _ _ _ known => known) following
  rintro work session ⟨bare, tidy⟩
  rw [Step.pending_of_none _ bare]
  exact tidy

/-- The stages that follow once the output can be run. -/
theorem guides_optional (spares : request.runtimeOnly = false → tools.SparesCopies scene.layout start) :
    scene.Guided derived start request compiler tools (scene.Done derived start)
      ((optionalOrder request).map .stage) := by
  unfold optionalOrder
  split
  · exact .done fun _ _ known => known.2
  · rename_i goesOn
    have endures : Endures tools scene.layout (Tidy scene.layout scene.copy derived start) :=
      Tidy.endures (spares (by simpa using goesOn))
    have declares : scene.Guided derived start request compiler tools (scene.Done derived start)
        [.stage .declarations] :=
      guides_tidy (fun _ => rfl) ((Keeps.ask _).bind fun _ => emitDeclarations_keeps endures _)
        (.done fun _ _ known => known.2)
    split
    · exact declares
    · refine guides_tidy (fun _ => rfl) (bundleStyles_keeps endures) ?_
      split
      · exact guides_tidy (fun _ => rfl) (buildBinaries_keeps endures none) declares
      · exact declares

/-- The first step clears the output. -/
theorem clear_prepares (shown : Session.Shows (· = scene.start) scene.temporary scene.clock start)
    (admits : scene.Admits request) (files : request.isLiteral = false) :
    Ends (Relogs start) (clear request scene.layout)
      (fun _ session => Session.Shows (fun tree => Prepared request scene.layout start tree ∧
        scene.quiet.holds tree) scene.temporary scene.clock session ∧
          Served scene.copy derived start session)
      (fun session => Session.Leaves scene.IsSpared session ∧ Served scene.copy derived start session) := by
  refine Ends.of_forall fun begun relogs => ?_
  have known : Session.Shows (· = scene.start) scene.temporary scene.clock begun :=
    relogs.holds Session.Shows.silent shown
  have served : Served scene.copy derived start begun :=
    relogs.holds Served.quiet.silent (Served.refl start)
  have kept : Keeps (Served scene.copy derived start) (clear request scene.layout) :=
    Served.quiet.buildClear request scene.layout
  have cleared := ((admits.clear_ends files).and kept).and
    (Ends.lands (clear request scene.layout) begun)
  refine cleared.mono ?_ (fun _ session told => ?_) fun session told => told.1
  · rintro _ rfl
    exact ⟨⟨known, served⟩, rfl⟩
  · obtain ⟨⟨quiet, served⟩, last⟩ := told
    have prepared : Prepared request scene.layout start session.tree := by
      unfold Prepared
      rw [files, if_neg Bool.false_ne_true]
      exact ⟨begun, relogs, by rw [last]⟩
    exact ⟨⟨⟨prepared, quiet.tree⟩, quiet.temporary, quiet.clock⟩, served⟩

/-- The options name the copy, and the compiler is called with them. -/
theorem guides_compiling (writes : compiler.WritesOutputsOnly)
    (following : scene.Guided derived start request compiler tools
      (scene.Equipped derived start scene.Emitted) rest) :
    scene.Guided derived start request compiler tools
      (scene.Equipped derived start fun work => scene.Found work.files)
      (.chooseOptions :: .stage .compiling :: rest) := by
  have calls : scene.Guided derived start request compiler tools (scene.Equipped derived start fun work =>
      scene.Found work.files ∧ ∃ options, work.options = some options ∧ options.tsconfig = some scene.copy)
      (.stage .compiling :: rest) := by
    refine guides_equipped rfl (fun _ => rfl) (fun work copy ⟨found, options, chosen, names⟩ => ?_) following
    unfold Step.effect
    dsimp only
    rw [chosen]
    refine Ends.bind ((Build.compile_ends (loaded_minds writes names) scene.placed accepts_output
      (fun file member => (found file member).1) fun file member other => ?_).mono (fun _ known => known)
      (fun _ _ told => told) fun _ known => ⟨known.1.tree.1, known.2⟩) fun outputs => Ends.of_and fun told => ?_
    · have sends := (found file member).2 other
      exact ⟨sends.absolute, sends.proper, sends.stays⟩
    · refine .pure fun _ known => ⟨⟨copy, found, fun output member => ?_⟩, known⟩
      obtain ⟨file, listed, other, rfl⟩ := told output member
      exact ((found file listed).2 other).stays
  refine guides_equipped rfl (fun _ => rfl) (fun work copy found => ?_) calls
  unfold Step.effect
  dsimp only
  rw [copy]
  refine Ends.bind ((CompilerOptions.ofRequest_names request scene.layout (some scene.copy)).mono
    (fun _ known => known) (fun _ _ told => told)
    fun _ known => ⟨known.1.tree.1, known.2⟩) fun options => Ends.of_and fun names => ?_
  exact .pure fun _ known => ⟨⟨rfl, found, options, rfl, names⟩, known⟩

/-- The steps from the removal of the copy to the descriptor of the output work in the output tree. -/
theorem guides_emitted (shown : Session.Shows (· = scene.start) scene.temporary scene.clock start)
    (apart : ∀ clock, ¬ scene.output <+: (Configuration.copyPath scene.temporary clock).parts)
    (environment : Environment)
    (following : scene.Guided derived start request compiler tools (scene.Done derived start) rest) :
    scene.Guided derived start request compiler tools
      (scene.Equipped derived start scene.Emitted)
      (.removeCopy :: .stage .copyingAssets ::
        ((if Tools.rewritesDisabled environment then [] else [.stage .normalizing]) ++
          .stage .patchingMetadata :: rest)) := by
  have patches : scene.Guided derived start request compiler tools
      (scene.Bare derived start (fun work _ => scene.Emitted work) (scene.clock + 1))
      (.stage .patchingMetadata :: rest) := by
    have leads (work : Work) :
        Ends (scene.Bare derived start (fun work _ => scene.Emitted work) (scene.clock + 1) work)
          (Step.effect tools compiler request scene.layout (.stage .patchingMetadata) work)
          (scene.Done derived start) (scene.Done derived start work) := by
      refine Ends.of_and fun bare => ?_
      have kept : Keeps (Served scene.copy derived start)
          (Output.patchType scene.layout.output request.format) := Served.quiet.patchType _ _
      have patched : Ends (Session.Shows scene.quiet.holds scene.temporary (scene.clock + 1))
          (Output.patchType scene.layout.output request.format)
          (fun _ => Session.Shows scene.IsSpared scene.temporary (scene.clock + 1))
          (Session.Leaves scene.IsSpared) := patchType_ends request.format
      refine Ends.bind ((patched.and kept).mono (fun session known => ?_) (fun _ _ known => known)
        fun session left => ⟨bare, tidy_of_spared shown apart left.1 left.2⟩) fun _ => ?_
      · exact ⟨Session.Shows.mono (fun _ emitted => emitted.2) session known.1, known.2⟩
      · exact .pure fun session known => ⟨bare, tidy_of_spared shown apart known.1.tree known.2⟩
    refine .step (fun work session journal bare => ⟨bare.1, Session.Shows.silent session journal bare.2.1,
      Served.quiet.silent session journal bare.2.2⟩) leads ?_ ?_ following
    · rintro work session ⟨bare, tidy⟩
      rw [Step.pending_of_none _ bare]
      exact tidy
    · intro optional
      cases optional
  have normalizes : scene.Guided derived start request compiler tools
      (scene.Bare derived start (fun work _ => scene.Emitted work) (scene.clock + 1))
      ((if Tools.rewritesDisabled environment then [] else [.stage .normalizing]) ++
        .stage .patchingMetadata :: rest) := by
    split
    · exact patches
    · exact guides_bare shown apart (fun _ => rfl) rfl
        (fun work => Ends.knowing fun emitted => normalizeFiles_ends emitted.2 _)
        (fun _ => Served.quiet.normalizeFiles _ _) (fun _ _ => rfl) patches
  have copies : scene.Guided derived start request compiler tools
      (scene.Bare derived start (fun work _ => scene.Emitted work) (scene.clock + 1))
      (.stage .copyingAssets :: ((if Tools.rewritesDisabled environment then [] else [.stage .normalizing]) ++
        .stage .patchingMetadata :: rest)) :=
    guides_bare shown apart (fun _ => rfl) rfl
      (fun work => Ends.knowing fun emitted => copyAssets_ends emitted.1)
      (fun _ => Served.quiet.copyAssets _ _) (fun _ _ => rfl) normalizes
  have leads (work : Work) : Ends (scene.Equipped derived start scene.Emitted work)
      (Step.effect tools compiler request scene.layout .removeCopy work)
      (scene.Bare derived start (fun work _ => scene.Emitted work) (scene.clock + 1)) (fun _ => False) := by
    refine Ends.of_and fun ⟨copy, emitted⟩ => ?_
    unfold Step.effect
    dsimp only
    rw [copy]
    refine Ends.bind (removeCopy_unloads fun _ held => held.1) fun _ => ?_
    exact .pure fun _ known => ⟨rfl, ⟨⟨emitted, known.1.tree⟩, known.1.temporary, known.1.clock⟩, known.2⟩
  exact .step (fun work session journal equipped => ⟨equipped.1, Session.Shows.silent session journal
    equipped.2.1, Served.quiet.silent session journal equipped.2.2⟩) leads (fun _ _ => False.elim)
    (fun _ _ _ => False.elim) copies

/-- The sources that are found have their destinations in the output tree. -/
theorem guides_classifying {prepared : Tree → Prop}
    (shown : Session.Shows (· = scene.start) scene.temporary scene.clock start)
    (apart : ∀ clock, ¬ scene.output <+: (Configuration.copyPath scene.temporary clock).parts)
    (admits : scene.Admits request) (files : request.isLiteral = false)
    (following : scene.Guided derived start request compiler tools
      (scene.Bare derived start (fun work tree => scene.Found work.files ∧ prepared tree) scene.clock) rest) :
    scene.Guided derived start request compiler tools
      (scene.Bare derived start (fun _ => prepared) scene.clock) (.stage .classifying :: rest) := by
  refine guides_bare shown apart (fun _ => rfl) rfl (fun work => ?_) (fun _ => .ask _) (fun _ _ => rfl)
    following
  have kept : Keeps (fun session : Session => prepared session.tree) (discoverInput request scene.layout) :=
    .ask _
  refine ((discoverInput_ends files admits.file).and kept).mono (fun session known => ?_)
    (fun found session told => ?_) fun session left => left.1
  · exact ⟨⟨known.tree.2, known.temporary, known.clock⟩, known.tree.1⟩
  · exact ⟨⟨⟨told.1.tree.1, told.2⟩, told.1.tree.2⟩, told.1.temporary, told.1.clock⟩

/-- The copy is made. -/
theorem guides_copying {prepared : Tree → Prop}
    (shown : Session.Shows (· = scene.start) scene.temporary scene.clock start)
    (apart : ∀ clock, ¬ scene.output <+: (Configuration.copyPath scene.temporary clock).parts)
    (following : scene.Guided (Derived request scene.layout prepared) start request compiler tools
      (scene.Equipped (Derived request scene.layout prepared) start fun work => scene.Found work.files) rest) :
    scene.Guided (Derived request scene.layout prepared) start request compiler tools
      (scene.Bare (Derived request scene.layout prepared) start
        (fun work tree => scene.Found work.files ∧ prepared tree) scene.clock)
      (.copyConfiguration :: rest) := by
  have leads (work : Work) : Ends
      (scene.Bare (Derived request scene.layout prepared) start
        (fun work tree => scene.Found work.files ∧ prepared tree) scene.clock work)
      (Step.effect tools compiler request scene.layout .copyConfiguration work)
      (scene.Equipped (Derived request scene.layout prepared) start fun work => scene.Found work.files)
      (scene.Done (Derived request scene.layout prepared) start work) := by
    refine Ends.of_and fun bare => Ends.of_forall fun session known => ?_
    have found := known.1.tree.1.1
    have loads := @copyConfiguration_loads scene (Derived request scene.layout prepared) start request prepared
    refine Ends.bind (loads.mono ?_ (fun _ _ told => told)
      fun session left => ⟨bare, tidy_of_spared shown apart left.1 left.2⟩) fun copy => Ends.of_and fun same => ?_
    · rintro _ rfl
      exact ⟨⟨⟨known.1.tree.1.2, known.1.tree.2⟩, known.1.temporary, known.1.clock⟩, known.2⟩
    · exact .pure fun _ loaded => ⟨⟨congrArg some same, found⟩, loaded⟩
  refine .step (fun work session journal bare => ⟨bare.1, Session.Shows.silent session journal bare.2.1,
    Served.quiet.silent session journal bare.2.2⟩) leads ?_ ?_ following
  · rintro work session ⟨bare, tidy⟩
    rw [Step.pending_of_none _ bare]
    exact tidy
  · intro optional
    cases optional

/-- What is known of a build of files that stays in the output tree, from its first step to its last one. -/
theorem guides_files (shown : Session.Shows (· = scene.start) scene.temporary scene.clock start)
    (apart : ∀ clock, ¬ scene.output <+: (Configuration.copyPath scene.temporary clock).parts)
    (admits : scene.Admits request) (files : request.isLiteral = false) (writes : compiler.WritesOutputsOnly)
    (spares : request.runtimeOnly = false → tools.SparesCopies scene.layout start)
    (environment : Environment) :
    scene.Guided (Derived request scene.layout (Prepared request scene.layout start)) start request compiler
      tools (fun work session => work = {} ∧ Relogs start session) (steps request environment) := by
  have leads (work : Work) : Ends (fun session => work = {} ∧ Relogs start session)
      (Step.effect tools compiler request scene.layout (.stage .clearing) work)
      (scene.Bare (Derived request scene.layout (Prepared request scene.layout start)) start
        (fun _ => Prepared request scene.layout start) scene.clock)
      (scene.Done (Derived request scene.layout (Prepared request scene.layout start)) start work) := by
    refine Ends.of_and fun fresh => ?_
    subst fresh
    refine Ends.bind ((clear_prepares shown admits files).mono (fun _ relogs => relogs)
      (fun _ _ told => told) fun session left => ⟨rfl, tidy_of_spared shown apart left.1 left.2⟩) fun _ => ?_
    exact .pure fun _ known => ⟨rfl, known⟩
  refine .step (fun work session journal known => ⟨known.1, Relogs.silent session journal known.2⟩) leads
    ?_ ?_ (guides_classifying shown apart admits files (guides_copying shown apart
      (guides_compiling writes (guides_emitted shown apart environment (guides_optional spares)))))
  · rintro work session ⟨bare, tidy⟩
    rw [Step.pending_of_none _ bare]
    exact tidy
  · intro optional
    cases optional

/-! ### The build of a text -/

variable (scene derived start) in
/-- What is known of a build of a text before it has a copy. -/
def Ready (prepared : Tree → Prop) (session : Session) : Prop :=
  Session.Shows (fun tree => prepared tree ∧ scene.quiet.holds tree) scene.temporary scene.clock session ∧
    Served scene.copy derived start session

/-- What is known of a build of a text before it has a copy does not depend on the log. -/
theorem Ready.silent {prepared : Tree → Prop} : Silent (scene.Ready derived start prepared) :=
  fun session journal known =>
    ⟨Session.Shows.silent session journal known.1, Served.quiet.silent session journal known.2⟩

section

variable {prepared : Tree → Prop}
  (shown : Session.Shows (· = scene.start) scene.temporary scene.clock start)
  (apart : ∀ clock, ¬ scene.output <+: (Configuration.copyPath scene.temporary clock).parts)
  (writes : compiler.WritesOutputsOnly)

include shown apart

/-- As long as there is no copy, the copies of configurations are as they were at the start. -/
theorem Ready.tidy {session : Session} (ready : scene.Ready derived start prepared session) :
    Tidy scene.layout scene.copy derived start session :=
  tidy_of_spared shown apart (isSpared_of_quiet ready.1.tree.2) ready.2

include writes

/-- A text whose compiled form is returned is compiled without a configuration. -/
theorem transform_tidies (source label : String) {options : CompilerOptions}
    (names : options.tsconfig = none) :
    Ends (scene.Ready derived start prepared) (compiler.transform source label options)
      (fun _ => Tidy scene.layout scene.copy derived start)
      (Tidy scene.layout scene.copy derived start) := by
  have minds : compiler.Minds options (fun output => output.StaysIn scene.output) (fun session =>
      scene.quiet.Held scene.temporary scene.clock session ∧
        Served scene.copy derived start session) := by
    refine Scene.minds writes rfl roomQuiet fun tree held path given => ?_
    rw [names] at given
    cases given
  have ended : ∀ session, scene.quiet.Held scene.temporary scene.clock session ∧
      Served scene.copy derived start session → Tidy scene.layout scene.copy derived start session :=
    fun session known => tidy_of_spared shown apart (isSpared_of_quiet known.1.tree) known.2
  exact (Compiler.transform_keeps minds source label).mono
    (fun session ready => ⟨Session.Shows.mono (fun _ known => known.2) session ready.1, ready.2⟩)
    (fun _ => ended) ended

/-- A build of a text that is returned. -/
theorem buildLiteral_returns (noWrite : request.noWrite) :
    Ends (Amid fun _ => scene.Ready derived start prepared)
      (buildLiteral compiler request scene.layout)
      (fun _ => Amid fun _ => Tidy scene.layout scene.copy derived start)
      (Amid fun _ => Tidy scene.layout scene.copy derived start) := by
  unfold buildLiteral
  dsimp only
  rw [if_pos noWrite]
  refine Ends.through (fun options state => options.tsconfig = none ∧
    Amid (fun _ => scene.Ready derived start prepared) state) ?_ fun options => Ends.of_and fun names => ?_
  · exact Ends.ofAction fun _ => (CompilerOptions.ofRequest_names request scene.layout none).mono
      (fun _ ready => ready) (fun _ _ told => told) fun _ ready => Ready.tidy shown apart ready
  · refine Ends.bind (Ends.stage rfl (fun _ => Ready.silent) (fun _ _ => Tidy.silent) (fun _ => Tidy.silent)
      (Ends.ofAction fun _ => transform_tidies shown apart writes _ _ names) _ _) fun compiled => ?_
    refine .pure fun state told => ?_
    obtain ⟨given, -, tidy⟩ := told
    exact tidy

/-- A text is compiled to its output while there is a copy. -/
theorem buildLiteral_writes (admits : scene.Admits request) (isLiteral : request.isLiteral)
    (toFile : request.noWrite = false) :
    Ends (Amid fun _ => scene.Ready (Derived request scene.layout prepared) start prepared)
      (buildLiteral compiler request scene.layout)
      (fun _ => Amid fun _ => Tidy scene.layout scene.copy (Derived request scene.layout prepared) start)
      (Amid fun _ => Tidy scene.layout scene.copy (Derived request scene.layout prepared) start) := by
  unfold buildLiteral
  dsimp only
  rw [toFile, if_neg Bool.false_ne_true]
  refine Ends.through (fun place state => (request.stdinFile.getD (.proper "")).path = .ok place ∧
    Amid (fun _ => scene.Ready (Derived request scene.layout prepared) start prepared) state) ?_
    fun place => Ends.of_and fun given => ?_
  · exact Ends.ofAction fun _ => (Ends.ask _).mono (fun _ ready => ready) (fun _ _ told => told)
      fun _ told => Ready.tidy shown apart told.2
  refine Ends.through (fun copy state => copy = scene.copy ∧ Amid (fun _ session =>
      (scene.loaded (Derived request scene.layout prepared)).Held scene.temporary (scene.clock + 1) session ∧
        Served scene.copy (Derived request scene.layout prepared) start session) state) ?_
    fun copy => Ends.of_and fun same => ?_
  · exact Ends.ofAction fun _ => copyConfiguration_loads.mono (fun _ ready => ready) (fun _ _ told => told)
      fun session left => tidy_of_spared shown apart left.1 left.2
  subst copy
  let loaded : Session → Prop := fun session =>
    (scene.loaded (Derived request scene.layout prepared)).Held scene.temporary (scene.clock + 1) session ∧
      Served scene.copy (Derived request scene.layout prepared) start session
  let broken : Session → Prop := fun session => Session.Leaves scene.copying.holds session ∧
    Served scene.copy (Derived request scene.layout prepared) start session
  have silent : Silent loaded := fun session journal known =>
    ⟨Session.Shows.silent session journal known.1, Served.quiet.silent session journal known.2⟩
  have silentBroken : Silent broken := fun session journal known =>
    ⟨known.1, Served.quiet.silent session journal known.2⟩
  have breaks : ∀ session, loaded session → broken session := fun _ known => ⟨known.1.tree.1, known.2⟩
  have removes : Ends loaded (Configuration.removeCopy scene.copy)
      (fun _ => Tidy scene.layout scene.copy (Derived request scene.layout prepared) start)
      (Tidy scene.layout scene.copy (Derived request scene.layout prepared) start) :=
    (removeCopy_tidies shown apart scene.copy).mono (fun session known => ⟨rfl, breaks session known⟩)
      (fun _ _ tidy => tidy) fun _ tidy => tidy
  have absolute := Layout.resolve_isAbsolute scene.placed place
  have proper := Layout.resolve_isProper scene.placed (isProper_of_given given)
  refine Ends.through (fun _ => Amid fun _ =>
      Tidy scene.layout scene.copy (Derived request scene.layout prepared) start)
    (@Ends.closingPass Unit (fun _ => loaded) _ (fun _ _ => loaded) _ _ (fun _ => broken) _ ?_
      (fun _ _ => removes) fun _ => (removeCopy_tidies shown apart scene.copy).mono
        (fun session known => ⟨rfl, known⟩) (fun _ _ tidy => tidy) fun _ tidy => tidy) fun _ => ?_
  · refine Ends.through (fun options state => options.tsconfig = some scene.copy ∧
      Amid (fun _ => loaded) state) ?_ fun options => Ends.of_and fun names => ?_
    · exact Ends.ofAction fun _ => (CompilerOptions.ofRequest_names _ _ _).mono (fun _ known => known)
        (fun _ _ told => told) breaks
    · have built (source : String) := (Compiler.buildBuffer_keeps (loaded_minds writes names)
        (Layout.destination_isAbsolute scene.placed absolute proper)
        (Layout.destination_isProper scene.placed absolute proper)
        (admits.place place isLiteral toFile given) source (scene.layout.resolve place)).mono
        (fun _ known => known) (fun _ _ known => known) breaks
      refine Ends.discard ((Ends.stage rfl (fun _ => silent) (fun _ _ => silent) (fun _ => silentBroken)
        (Ends.ofAction fun _ => built _) _ _).mono (fun _ known => known) ?_ fun _ left => left)
      rintro answer state ⟨given, -, known⟩
      exact known
  · refine Ends.bind (Keeps.log (fun _ => Tidy.silent) _ _ _ _) fun _ => ?_
    exact .pure fun _ tidy => tidy

/-- A build of a text leaves a tidy session behind, be the text returned or written. -/
theorem buildLiteral_tidies (admits : scene.Admits request) (isLiteral : request.isLiteral)
    (isPrepared : prepared start.tree) (mode : String) :
    Ends (· = { session := start, report := { mode } }) (buildLiteral compiler request scene.layout)
      (fun _ => Amid fun _ => Tidy scene.layout scene.copy (Derived request scene.layout prepared) start)
      (Amid fun _ => Tidy scene.layout scene.copy (Derived request scene.layout prepared) start) := by
  have ready : scene.Ready (Derived request scene.layout prepared) start prepared start := by
    refine ⟨⟨⟨isPrepared, ?_⟩, shown.temporary, shown.clock⟩, Served.refl start⟩
    rw [shown.tree]
    exact admits.quiet_of_literal isLiteral
  have begun : ∀ state : BuildState, state = { session := start, report := { mode } } →
      Amid (fun _ => scene.Ready (Derived request scene.layout prepared) start prepared) state := by
    rintro _ rfl
    exact ready
  cases toFile : request.noWrite with
  | false =>
    exact (buildLiteral_writes shown apart writes admits isLiteral toFile).mono begun (fun _ _ tidy => tidy)
      fun _ tidy => tidy
  | true =>
    exact (buildLiteral_returns shown apart writes toFile).mono begun (fun _ _ tidy => tidy) fun _ tidy => tidy

end

/-! ### Whole builds -/

/-- A build that stays in the output tree leaves a tidy session behind. -/
theorem run_tidies (shown : Session.Shows (· = scene.start) scene.temporary scene.clock start)
    (apart : ∀ clock, ¬ scene.output <+: (Configuration.copyPath scene.temporary clock).parts)
    (admits : scene.Admits request.settled)
    (writes : ∀ compiler, Compiler.ofLayout tools scene.layout none start = (.ok compiler, start) →
      compiler.WritesOutputsOnly)
    (spares : request.settled.runtimeOnly = false → tools.SparesCopies scene.layout start) :
    Tidy scene.layout scene.copy
      (Derived request.settled scene.layout (Prepared request.settled scene.layout start)) start
      (run tools request scene.layout start).2 := by
  cases literal : request.settled.isLiteral with
  | false =>
    exact run_guided Tidy.silent Lost.silent (fun _ tidy => tidy) (removeCopy_tidies shown apart) literal
      ⟨rfl, Relogs.refl start⟩ (Tidy.refl start) fun compiler found =>
        guides_files shown apart admits literal (writes compiler found) spares _
  | true =>
    rcases run_cases tools request scene.layout start with
      ⟨fault, ran, -⟩ | ⟨compiler, result, state, found, -, ended, ran⟩
    · rw [ran]
      exact Tidy.refl start
    · have isPrepared : Prepared request.settled scene.layout start start.tree := by
        unfold Prepared
        rw [if_pos literal]
      have tidies := buildLiteral_tidies shown apart (writes compiler found) admits literal isPrepared
        request.settled.mode.name
      rw [if_pos literal] at ended
      rw [ran]
      rcases result with fault | outcome
      · exact tidies.refused rfl ended
      · exact tidies.answered rfl ended

end Scene

/-- The output tree of a project is not where copies of configurations are, if one of them is not. -/
theorem copy_apart {root temporary : Path} {clock : Nat}
    (notBelow : ¬ (Layout.ofRoot root).output.parts <+: (Configuration.copyPath temporary clock).parts)
    (output : (Layout.ofRoot root).output = ⟨root.anchor, root.parts ++ ["dist"]⟩) (other : Nat) :
    ¬ (Layout.ofRoot root).output.parts <+: (Configuration.copyPath temporary other).parts := by
  rw [Configuration.copyPath_eq] at notBelow ⊢
  rw [List.prefix_concat_iff] at notBelow ⊢
  rintro (same | below)
  · rw [output] at same
    have last := congrArg List.getLast? same
    rw [List.getLast?_concat, List.getLast?_concat] at last
    have letters := congrArg String.toList (Option.some.inj last)
    rw [Configuration.toList_copyName] at letters
    exact absurd letters (by simp)
  · exact notBelow (.inr below)

/-- However a build ends, the copies of configurations that lie where temporary files are are those of
before, and its own is not among them. As long as it calls the compiler, a configuration that it names is
its own copy, which can be read then and holds what the configuration of the project is derived to. All that
this takes is that the build is contained, that the compiler writes to its outputs only, and that the tools
that are called later leave the copies alone. -/
theorem run_removes_copy {tools : Toolchain} {root : Path} (absolute : root.isAbsolute)
    (plain : root.IsPlain) {request : Request} {start : Session}
    (contained : IsContained request (.ofRoot root) start)
    (writes : ∀ compiler, Compiler.ofLayout tools (.ofRoot root) none start = (.ok compiler, start) →
      compiler.WritesOutputsOnly)
    (spares : request.settled.runtimeOnly = false → tools.SparesCopies (.ofRoot root) start) :
    Tidy (.ofRoot root) (Configuration.copyPath start.temporary start.clock)
      (Derived request.settled (.ofRoot root) (Prepared request.settled (.ofRoot root) start)) start
      (run tools request (.ofRoot root) start).2 := by
  obtain ⟨placed, -, output⟩ := Layout.isPlaced_ofRoot absolute plain
  have inside : (Layout.ofRoot root).output.parts ≠ [] := by
    rw [output]
    simp
  exact @Scene.run_tidies (contained.scene placed inside) start request tools ⟨rfl, rfl, rfl⟩
    (copy_apart contained.notBelow output) (contained.admits placed inside) writes spares

/-! ### A copy that was left behind -/

/-- A project with one module, which has been built before, and the copy of some other build. -/
def leftoverSession : Session where
  tree := ⟨[(["p"], .directory), (["p", "src"], .directory), (["p", "src", "a.ts"], .file [97] false),
    (["p", "dist"], .directory), (["t"], .directory), (["t", "tsconfig.5.json"], .file [123, 125] false)]⟩
  environment := []
  directory := ⟨.root, ["p"]⟩
  temporary := ⟨.root, ["t"]⟩
  clock := 1

/-- The project with the leftover copy has no links. -/
theorem leftoverSession_unlinked (location : Location) (target : String) :
    leftoverSession.tree.get? location ≠ some (.link target) := by
  intro link
  have inside : location ≠ [] := by
    rintro rfl
    cases link
  have member := mem_entries_of_get? link inside
  simp [leftoverSession] at member

/-- The project has no links, and nothing is where the copy of its next build goes. -/
theorem leftoverSession_isContained :
    IsContained (sheetRequest "/p/src/a.ts") (.ofRoot ⟨.root, ["p"]⟩) leftoverSession where
  file path clears := by
    have given : path = Path.ofString "/p/src/a.ts" := (Except.ok.inj clears.given).symm
    have plain : path.IsPlain := by
      rw [given]
      decide
    have placed := (Layout.isPlaced_ofRoot rfl (by decide : Path.IsPlain ⟨.root, ["p"]⟩)).1
    exact Layout.destination_staysIn placed clears.absolute plain
  place place isLiteral := by cases isLiteral
  reached location target link := absurd link (leftoverSession_unlinked location target)
  unlinked := .inr fun location target link => absurd link (leftoverSession_unlinked location target)
  plain := by decide
  copyReached location target link := absurd link (leftoverSession_unlinked location target)
  notAbove := by decide
  notBelow := by decide
  free := by decide

/-- The module is built with a copy of the configuration that can be read while the compiler is called. What
is left afterwards is the other copy. -/
theorem run_removes_copy_of_module :
    let final := (run plainCompiler.toolchain (sheetRequest "/p/src/a.ts") (.ofRoot ⟨.root, ["p"]⟩)
      leftoverSession).2
    final.tree.contentAt? ["t", "tsconfig.1.json"] = none ∧
      final.tree.contentAt? ["t", "tsconfig.5.json"] = some [123, 125] ∧
      final.tree.contentAt? ["p", "dist", "a.js"] = some [97] ∧
      final.invocations.map (fun call => (call.1.settings.lookup "tsconfig",
        (call.2.read ⟨.root, ["t", "tsconfig.1.json"]⟩).toOption.isSome)) =
          [(some "/t/tsconfig.1.json", true)] := by
  have plain : Path.IsPlain ⟨.root, ["p"]⟩ := by decide
  have writes (compiler : Compiler) (found : Compiler.ofLayout plainCompiler.toolchain
      (.ofRoot ⟨.root, ["p"]⟩) none leftoverSession = (.ok compiler, leftoverSession)) :
      compiler.WritesOutputsOnly := by
    have own : Ends (· = leftoverSession)
        (Compiler.ofLayout plainCompiler.toolchain (.ofRoot ⟨.root, ["p"]⟩) none)
        (fun compiler session => (compiler.tools = plainCompiler.toolchain ∧
          compiler.layout = .ofRoot ⟨.root, ["p"]⟩) ∧ session = leftoverSession) (· = leftoverSession) :=
      Compiler.ofLayout_ends _ _
    have same : compiler.tools = plainCompiler.toolchain := (own.answered rfl found).1.1
    exact Toolchain.WritesOutputsOnly.compiler (same ▸ plainCompiler.toolchain_writesOutputsOnly)
  have tidy := run_removes_copy rfl plain leftoverSession_isContained writes fun goesOn => by cases goesOn
  exact ⟨tidy.copies 1, tidy.copies 5, by decide +kernel⟩

/-- Given by way of the directories above the project, the other copy is removed in place of an output. -/
theorem run_removes_other_copy :
    plainCompiler.toolchain.WritesOutputsOnly ∧
      (sheetRequest "/p/src/../../t/tsconfig.5.json").fault? = none ∧
      leftoverSession.tree.get?
        (Configuration.copyPath leftoverSession.temporary leftoverSession.clock).parts = none ∧
      leftoverSession.tree.contentAt? (Configuration.copyPath leftoverSession.temporary 5).parts =
        some [123, 125] ∧
      (run plainCompiler.toolchain (sheetRequest "/p/src/../../t/tsconfig.5.json")
        (.ofRoot ⟨.root, ["p"]⟩) leftoverSession).2.tree.contentAt?
          (Configuration.copyPath leftoverSession.temporary 5).parts = none := by
  exact ⟨plainCompiler.toolchain_writesOutputsOnly, by decide +kernel⟩

end Build

end TreeBuild
