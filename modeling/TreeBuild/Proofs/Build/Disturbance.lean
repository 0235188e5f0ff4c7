import TreeBuild.Proofs.Build.Handing
import TreeBuild.Proofs.Build.Interruption

/-!
# Interruptions come from tools, and are passed on

Nothing in a build raises an interruption by itself, and nothing swallows one: a build ends with an
interruption if a call of a tool was interrupted, and only then. What a build does behind an interrupted call
is to remove the copy of the configuration, and it is the failure of this that may take the place of the
interruption.

So a computation is candid if it tells of every interrupted call. All steps of a build are candid, and with
them every build, whatever the tools do.
-/
namespace TreeBuild

open TreeBuild.Build

/-- Whether a call of a tool ended because the user interrupted it. -/
def ToolOutcome.isInterruption : ToolOutcome → Bool
  | .interrupted => true
  | .broken fault => fault.isInterruption
  | .finished _ _ _ => false

/-- The call was interrupted. -/
def Toolchain.Interrupts (tools : Toolchain) (call : Invocation × Tree) : Prop :=
  (tools.run call.1 call.2).1.isInterruption

instance (tools : Toolchain) (call : Invocation × Tree) : Decidable (tools.Interrupts call) :=
  inferInstanceAs (Decidable (_ = true))

/-- None of the calls that were made was interrupted. -/
def Session.IsUndisturbed (tools : Toolchain) (session : Session) : Prop :=
  ∀ call ∈ session.invocations, ¬ tools.Interrupts call

/-- The last call was interrupted, and the tree is as that call has left it. -/
def Session.IsStruck (tools : Toolchain) (session : Session) : Prop :=
  ∃ call ∈ session.invocations, tools.Interrupts call ∧ session.tree = (tools.run call.1 call.2).2

/-- A fault tells whether a call was interrupted. -/
def Reveals (tools : Toolchain) (fault : Fault) (session : Session) : Prop :=
  fault.isInterruption = false ∧ session.IsUndisturbed tools ∨ fault.isInterruption ∧ session.IsStruck tools

/-- A computation that answers only if none of its calls was interrupted, and that otherwise tells of it. -/
abbrev Candid {Answer : Type} (tools : Toolchain) (action : Action Answer) : Prop :=
  Concludes (Session.IsUndisturbed tools) action (fun _ => Session.IsUndisturbed tools) (Reveals tools)

/-- Whether a session is undisturbed depends on its calls alone. -/
theorem Session.IsUndisturbed.quiet {tools : Toolchain} : Quiet (Session.IsUndisturbed tools) :=
  fun _ _ _ _ undisturbed => undisturbed

/-- Whether a fault reveals an interruption does not depend on the log. -/
theorem Reveals.silent {tools : Toolchain} {fault : Fault} : Silent (Reveals tools fault) := by
  rintro session journal (mild | struck)
  · exact .inl mild
  · exact .inr struck

namespace Candid

section

variable {Answer Result Item : Type} {tools : Toolchain} {action other : Action Answer}

/-- What calls no tool is candid. -/
theorem of_calm (calm : Calm action) (kept : Keeps (Session.IsUndisturbed tools) action) :
    Candid tools action := by
  refine ⟨fun session undisturbed => ?_⟩
  have mild := calm session
  have ended := kept.outcome session undisturbed
  rcases ran : action session with ⟨fault | answer, after⟩
  · rw [ran] at mild ended
    exact .inl ⟨mild fault rfl, ended⟩
  · rw [ran] at ended
    exact ended

/-- An answer that is there already calls no tool. -/
theorem pure {answer : Answer} : Candid tools (Pure.pure answer : Action Answer) :=
  Concludes.pure fun _ holds => holds

/-- What is done after a candid computation is candid together with it. -/
theorem bind {next : Answer → Action Result} (first : Candid tools action)
    (second : ∀ answer, Candid tools (next answer)) : Candid tools (action >>= next) :=
  Concludes.bind first second

/-- A candid computation stays so if its answer is not used. -/
theorem discard (candid : Candid tools action) : Candid tools (discard action) :=
  Concludes.discard candid

/-- A choice between two candid computations is candid. -/
theorem either {guard : Prop} [Decidable guard] (first : Candid tools action) (second : Candid tools other) :
    Candid tools (if guard then action else other) := by
  split
  · exact first
  · exact second

/-- A question to the tree calls no tool. -/
theorem ask {question : Tree → Except Fault Answer} (calm : ∀ tree, CalmResult (question tree)) :
    Candid tools (Action.ask question) :=
  of_calm (.ask calm) (.ask _)

/-- A question whose refusal is a fault of a file calls no tool. -/
theorem askFiles (question : Tree → Except FileFault Answer) : Candid tools (Action.askFiles question) :=
  of_calm (.askFiles _) (.askFiles _)

/-- A change of the tree calls no tool. -/
theorem alterFiles (change : Tree → Except FileFault Unit × Tree) : Candid tools (Action.alterFiles change) :=
  of_calm (.alterFiles _) (Session.IsUndisturbed.quiet.alterFiles _)

/-- A record of the log calls no tool. -/
theorem record (source : String) (level : Level) (message : String) :
    Candid tools (Action.record source level message) :=
  of_calm (.record _ _ _) (.record Session.IsUndisturbed.quiet.silent _ _ _)

/-- A call of a tool: where it was interrupted or has no outcome, what follows passes that on. -/
theorem call_bind {invocation : Invocation} {next : ToolOutcome → Action Result}
    {after : Result → Session → Prop}
    (interrupted : next .interrupted = throw .interrupted) (broken : ∀ fault, next (.broken fault) = throw fault)
    (finished : ∀ status output errors,
      Concludes (fun session => session.IsUndisturbed tools ∧ ∃ call ∈ session.invocations,
        (tools.run call.1 call.2).1 = .finished status output errors)
        (next (.finished status output errors)) after (Reveals tools)) :
    Concludes (Session.IsUndisturbed tools) (Action.call tools invocation >>= next) after (Reveals tools) := by
  have called : Concludes (Session.IsUndisturbed tools) (Action.call tools invocation)
      (fun outcome session => (∃ call ∈ session.invocations, (tools.run call.1 call.2).1 = outcome) ∧
        (outcome.isInterruption = false ∧ session.IsUndisturbed tools ∨
          outcome.isInterruption ∧ session.IsStruck tools)) (Reveals tools) := by
    refine ⟨fun session undisturbed => ?_⟩
    have last : (invocation, session.tree) ∈ session.invocations ++ [(invocation, session.tree)] := by simp
    refine ⟨⟨_, last, rfl⟩, ?_⟩
    cases struck : (tools.run invocation session.tree).1.isInterruption with
    | true => exact .inr ⟨rfl, _, last, struck, rfl⟩
    | false =>
      refine .inl ⟨rfl, List.forall_mem_append.mpr ⟨undisturbed, fun call member => ?_⟩⟩
      rw [List.mem_singleton.mp member]
      simp [Toolchain.Interrupts, struck]
  refine called.bind fun outcome => ?_
  cases outcome with
  | interrupted =>
    rw [interrupted]
    refine Concludes.throw fun session told => ?_
    obtain ⟨-, ⟨impossible, -⟩ | struck⟩ := told
    · cases impossible
    · exact .inr struck
  | broken fault =>
    rw [broken]
    exact Concludes.throw fun session told => told.2
  | finished status output errors =>
    refine (finished status output errors).mono (fun session told => ?_) (fun _ _ holds => holds)
      fun _ _ known => known
    obtain ⟨call, ⟨-, undisturbed⟩ | ⟨impossible, -⟩⟩ := told
    · exact ⟨undisturbed, call⟩
    · cases impossible

/-- Several computations tell of an interruption as soon as there is one. -/
theorem settle {actions : List (Action Answer)} (each : ∀ action ∈ actions, Candid tools action) :
    Concludes (Session.IsUndisturbed tools) (Action.settle actions)
      (fun results session => (∀ result ∈ results, CalmResult result) ∧ session.IsUndisturbed tools)
      (Reveals tools) := by
  induction actions with
  | nil => exact Concludes.pure fun _ holds => ⟨by simp, holds⟩
  | cons action rest inductionHypothesis =>
    have others := inductionHypothesis fun other member => each other (List.mem_cons_of_mem _ member)
    have first : Concludes (Session.IsUndisturbed tools) (Action.attempt action)
        (fun result session => CalmResult result ∧ session.IsUndisturbed tools ∨
          result = .error .interrupted ∧ session.IsStruck tools) (Reveals tools) := by
      refine ⟨fun session undisturbed => ?_⟩
      have ended := (each action List.mem_cons_self).outcome session undisturbed
      unfold Action.attempt
      rcases ran : action session with ⟨fault | answer, after⟩
      · rw [ran] at ended
        rcases ended with ⟨mild, kept⟩ | ⟨interrupted, struck⟩
        · exact .inl ⟨.error mild, kept⟩
        · cases fault with
          | interrupted => exact .inr ⟨rfl, struck⟩
          | _ => cases interrupted
      · rw [ran] at ended
        exact .inl ⟨.ok, ended⟩
    unfold Action.settle
    refine first.bind fun result => ?_
    split
    · refine Concludes.throw fun session told => ?_
      rcases told with ⟨mild, -⟩ | ⟨-, struck⟩
      · cases mild .interrupted rfl
      · exact .inr ⟨rfl, struck⟩
    · rename_i other
      refine ⟨fun session told => ?_⟩
      rcases told with ⟨mild, undisturbed⟩ | ⟨impossible, -⟩
      · refine Concludes.outcome (Concludes.bind others fun results => Concludes.pure fun _ known => ?_)
          session undisturbed
        exact ⟨List.forall_mem_cons.mpr ⟨mild, known.1⟩, known.2⟩
      · exact absurd impossible other

/-- Candid computations are candid together. -/
theorem all {actions : List (Action Answer)} (each : ∀ action ∈ actions, Candid tools action) :
    Candid tools (Action.all actions) := by
  refine (settle each).bind fun results => ?_
  split
  · exact Concludes.pure fun _ known => known.2
  · rename_i fault told
    exact Concludes.throw fun _ known => .inl ⟨CalmResult.allOrFirst known.1 fault told, known.2⟩

end

/-! ### The compiler -/

section

variable {tools : Toolchain} {compiler : Compiler} (own : compiler.tools = tools)

include own

/-- The compiler answers what it wrote in one of its calls, which had status zero. -/
theorem compilerRun_tells (arguments : List String) (input : Option String) (directory : Path) :
    Concludes (Session.IsUndisturbed tools) (compiler.run arguments input directory)
      (fun output session => session.IsUndisturbed tools ∧ ∃ call ∈ session.invocations, ∃ errors,
        (tools.run call.1 call.2).1 = .finished 0 output errors) (Reveals tools) := by
  subst own
  refine call_bind rfl (fun _ => rfl) fun status output errors => ?_
  dsimp only
  split
  · exact ⟨fun session told => .inl ⟨rfl, told.1⟩⟩
  · rename_i success
    obtain rfl : status = 0 := by simpa using success
    split
    · refine Concludes.bind (Concludes.modify (fun session => session.IsUndisturbed compiler.tools ∧
        ∃ call ∈ session.invocations, (compiler.tools.run call.1 call.2).1 = .finished 0 output errors)
        fun _ told => told) fun _ => ?_
      exact Concludes.pure fun session ⟨undisturbed, call, member, told⟩ =>
        ⟨undisturbed, call, member, errors, told⟩
    · exact Concludes.pure fun session ⟨undisturbed, call, member, told⟩ =>
        ⟨undisturbed, call, member, errors, told⟩

/-- A call of the compiler tells of its interruption. -/
theorem compilerRun (arguments : List String) (input : Option String) (directory : Path) :
    Candid tools (compiler.run arguments input directory) :=
  (compilerRun_tells own arguments input directory).mono (fun _ holds => holds) (fun _ _ told => told.1)
    fun _ _ told => told

/-- So does a call that compiles a text to a file. -/
theorem buildBuffer (source : String) (sourceFile outFile : Path) (options : CompilerOptions) :
    Candid tools (compiler.buildBuffer source sourceFile outFile options) :=
  (askFiles _).bind fun _ => (compilerRun own _ _ _).discard

/-- A compilation tells of the interruption of any of its calls. -/
theorem compile (options : CompilerOptions) (layout : Layout) (files : List SourceFile) :
    Candid tools (Build.compile compiler options layout files) := by
  have plain (paths : List Path) : Candid tools (compiler.buildEntryPoints paths options layout) :=
    either pure (compilerRun own _ _ _).discard
  have markup (file : SourceFile) : Candid tools (Build.compileMarkup compiler options layout file) :=
    (of_calm (.readText _) (.readText _)).bind fun _ => (buildBuffer own _ _ _ _).bind fun _ => pure
  refine Concludes.bind (settle fun action member => ?_) fun plainResults => Concludes.of_and fun plainKnown =>
    Concludes.bind (settle fun action member => ?_) fun markupResults => Concludes.of_and fun markupKnown => ?_
  · obtain rfl := List.mem_singleton.mp member
    exact (plain _).bind fun _ => pure
  · obtain ⟨file, -, rfl⟩ := List.mem_map.mp member
    exact markup file
  · have joined : CalmResult ((Action.allOrFirst plainResults).map List.flatten) :=
      (CalmResult.allOrFirst plainKnown).bind fun _ => .ok
    have verdict : CalmResult (Build.verdict markupResults ((Action.allOrFirst plainResults).map List.flatten)) :=
      (CalmResult.allOrFirst markupKnown).bind fun _ => joined.bind fun _ => .ok
    split
    · exact pure
    · rename_i fault told
      exact Concludes.throw fun _ undisturbed => .inl ⟨verdict fault told, undisturbed⟩

end

/-! ### The tools behind it -/

section

variable {tools : Toolchain}

/-- A call of a tool of the project tells of its interruption. -/
theorem runTool (layout : Layout) (name : String) (arguments : List String) :
    Candid tools (Auxiliary.runTool tools layout name arguments) := by
  refine bind (of_calm (.find _ _) (Tools.find_keeps _ _)) fun program =>
    call_bind rfl (fun _ => rfl) fun status output errors => ?_
  dsimp only
  split
  · exact Concludes.pure fun _ told => told.1
  · exact Concludes.throw fun _ told => .inl ⟨rfl, told.1⟩

/-- Processing the style sheets tells of interruptions. -/
theorem bundleStyles (request : Request) (layout : Layout) :
    Candid tools (Build.bundleStyles tools request layout) := by
  have sheet (entry output : Path) :
      Candid tools (Auxiliary.buildStylesheet tools layout request.isDevelopment entry output) :=
    (alterFiles _).bind fun _ => (runTool _ _ _).discard.bind fun _ => pure
  have emitted : Candid tools (Auxiliary.emittedStylesheets layout) := (askFiles _).bind fun _ => pure
  refine (ask fun _ => CalmResult.path request.styles).bind fun entry => (askFiles _).bind fun _ =>
    either ?_ ((record _ _ _).bind fun _ => pure)
  refine (of_calm (.descriptorPath _ _ _) stylesheetPath_keeps).bind fun _ => (sheet _ _).bind fun _ =>
    either ?_ pure
  refine emitted.bind fun paths => (all fun action member => ?_).bind fun _ => pure
  obtain ⟨path, -, rfl⟩ := List.mem_map.mp member
  exact sheet path path

/-- Packing the binaries tells of interruptions. -/
theorem buildBinaries (layout : Layout) (targets : Option String) :
    Candid tools (Auxiliary.buildBinaries tools layout targets) := by
  refine bind (of_calm (.binaryEntry _) (binaryEntry_keeps _)) fun _ => (askFiles _).bind fun _ => either ?_ ?_
  · refine (record _ _ _).bind fun _ => bind (of_calm .get .get) fun _ => ?_
    exact (runTool _ _ _).discard.bind fun _ => pure
  · exact of_calm (.throw rfl) .throw

/-- Writing the declarations tells of interruptions. -/
theorem writeDeclarations (request : Request) (layout : Layout) :
    Candid tools (Build.writeDeclarations tools request layout) := by
  refine (ask fun _ => CalmResult.path request.tsconfig).bind fun _ => (askFiles _).bind fun _ => ?_
  exact (runTool _ _ _).discard.bind fun _ => (askFiles _).bind fun _ => pure

end

end Candid

/-! ### The steps of a build -/

/-- A copy of a configuration can be removed, or it is already gone. -/
def Configuration.isRemovable (tree : Tree) (copy : Path) : Bool :=
  match tree.unlink copy with
  | .ok _ | .error (.refused .noEntry _) => true
  | .error _ => false

namespace Build

section

variable {tools : Toolchain} {compiler : Compiler} {request : Request} {layout : Layout}
  {start session : Session} {done all : List Step} {endings : List Ending} {work : Work} {fault : Fault}

/-- Every step tells of interruptions. -/
theorem Step.effect_candid (own : compiler.tools = tools) (step : Step) (work : Work) :
    Candid tools (step.effect tools compiler request layout work) := by
  have quiet : Quiet (Session.IsUndisturbed tools) := Session.IsUndisturbed.quiet
  cases step with
  | copyConfiguration =>
    exact Candid.bind (.of_calm (.copyConfiguration _ _) (quiet.copyConfiguration _ _)) fun _ => .pure
  | chooseOptions =>
    exact Candid.bind (.of_calm (.ofRequest _ _ _) (CompilerOptions.ofRequest_keeps _ _ _)) fun _ => .pure
  | removeCopy =>
    unfold Step.effect
    dsimp only
    split
    · exact Candid.bind (.of_calm (.removeCopy _) (quiet.removeCopy _)) fun _ => .pure
    · exact .pure
  | stage named =>
    cases named with
    | clearing => exact Candid.bind (.of_calm (.clear _ _) (quiet.buildClear _ _)) fun _ => .pure
    | classifying => exact Candid.bind (.of_calm (.discoverInput _ _) (.ask _)) fun _ => .pure
    | compiling =>
      unfold Step.effect
      dsimp only
      split
      · exact (Candid.compile own _ _ _).bind fun _ => .pure
      · exact .pure
    | copyingAssets => exact Candid.bind (.of_calm (.copyAssets _ _) (quiet.copyAssets _ _)) fun _ => .pure
    | normalizing =>
      exact Candid.bind (.of_calm (.normalizeFiles _ _) (quiet.normalizeFiles _ _)) fun _ => .pure
    | patchingMetadata => exact Candid.bind (.of_calm (.patchType _ _) (quiet.patchType _ _)) fun _ => .pure
    | styles => exact (Candid.bundleStyles _ _).bind fun _ => .pure
    | binaries => exact (Candid.buildBinaries _ _).bind fun _ => .pure
    | declarations => exact (Candid.writeDeclarations _ _).bind fun _ => .pure
    | _ => exact .pure

/-- While steps are taken, no call has been interrupted: an interruption would have ended the build. -/
theorem Leads.undisturbed (own : compiler.tools = tools) (fresh : start.IsUndisturbed tools)
    (leads : Leads (Step.effect tools compiler request layout) start done endings work session) :
    session.IsUndisturbed tools := by
  induction leads with
  | start => exact fresh
  | @passed _ _ work _ _ taken _ step _ relogs does inductionHypothesis =>
    have before : taken.IsUndisturbed tools := by
      obtain ⟨journal, rfl⟩ := relogs
      exact inductionHypothesis
    exact (step.effect_candid own work).answered before does
  | @endured _ _ work _ taken _ _ stage _ relogs does _ mild inductionHypothesis =>
    have before : taken.IsUndisturbed tools := by
      obtain ⟨journal, rfl⟩ := relogs
      exact inductionHypothesis
    rcases (Step.effect_candid own (.stage stage) work).refused before does with ⟨-, kept⟩ | ⟨interrupted, -⟩
    · exact kept
    · cases mild.symm.trans interrupted

/-- The copy of a configuration lies where temporary files are written, under the number that the clock says. -/
theorem copyConfiguration_names (temporary : Path) (clock : Nat) :
    Ends (fun session => session.temporary = temporary ∧ session.clock = clock)
      (copyConfiguration request layout)
      (fun copy _ => copy = Configuration.copyPath temporary clock) fun _ => True := by
  refine ((Ends.ask _).mono (fun _ same => same) (fun _ _ told => told.2) fun _ _ => trivial).bind fun path => ?_
  unfold Configuration.makeCopy
  refine Ends.get.bind fun session => Ends.of_forall fun state ⟨same, lies, reads⟩ => ?_
  subst same lies reads
  refine Ends.bind (Ends.any _) fun _ => Ends.bind (Ends.any _) fun value => Ends.bind (Ends.any _) fun _ => ?_
  exact .pure fun _ _ => rfl

/-- A step that makes no copy of the configuration hands on the one that there is, if any. -/
theorem Step.effect_copy {step : Step} (other : step ≠ .copyConfiguration) (work : Work) :
    Ends (fun _ => True) (step.effect tools compiler request layout work)
      (fun next _ => next.copy = work.copy ∨ next.copy = none) fun _ => True := by
  have handsOn {Answer : Type} (action : Action Answer) (add : Answer → Work)
      (same : ∀ answer, (add answer).copy = work.copy ∨ (add answer).copy = none) :
      Ends (fun _ => True) (do return add (← action))
        (fun next _ => next.copy = work.copy ∨ next.copy = none) fun _ => True :=
    (Ends.any action).bind fun answer => .pure fun _ _ => same answer
  have nothing : Ends (fun _ : Session => True) (pure work)
      (fun next _ => next.copy = work.copy ∨ next.copy = none) fun _ => True := .pure fun _ _ => .inl rfl
  cases step with
  | copyConfiguration => exact absurd rfl other
  | chooseOptions => exact handsOn _ _ fun _ => .inl rfl
  | removeCopy =>
    unfold Step.effect
    dsimp only
    split
    · exact handsOn _ _ fun _ => .inr rfl
    · exact nothing
  | stage named =>
    cases named with
    | compiling =>
      unfold Step.effect
      dsimp only
      split
      · exact handsOn _ _ fun _ => .inl rfl
      · exact nothing
    | idle | done | failed => exact nothing
    | _ => exact handsOn _ _ fun _ => .inl rfl

/-- The steps that are taken before the configuration is copied. -/
def earlySteps : List Step := [.stage .clearing, .stage .classifying]

/-- Before the configuration is copied, no step reads the clock. -/
theorem Leads.clock (leads : Leads (Step.effect tools compiler request layout) start done endings work session)
    (early : ∀ step ∈ done, step ∈ earlySteps) :
    session.temporary = start.temporary ∧ session.clock = start.clock := by
  have clears : Keeps (fun session => session.temporary = start.temporary ∧ session.clock = start.clock)
      (clear request layout) := by
    refine (Keeps.ask _).bind fun single => ?_
    split
    · refine (Keeps.ask _).bind fun path => ?_
      split
      · refine Keeps.discard ?_
        refine Keeps.get.bind fun session => ?_
        split
        · exact Keeps.bind (Ends.modify _ fun _ same => same) fun _ => .pure
        · exact .pure
        · exact .throw
      · exact .pure
    · split
      · refine (Keeps.askFiles _).bind fun present => ?_
        split
        · exact Ends.alterFiles (fun _ same _ => same) fun _ same => same
        · exact .pure
      · exact .pure
  induction leads with
  | start => exact ⟨rfl, rfl⟩
  | @passed _ _ work _ _ taken left step _ relogs does inductionHypothesis =>
    obtain ⟨front, last⟩ := List.forall_mem_append.mp early
    have before : taken.temporary = start.temporary ∧ taken.clock = start.clock := by
      obtain ⟨journal, rfl⟩ := relogs
      exact inductionHypothesis front
    have kept : Keeps (fun session => session.temporary = start.temporary ∧ session.clock = start.clock)
        (step.effect tools compiler request layout work) := by
      have isEarly := last step List.mem_cons_self
      simp only [earlySteps, List.mem_cons, List.not_mem_nil, or_false] at isEarly
      rcases isEarly with rfl | rfl
      · exact clears.bind fun _ => .pure
      · exact Keeps.bind (.ask _) fun _ => .pure
    exact kept.answered before does
  | endured stage _ _ _ optional =>
    have last := early (.stage stage) (by simp)
    simp only [earlySteps, List.mem_cons, List.not_mem_nil, or_false, Step.stage.injEq] at last
    rcases last with rfl | rfl <;> cases optional

/-- Nothing but early steps stands before the copying of the configuration. -/
def CopiesEarly (done : List Step) : Prop :=
  ∀ front back, done = front ++ .copyConfiguration :: back → ∀ step ∈ front, step ∈ earlySteps

/-- If copies are made early, they are so in every first part of the steps. -/
theorem CopiesEarly.front {back : List Step} (copies : CopiesEarly (done ++ back)) : CopiesEarly done :=
  fun front rest split => copies front (rest ++ back) (by rw [split]; simp)

/-- The configuration is copied once, behind the early steps. -/
theorem copiesEarly_steps (request : Request) (environment : Environment) :
    CopiesEarly (steps request environment) := by
  intro front back split step member
  obtain ⟨others, whole, once⟩ : ∃ others,
      steps request environment = earlySteps ++ .copyConfiguration :: others ∧
        Step.copyConfiguration ∉ others := by
    refine ⟨_, rfl, ?_⟩
    split_ifs <;> simp
  rw [whole] at split
  rcases List.append_eq_append_iff.mp split with ⟨more, rfl, behind⟩ | ⟨more, same, -⟩
  · cases more with
    | nil => simpa using member
    | cons first rest =>
      rw [List.cons_append, List.cons.injEq] at behind
      exact absurd (behind.2 ▸ List.mem_append_right rest List.mem_cons_self) once
  · rw [same]
    exact List.mem_append_left _ member

/-- A copy of the configuration that is there while steps are taken lies where the clock says at the start. -/
theorem Leads.copy (leads : Leads (Step.effect tools compiler request layout) start done endings work session)
    (copies : CopiesEarly done) :
    ∀ copy, work.copy = some copy → copy = Configuration.copyPath start.temporary start.clock := by
  induction leads with
  | start => exact nofun
  | @passed _ _ work next _ taken left step leads relogs does inductionHypothesis =>
    intro copy there
    by_cases isCopy : step = .copyConfiguration
    · subst isCopy
      have before : taken.temporary = start.temporary ∧ taken.clock = start.clock := by
        obtain ⟨journal, rfl⟩ := relogs
        exact leads.clock (copies _ [] rfl)
      have named : Ends (fun session => session.temporary = start.temporary ∧ session.clock = start.clock)
          (Step.effect tools compiler request layout .copyConfiguration work)
          (fun next _ => next.copy = some (Configuration.copyPath start.temporary start.clock)) fun _ => True :=
        (copyConfiguration_names start.temporary start.clock).bind fun made => .pure fun _ same => same ▸ rfl
      exact Option.some.inj (there.symm.trans (named.answered before does))
    · rcases (Step.effect_copy isCopy work).answered trivial does with same | none
      · exact inductionHypothesis copies.front copy (same.symm.trans there)
      · cases none.symm.trans there
  | endured stage _ _ _ _ _ inductionHypothesis => exact inductionHypothesis copies.front

end

end Build

/-! ### Whole builds -/

/-- A computation that has failed accounts for the calls that were interrupted: there is one if the fault is
an interruption, and if there is one, then the fault is an interruption unless such a call has left the copy
of the configuration behind so that it cannot be removed. -/
structure Accounts (tools : Toolchain) (copy : Path) (fault : Fault) (session : Session) : Prop where
  tells : fault.isInterruption → ∃ call ∈ session.invocations, tools.Interrupts call
  told : fault.isInterruption = false → session.IsUndisturbed tools ∨
    ∃ call ∈ session.invocations, tools.Interrupts call ∧
      Configuration.isRemovable (tools.run call.1 call.2).2 copy = false

section

variable {tools : Toolchain} {copy : Path} {fault : Fault} {session : Session}

/-- What reveals an interruption also accounts for what has happened. -/
theorem Reveals.accounts (reveals : Reveals tools fault session) : Accounts tools copy fault session := by
  rcases reveals with ⟨mild, undisturbed⟩ | ⟨interrupted, call, member, struck, -⟩
  · exact ⟨fun interrupted => absurd (mild.symm.trans interrupted) (by decide), fun _ => .inl undisturbed⟩
  · exact ⟨fun _ => ⟨call, member, struck⟩, fun mild => absurd (mild.symm.trans interrupted) (by decide)⟩

/-- The removal of a copy answers where the copy can be removed or is gone. Apart from the tree it leaves
everything as it is. -/
theorem removeCopy_apply (copy : Path) (session : Session) :
    ∃ result tree, Configuration.removeCopy copy session = (result, { session with tree }) ∧
      CalmResult result ∧ (result = .ok () ↔ Configuration.isRemovable session.tree copy) := by
  unfold Configuration.removeCopy Configuration.isRemovable Action.changeFiles Action.askFiles
  rw [bind_apply, Action.ask_apply]
  dsimp only
  rcases session.tree.unlink copy with fault | tree
  · cases fault with
    | refused refusal path =>
      cases refusal with
      | noEntry => exact ⟨.ok (), session.tree, rfl, .ok, by simp⟩
      | _ => exact ⟨_, session.tree, rfl, .error rfl, by simp⟩
    | _ => exact ⟨_, session.tree, rfl, .error rfl, by simp⟩
  · exact ⟨.ok (), tree, rfl, .ok, by simp⟩

/-- When the copy of the configuration has been removed behind a fault, what has happened is accounted for. -/
theorem removeCopy_accounts (copy : Path) (cause : Fault) :
    Concludes (Reveals tools cause) (Configuration.removeCopy copy)
      (fun _ => Accounts tools copy cause) (Accounts tools copy) := by
  refine ⟨fun session reveals => ?_⟩
  obtain ⟨result, tree, ran, mild, removes⟩ := removeCopy_apply copy session
  rw [ran]
  have known : Accounts tools copy cause session := reveals.accounts
  rcases result with refusal | done
  · have calm : refusal.isInterruption = false := mild refusal rfl
    refine ⟨fun interrupted => absurd (calm.symm.trans interrupted) (by decide), fun _ => ?_⟩
    rcases reveals with ⟨-, undisturbed⟩ | ⟨-, call, member, struck, left⟩
    · exact .inl undisturbed
    · refine .inr ⟨call, member, struck, ?_⟩
      rw [← left, Bool.eq_false_iff]
      exact fun removable => nomatch removes.mpr removable
  · exact ⟨known.tells, known.told⟩

/-- However a build of files fails, what has happened is accounted for. -/
theorem accounts_of_fails {compiler : Compiler} {request : Request} {layout : Layout} {start : Session}
    (own : compiler.tools = tools) (fresh : start.IsUndisturbed tools)
    (fails : Fails (Step.effect tools compiler request layout) start (steps request start.environment) fault
      session) :
    Accounts tools (Configuration.copyPath start.temporary start.clock) fault session := by
  obtain @⟨pending, cause, left, ended, stops, again, abandons⟩ := fails
  generalize whole : steps request start.environment = all at stops
  obtain @⟨done, rest, endings, work, before, taken, left, cause, step, leads, relogs, does, -⟩ := stops
  have undisturbed : taken.IsUndisturbed tools := by
    have kept := leads.undisturbed own fresh
    obtain ⟨journal, rfl⟩ := relogs
    exact kept
  have reveals : Reveals tools cause ended := by
    obtain ⟨journal, rfl⟩ := again
    exact Reveals.silent left journal ((step.effect_candid own work).refused undisturbed does)
  have copies : CopiesEarly (done ++ step :: rest) := whole ▸ copiesEarly_steps request start.environment
  have named : ∀ copy, step.pending work = some copy →
      copy = Configuration.copyPath start.temporary start.clock := by
    intro copy there
    cases step with
    | removeCopy => cases there
    | _ => exact leads.copy copies.front copy there
  generalize step.pending work = pending at named abandons
  cases abandons with
  | plain => exact reveals.accounts
  | removed _ does => exact named _ rfl ▸ (removeCopy_accounts _ _).answered reveals does
  | refused _ does => exact named _ rfl ▸ (removeCopy_accounts _ _).refused reveals does

end

namespace Build

/-- The outcome that a request asks for: a report that tells of success, the text that the compiler wrote, or
the compiled text in a file. -/
inductive Fulfils (tools : Toolchain) (request : Request) (session : Session) : Outcome → Prop where
  | built {report : Report} (files : request.isLiteral = false) (done : report.isOk) :
      Fulfils tools request session (.report report)
  | compiled {text errors : String} {call : Invocation × Tree} (literal : request.isLiteral)
      (kept : request.noWrite) (made : call ∈ session.invocations)
      (wrote : (tools.run call.1 call.2).1 = .finished 0 text errors) :
      Fulfils tools request session (.text text)
  | written (literal : request.isLiteral) (writes : request.noWrite = false) :
      Fulfils tools request session .written

section

variable {tools : Toolchain} {compiler : Compiler} {request : Request} {layout : Layout} {temporary : Path}
  {clock : Nat}

/-- What an action does in a build it does to the session alone. -/
theorem concludes_ofAction {Answer : Type} {action : Action Answer} {before : Session → Prop}
    {after : Answer → Session → Prop} {failed : Fault → Session → Prop}
    (ends : Concludes before action after failed) :
    Concludes (fun state => before state.session) (Pass.ofAction action)
      (fun answer state => after answer state.session) fun fault state => failed fault state.session := by
  refine ⟨fun state holds => ?_⟩
  have known := ends.outcome state.session holds
  unfold Pass.ofAction
  rcases ran : action state.session with ⟨fault | answer, after⟩
  · rw [ran] at known
    exact known
  · rw [ran] at known
    exact known

/-- A stage that has to succeed tells of interruptions as its body does. -/
theorem stage_candid {Answer : Type} {action : Action Answer} {after : Answer → Session → Prop}
    {stage : Stage} (required : stage.isRequired) (silent : ∀ answer, Silent (after answer))
    (ends : Concludes (Session.IsUndisturbed tools) action after (Reveals tools))
    (context : List (String × Json)) (texts : StageTexts) :
    Concludes (fun state => state.session.IsUndisturbed tools)
      (Pass.stage context stage texts (Pass.ofAction action))
      (fun answer state => ∃ given, answer = some given ∧ after given state.session)
      fun fault state => Reveals tools fault state.session := by
  refine Concludes.stage (concludes_ofAction ends) (fun _ holds => holds)
    (fun answer state holds => ⟨answer, rfl, silent answer _ _ holds⟩) (fun _ _ reveals _ => reveals)
    fun fault state journal reveals _ => ?_
  simpa only [required, if_true] using Reveals.silent state.session journal reveals

/-- A build of a text ends as its request asks for, or accounts for what has happened. -/
theorem buildLiteral_accounts (own : compiler.tools = tools) (literal : request.isLiteral) :
    Concludes (fun state => state.session.IsUndisturbed tools ∧
        state.session.temporary = temporary ∧ state.session.clock = clock)
      (buildLiteral compiler request layout)
      (fun outcome state => Fulfils tools request state.session outcome ∧ state.session.IsUndisturbed tools)
      fun fault state => Accounts tools (Configuration.copyPath temporary clock) fault state.session := by
  have quiet : Quiet (Session.IsUndisturbed tools) := Session.IsUndisturbed.quiet
  unfold buildLiteral
  dsimp only
  split
  · rename_i kept
    have optioned : Candid tools (CompilerOptions.ofRequest request layout none) :=
      .of_calm (.ofRequest _ _ _) (CompilerOptions.ofRequest_keeps _ _ _)
    refine Concludes.mono (Concludes.bind (concludes_ofAction optioned) fun options =>
      Concludes.bind (stage_candid rfl ?_ (Candid.compilerRun_tells own _ _ _) _ _) fun answer => ?_)
      (fun _ holds => holds.1) (fun _ _ told => told) fun _ _ reveals => Reveals.accounts reveals
    · exact fun _ _ _ told => told
    · refine Concludes.pure fun state ⟨text, same, undisturbed, call, made, errors, wrote⟩ => ?_
      subst same
      exact ⟨.compiled literal kept made wrote, undisturbed⟩
  · rename_i writes
    have asked : Candid tools (Action.ask fun _ => (request.stdinFile.getD (.proper "")).path) :=
      .ask fun _ => .path _
    have lies : Keeps (fun session => session.temporary = temporary ∧ session.clock = clock)
        (Action.ask fun _ => (request.stdinFile.getD (.proper "")).path) := .ask _
    have copied : Candid tools (copyConfiguration request layout) :=
      .of_calm (.copyConfiguration _ _) (quiet.copyConfiguration _ _)
    have optioned (copy : Path) : Candid tools (CompilerOptions.ofRequest request layout (some copy)) :=
      .of_calm (.ofRequest _ _ _) (CompilerOptions.ofRequest_keeps _ _ _)
    have removed (copy : Path) : Candid tools (Configuration.removeCopy copy) :=
      .of_calm (.removeCopy _) (quiet.removeCopy _)
    refine Concludes.bind ((concludes_ofAction (Concludes.and asked lies)).mono (fun _ holds => holds)
      (fun _ _ told => told) fun _ _ told => Reveals.accounts told.1) fun place => ?_
    have named : Concludes (fun state : BuildState => state.session.IsUndisturbed tools ∧
          state.session.temporary = temporary ∧ state.session.clock = clock)
        (Pass.ofAction (copyConfiguration request layout))
        (fun copy state => copy = Configuration.copyPath temporary clock ∧ state.session.IsUndisturbed tools)
        fun fault state => Accounts tools (Configuration.copyPath temporary clock) fault state.session :=
      (concludes_ofAction (Concludes.and copied (copyConfiguration_names temporary clock))).mono
        (fun _ holds => holds) (fun _ _ told => told.symm) fun _ _ told => Reveals.accounts told.1
    refine Concludes.bind named fun copy => Concludes.of_and fun same => ?_
    rw [← same]
    refine Concludes.bind (Concludes.closingPass (fun _ state => state.session.IsUndisturbed tools)
      (fun fault state => Reveals tools fault state.session) (Concludes.bind (concludes_ofAction (optioned copy))
        fun options => Concludes.discard ((stage_candid rfl (fun _ => quiet.silent)
          (Candid.buildBuffer own _ _ _ _) _ _).mono (fun _ holds => holds) ?_ fun _ _ reveals => reveals))
      (fun _ => ?_) fun fault => concludes_ofAction (removeCopy_accounts copy fault)) fun _ =>
        Concludes.bind (Concludes.modify (fun state => state.session.IsUndisturbed tools) fun _ holds => holds)
          fun _ => Concludes.pure fun _ holds => ⟨.written literal (by simpa using writes), holds⟩
    · rintro _ state ⟨given, -, kept⟩
      exact kept
    · exact (concludes_ofAction (removed copy)).mono (fun _ holds => holds) (fun _ _ kept => kept)
        fun _ _ reveals => Reveals.accounts reveals

/-- A build of files ends with a report of success, or accounts for what has happened. -/
theorem buildFiles_accounts (own : compiler.tools = tools) (files : request.isLiteral = false)
    {start : Session} (fresh : start.IsUndisturbed tools) (mode : String) :
    Concludes (· = { session := start, report := { mode } }) (buildFiles tools compiler request layout)
      (fun outcome state => Fulfils tools request state.session outcome ∧ state.session.IsUndisturbed tools)
      fun fault state =>
        Accounts tools (Configuration.copyPath start.temporary start.clock) fault state.session := by
  refine (buildFiles_completes tools compiler request layout start mode).mono (fun _ same => same) ?_
    fun _ _ fails => accounts_of_fails own fresh fails
  rintro _ state ⟨report, rfl, endings, completes⟩
  obtain ⟨work, last, leads, journal, same⟩ := completes.leads
  refine ⟨.built files (by simp [Report.isOk, completes.done]), ?_⟩
  have kept := leads.undisturbed own fresh
  rw [same]
  exact kept

/-- A build ends as its request asks for, or accounts for what has happened: whatever the tools do, it ends
with an interruption only if a call was interrupted, and answers only if none was. -/
theorem run_accounts (request : Request) {start : Session} (fresh : start.IsUndisturbed tools) :
    Concludes (· = start) (run tools request layout)
      (fun outcome session => Fulfils tools request session outcome ∧ session.IsUndisturbed tools)
      (Accounts tools (Configuration.copyPath start.temporary start.clock)) := by
  have settles : Concludes (· = start) (Action.ask fun _ => request.normalized)
      (fun settled session => settled = request.settled ∧ session = start)
      (Accounts tools (Configuration.copyPath start.temporary start.clock)) := by
    have calm : Candid tools (Action.ask fun _ => request.normalized) := .ask fun _ => .normalized request
    refine (Concludes.and calm (Ends.ask _)).mono (fun session same => ⟨same ▸ fresh, same⟩)
      (fun settled session told => ⟨(Request.accepted_of_normalized told.2.1).2, told.2.2⟩)
      fun _ _ told => Reveals.accounts told.1
  have finds : Concludes (· = start) (Compiler.ofLayout tools layout none)
      (fun compiler session => compiler.tools = tools ∧ session = start)
      (Accounts tools (Configuration.copyPath start.temporary start.clock)) := by
    have calm : Candid tools (Compiler.ofLayout tools layout none) :=
      .of_calm (.ofLayout _ _ _) ((Compiler.ofLayout_ends tools layout).mono (fun _ holds => holds)
        (fun _ _ told => told.2) fun _ holds => holds)
    exact (Concludes.and calm (Compiler.ofLayout_ends tools layout)).mono
      (fun session same => ⟨same ▸ fresh, same⟩) (fun _ _ told => ⟨told.2.1.1, told.2.2⟩)
      fun _ _ told => Reveals.accounts told.1
  unfold run
  refine settles.bind fun settled => Concludes.of_and fun same => ?_
  subst same
  refine finds.bind fun compiler => Concludes.of_and fun own => ⟨fun session same => ?_⟩
  subst same
  have ended : Concludes (· = { session := session, report := { mode := request.settled.mode.name } })
      (if request.settled.isLiteral then buildLiteral compiler request.settled layout
        else buildFiles tools compiler request.settled layout)
      (fun outcome state => Fulfils tools request state.session outcome ∧ state.session.IsUndisturbed tools)
      fun fault state =>
        Accounts tools (Configuration.copyPath session.temporary session.clock) fault state.session := by
    have asked {outcome : Outcome} {session : Session} (fulfils : Fulfils tools request.settled session outcome) :
        Fulfils tools request session outcome := by
      cases fulfils with
      | built files done => exact .built files done
      | compiled literal kept made wrote => exact .compiled literal kept made wrote
      | written literal writes => exact .written literal writes
    split
    · rename_i literal
      exact (buildLiteral_accounts own literal).mono (fun state same => same ▸ ⟨fresh, rfl, rfl⟩)
        (fun _ _ told => ⟨asked told.1, told.2⟩) fun _ _ accounts => accounts
    · rename_i files
      exact (buildFiles_accounts own (by simpa using files) fresh _).mono (fun _ same => same)
        (fun _ _ told => ⟨asked told.1, told.2⟩) fun _ _ accounts => accounts
  have known := ended.outcome _ rfl
  dsimp only
  generalize (if request.settled.isLiteral then buildLiteral compiler request.settled layout
    else buildFiles tools compiler request.settled layout)
    { session := session, report := { mode := request.settled.mode.name } } = result at known ⊢
  rcases result with ⟨fault | outcome, state⟩ <;> exact known

end

end Build

/-! ### Tools that are not interrupted -/

/-- No call of tools that are calm is interrupted. -/
theorem Toolchain.IsCalm.not_interrupts {tools : Toolchain} (calm : tools.IsCalm)
    (call : Invocation × Tree) : ¬ tools.Interrupts call := by
  unfold Toolchain.Interrupts
  cases outcome : (tools.run call.1 call.2).1 with
  | finished => simp [ToolOutcome.isInterruption]
  | interrupted => exact absurd outcome (calm.finishes _ _)
  | broken fault => simpa [ToolOutcome.isInterruption] using calm.breaks _ _ fault outcome

/-- Whatever calls such tools were given, none was interrupted. -/
theorem Toolchain.IsCalm.isUndisturbed {tools : Toolchain} (calm : tools.IsCalm) (session : Session) :
    session.IsUndisturbed tools :=
  fun call _ => calm.not_interrupts call

/-- With such tools there is no interruption to tell of. -/
theorem Candid.calm {Answer : Type} {tools : Toolchain} {action : Action Answer} (candid : Candid tools action)
    (calm : tools.IsCalm) : Calm action := by
  intro session fault failed
  have ended := candid.outcome session (calm.isUndisturbed session)
  rcases ran : action session with ⟨result, after⟩
  rw [ran] at failed ended
  obtain rfl : result = .error fault := failed
  rcases ended with ⟨mild, -⟩ | ⟨-, call, -, struck, -⟩
  · exact mild
  · exact absurd struck (calm.not_interrupts call)

/-- Tools whose calls are not interrupted interrupt no compilation. -/
theorem Calm.compile {compiler : Compiler} (calm : compiler.tools.IsCalm) (options : CompilerOptions)
    (layout : Layout) (files : List SourceFile) : Calm (Build.compile compiler options layout files) :=
  (Candid.compile rfl options layout files).calm calm

/-- Tools whose calls are not interrupted interrupt no build. -/
theorem Calm.run {tools : Toolchain} (calm : tools.IsCalm) (request : Request) (layout : Layout) :
    Calm (Build.run tools request layout) := by
  intro session fault failed
  rcases ran : Build.run tools request layout session with ⟨result, after⟩
  rw [ran] at failed
  obtain rfl : result = .error fault := failed
  have accounts := (run_accounts request (calm.isUndisturbed session)).refused rfl ran
  rw [Bool.eq_false_iff]
  intro interrupted
  obtain ⟨call, -, struck⟩ := accounts.tells interrupted
  exact calm.not_interrupts call struck

end TreeBuild
