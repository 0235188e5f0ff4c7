import TreeBuild.Proofs.Session.Reading
import TreeBuild.Proofs.Session.Surroundings

/-!
# The steps of a build of files

A build of files goes through its stages in a fixed order. Which stages there are depends on the request
and on the environment alone. Between some of the stages something is done that is no stage: the copy of
the compiler configuration is made and removed, and the options of the compiler are chosen. Each of these
steps does something to the session, and hands on what it has found to the later ones.

A step is taken in the session that the step before has left, but for the log. When a stage that need not
succeed fails, the next step is taken in what the failure has left. When any other step fails, no further
step is taken: only the copy of the configuration is removed, if it is still there. The report lists what
became of each stage.
-/
namespace TreeBuild.Build

/-- The steps of a build of files: its stages, and what is done between them. -/
inductive Step where
  | stage (stage : Stage)
  | copyConfiguration
  | chooseOptions
  | removeCopy
  deriving DecidableEq, Repr

/-- The stage that a step is, if it is one. -/
def Step.stage? : Step → Option Stage
  | .stage named => some named
  | .copyConfiguration | .chooseOptions | .removeCopy => none

/-- Whether the build fails when the step does. -/
def Step.isRequired : Step → Bool
  | .stage named => named.isRequired
  | .copyConfiguration | .chooseOptions | .removeCopy => true

/-- What later steps take from earlier ones. -/
structure Work where
  /-- The sources. -/
  files : List SourceFile := []
  /-- The copy of the configuration, while there is one. -/
  copy : Option Path := none
  options : Option CompilerOptions := none
  /-- The modules that were written. -/
  outputs : List Path := []

/-- Bundles the stylesheets that a request names. -/
def bundleStyles (tools : Toolchain) (request : Request) (layout : Layout) : Action (List Path) := do
  let entry ← Action.ask fun _ => request.styles.path
  Auxiliary.buildStyles tools layout entry request.isDevelopment request.bundle

/-- Writes the declarations with the configuration that a request names. -/
def writeDeclarations (tools : Toolchain) (request : Request) (layout : Layout) : Action Nat := do
  let tsconfig ← Action.ask fun _ => request.tsconfig.path
  Auxiliary.emitDeclarations tools layout tsconfig

/-- What a step does, and what it adds to the work. -/
def Step.effect (tools : Toolchain) (compiler : Compiler) (request : Request) (layout : Layout) :
    Step → Work → Action Work
  | .stage .clearing, work => do
    clear request layout
    return work
  | .stage .classifying, work => do
    return { work with files := ← discoverInput request layout }
  | .copyConfiguration, work => do
    return { work with copy := some (← Build.copyConfiguration request layout) }
  | .chooseOptions, work => do
    return { work with options := some (← CompilerOptions.ofRequest request layout work.copy) }
  | .stage .compiling, work =>
    match work.options with
    | some options => do return { work with outputs := ← compile compiler options layout work.files }
    | none => return work
  | .removeCopy, work =>
    match work.copy with
    | some copy => do
      Configuration.removeCopy copy
      return { work with copy := none }
    | none => return work
  | .stage .copyingAssets, work => do
    let _ ← Output.copyAssets (Sources.ofDialect .asset work.files) layout
    return work
  | .stage .normalizing, work => do
    let _ ← Specifier.normalizeFiles work.outputs (sourceOf layout work.files)
    return work
  | .stage .patchingMetadata, work => do
    let _ ← Output.patchType layout.output request.format
    return work
  | .stage .styles, work => do
    let _ ← bundleStyles tools request layout
    return work
  | .stage .binaries, work => do
    let _ ← Auxiliary.buildBinaries tools layout none
    return work
  | .stage .declarations, work => do
    let _ ← writeDeclarations tools request layout
    return work
  | .stage _, work => return work

/-- The stages that follow once the output can be run. -/
def optionalOrder (request : Request) : List Stage :=
  if request.runtimeOnly then []
  else (if request.jsOnly then [] else .styles :: if request.binary then [.binaries] else []) ++
    [.declarations]

/-- The stages of a build of files in their order. -/
def order (request : Request) (environment : Environment) : List Stage :=
  [.clearing, .classifying, .compiling, .copyingAssets] ++
    ((if Tools.rewritesDisabled environment then [] else [.normalizing]) ++
      .patchingMetadata :: optionalOrder request)

/-- The steps of a build of files in their order. -/
def steps (request : Request) (environment : Environment) : List Step :=
  [.stage .clearing, .stage .classifying, .copyConfiguration, .chooseOptions, .stage .compiling,
    .removeCopy, .stage .copyingAssets] ++
    ((if Tools.rewritesDisabled environment then [] else [.stage .normalizing]) ++
      .stage .patchingMetadata :: (optionalOrder request).map .stage)

/-- The stages are the steps, but for what is done between them. -/
theorem filterMap_stage?_steps (request : Request) (environment : Environment) :
    (steps request environment).filterMap Step.stage? = order request environment := by
  have optional : ((optionalOrder request).map Step.stage).filterMap Step.stage? =
      optionalOrder request := by
    have inverse : Step.stage? ∘ Step.stage = some := rfl
    rw [List.filterMap_map, inverse, List.filterMap_some]
  unfold steps order
  split <;> simp [List.filterMap_cons, Step.stage?, optional]

/-- A build that stops once the output can be run takes no further stage. -/
theorem optionalOrder_eq_nil {request : Request} (stops : request.runtimeOnly) : optionalOrder request = [] :=
  if_pos stops

/-- The last step of such a build patches the descriptor. -/
theorem steps_eq_append_patching {request : Request} (environment : Environment) (stops : request.runtimeOnly) :
    ∃ front, steps request environment = front ++ [Step.stage Stage.patchingMetadata] := by
  unfold steps
  rw [optionalOrder_eq_nil stops, List.map_nil, ← List.append_assoc]
  exact ⟨_, rfl⟩

/-- What became of a stage: it succeeded, or it failed with this message. -/
abbrev Ending := Stage × Option String

/-- How a report lists a stage: it has started, and then it has ended. -/
def Ending.entries (ending : Ending) : List (Stage × StageStatus) :=
  [(ending.1, .started), (ending.1, if ending.2.isSome then .failed else .succeeded)]

/-- How a report lists the failure of a stage. -/
def Ending.failure? (ending : Ending) : Option (Stage × String) :=
  ending.2.map fun message => (ending.1, message)

/-- The ending of a step that has succeeded, if it is a stage. -/
def Step.passing (step : Step) : List Ending :=
  step.stage?.toList.map fun stage => (stage, none)

/-- A session is another one, but for the log. -/
def Relogs (session other : Session) : Prop := ∃ journal, other = { session with journal }

/-- A session is itself but for the log. -/
theorem Relogs.refl (session : Session) : Relogs session session := ⟨session.journal, rfl⟩

/-- It stays another one but for the log if more is logged. -/
theorem Relogs.log {session other : Session} (relogs : Relogs session other) (journal : List Record) :
    Relogs session { other with journal } := by
  obtain ⟨before, rfl⟩ := relogs
  exact ⟨journal, rfl⟩

section

variable (effect : Step → Work → Action Work) (start : Session)

/-- From the start, steps have been taken in this order, the stages among them with these endings. Each
step was taken in the session that the one before had left, but for the log. -/
inductive Leads : List Step → List Ending → Work → Session → Prop where
  | start : Leads [] [] {} start
  | passed {done : List Step} {endings : List Ending} {work next : Work} {session taken left : Session}
      (step : Step) (before : Leads done endings work session) (relogs : Relogs session taken)
      (does : effect step work taken = (.ok next, left)) :
      Leads (done ++ [step]) (endings ++ step.passing) next left
  | endured {done : List Step} {endings : List Ending} {work : Work} {session taken left : Session}
      {fault : Fault} (stage : Stage) (before : Leads done endings work session)
      (relogs : Relogs session taken) (does : effect (.stage stage) work taken = (.error fault, left))
      (optional : stage.isRequired = false) (mild : fault.isInterruption = false) :
      Leads (done ++ [.stage stage]) (endings ++ [(stage, some fault.message)]) work left

/-- The copy of the configuration that is there when a step fails and that the step does not remove. -/
def Step.pending : Step → Work → Option Path
  | .removeCopy, _ => none
  | _, work => work.copy

/-- One of the steps has failed so that no further one is taken: it is none of those that need not succeed,
or the user has interrupted it. -/
inductive Stops : List Step → Option Path → Fault → Session → Prop where
  | at {done rest : List Step} {endings : List Ending} {work : Work} {session taken left : Session}
      {fault : Fault} (step : Step) (before : Leads effect start done endings work session)
      (relogs : Relogs session taken) (does : effect step work taken = (.error fault, left))
      (fatal : step.isRequired = false → fault.isInterruption) :
      Stops (done ++ step :: rest) (step.pending work) fault left

end

/-- What is done behind a failure: the copy of the configuration is removed, if it is still there, and a
failure to remove it counts more. -/
inductive Abandons (left : Session) : Option Path → Fault → Fault → Session → Prop where
  | plain (fault : Fault) : Abandons left none fault fault left
  | removed {copy : Path} {final : Session} (fault : Fault)
      (does : Configuration.removeCopy copy left = (.ok (), final)) :
      Abandons left (some copy) fault fault final
  | refused {copy : Path} {final : Session} (cause : Fault) {fault : Fault}
      (does : Configuration.removeCopy copy left = (.error fault, final)) :
      Abandons left (some copy) cause fault final

/-! ### What is known while the steps are taken -/

section

variable {effect : Step → Work → Action Work} {start : Session} {all rest : List Step} {work : Work}

/-- A report lists what became of the stages. -/
structure Listed (endings : List Ending) (report : Report) : Prop where
  stages : report.stages = endings.flatMap Ending.entries
  failures : report.failures = endings.filterMap Ending.failure?

variable (effect start all)

/-- A build has taken all steps but the rest, and has done this work. -/
inductive Reaches (rest : List Step) (work : Work) (state : BuildState) : Prop where
  | intro {done : List Step} {endings : List Ending} {session : Session}
      (split : all = done ++ rest) (leads : Leads effect start done endings work session)
      (relogs : Relogs session state.session) (listed : Listed endings state.report)
      (outputs : state.report.compiled = work.outputs)

/-- A build is about to take a step that is a stage, and has noted its start in the report. -/
inductive Begins (stage : Stage) (rest : List Step) (work : Work) (state : BuildState) : Prop where
  | intro {done : List Step} {endings : List Ending} {session : Session} {report : Report}
      (split : all = done ++ .stage stage :: rest)
      (leads : Leads effect start done endings work session)
      (relogs : Relogs session state.session) (begun : state.report = report.start stage)
      (listed : Listed endings report) (outputs : report.compiled = work.outputs)

/-- A build has taken a step that is a stage, and has not yet noted its end. -/
inductive Performs (stage : Stage) (rest : List Step) (next : Work) (state : BuildState) : Prop where
  | intro {done : List Step} {endings : List Ending} {session taken left : Session}
      {report : Report} {work : Work} (split : all = done ++ .stage stage :: rest)
      (leads : Leads effect start done endings work session) (relogs : Relogs session taken)
      (does : effect (.stage stage) work taken = (.ok next, left))
      (relogsAgain : Relogs left state.session)
      (listed : Listed endings report) (stages : state.report.stages = (report.start stage).stages)
      (failures : state.report.failures = report.failures)
      (outputs : state.report.compiled = next.outputs)

/-- A step that is a stage has failed, which is not yet noted. -/
inductive Breaks (stage : Stage) (rest : List Step) (work : Work) (fault : Fault) (state : BuildState) :
    Prop where
  | intro {done : List Step} {endings : List Ending} {session taken : Session} {report : Report}
      (split : all = done ++ .stage stage :: rest)
      (leads : Leads effect start done endings work session) (relogs : Relogs session taken)
      (does : effect (.stage stage) work taken = (.error fault, state.session))
      (begun : state.report = report.start stage) (listed : Listed endings report)
      (outputs : report.compiled = work.outputs)

/-- A build has failed, and no further step is taken. This copy is still to be removed. -/
inductive Halts (pending : Option Path) (fault : Fault) (state : BuildState) : Prop where
  | intro {left : Session} (stops : Stops effect start all pending fault left)
      (relogs : Relogs left state.session)

/-- A build has failed and left nothing to do. -/
inductive Fails (fault : Fault) (final : Session) : Prop where
  | intro {pending : Option Path} {cause : Fault} {left ended : Session}
      (stops : Stops effect start all pending cause left) (relogs : Relogs left ended)
      (abandons : Abandons ended pending cause fault final)

variable {effect start all} {Answer Result : Type} {stage : Stage} {body : Pass Answer}
  {action : Action Result} {add : Result → Work}

variable (effect start all) in
/-- A part of a build carries out a step that is a stage. Its answer and what the step has added to the work
belong together. -/
def Carries (stage : Stage) (rest : List Step) (work : Work) (body : Pass Answer)
    (given : Answer → Work → Prop) : Prop :=
  Concludes (Begins effect start all stage rest work) body
    (fun answer state => ∃ next, given answer next ∧ Performs effect start all stage rest next state)
    (Breaks effect start all stage rest work)

/-- A part of a build that ends as a step does is that step: it has added this to the work, and noted it in
the report. -/
theorem carries_of_action {given : Answer → Work → Prop} (action : Action Result)
    (add : Result → Work) (finish : Result → Pass Answer)
    (same : effect (.stage stage) work = action >>= fun result => pure (add result))
    (is : ∀ state, state.report.compiled = work.outputs →
      body state = (Pass.ofAction action >>= finish) state)
    (finishes : ∀ result session report, report.compiled = work.outputs →
      ∃ answer journal ended, finish result { session, report } =
          (.ok answer, { session := { session with journal }, report := ended }) ∧
        given answer (add result) ∧ ended.compiled = (add result).outputs ∧
        ended.stages = report.stages ∧ ended.failures = report.failures) :
    Carries effect start all stage rest work body given := by
  refine ⟨fun state begins => ?_⟩
  obtain ⟨split, leads, relogs, begun, listed, outputs⟩ := begins
  have does : effect (.stage stage) work state.session =
      (action >>= fun result => pure (add result)) state.session := by rw [same]
  rw [is state (begun ▸ outputs), bind_apply]
  rw [bind_apply] at does
  unfold Pass.ofAction
  rcases ran : action state.session with ⟨fault | result, left⟩
  · rw [ran] at does
    exact .intro split leads relogs does begun listed outputs
  · rw [ran] at does
    obtain ⟨answer, later, ended, finished, isGiven, compiled, stages, failures⟩ :=
      finishes result left state.report (begun ▸ outputs)
    dsimp only
    rw [finished]
    rw [begun] at stages failures
    exact ⟨_, isGiven, .intro split leads relogs does ⟨later, rfl⟩ listed stages failures compiled⟩

/-- A stage is taken as a step. Behind it the next step is taken, also where it has failed and need not
succeed. -/
theorem stage_reaches {given : Answer → Work → Prop} {context : List (String × Json)}
    {texts : StageTexts}
    (carries : Carries effect start all stage rest work body given) :
    Concludes (Reaches effect start all (.stage stage :: rest) work) (Pass.stage context stage texts body)
      (fun answer state =>
        (∃ told next, answer = some told ∧ given told next ∧
          Reaches effect start all rest next state) ∨
        stage.isRequired = false ∧ Reaches effect start all rest work state)
      (Halts effect start all work.copy) := by
  refine Concludes.stage carries ?_ ?_ ?_ ?_
  · rintro state ⟨split, leads, relogs, listed, outputs⟩
    exact .intro split leads (relogs.log _) rfl listed outputs
  · rintro answer state ⟨next, isGiven, performs⟩
    obtain ⟨split, leads, relogs, does, again, listed, stages, failures, outputs⟩ := performs
    refine .inl ⟨answer, next, rfl, isGiven, ?_⟩
    refine .intro (by rw [split, List.append_assoc]; rfl) (leads.passed (.stage stage) relogs does)
      (again.log _) ⟨?_, ?_⟩ outputs
    · simp [Pass.noted, Report.succeed, stages, Report.start, listed.stages, Step.passing, Step.stage?,
        Ending.entries]
    · simp [Pass.noted, Report.succeed, failures, listed.failures, Step.passing, Step.stage?,
        Ending.failure?]
  · rintro fault state ⟨split, leads, relogs, does, begun, listed, outputs⟩ interrupted
    rw [split]
    exact .intro (.at (.stage stage) leads relogs does fun _ => interrupted) (.refl _)
  · rintro fault state journal ⟨split, leads, relogs, does, begun, listed, outputs⟩ mild
    dsimp only
    split
    · rename_i required
      rw [‹all = _›]
      refine .intro (.at (.stage stage) leads relogs does fun optional => ?_) ⟨journal, rfl⟩
      exact absurd (required.symm.trans optional) (by decide)
    · rename_i optional
      rw [Bool.not_eq_true] at optional
      refine .inr ⟨optional, .intro (by rw [‹all = _›, List.append_assoc]; rfl)
        (leads.endured stage relogs does optional mild) ⟨journal, rfl⟩ ⟨?_, ?_⟩ ?_⟩
      · simp [Report.fail, optional, begun, Report.start, listed.stages, Ending.entries]
      · simp [Report.fail, optional, begun, Report.start, listed.failures, Ending.failure?]
      · simp [Report.fail, optional, begun, Report.start, outputs]

/-- A step that is no stage leaves the report alone. -/
theorem action_reaches {step : Step} (action : Action Result) (add : Result → Work)
    (plain : step.stage? = none) (required : step.isRequired)
    (same : effect step work = action >>= fun result => pure (add result))
    (outputs : ∀ result, (add result).outputs = work.outputs) :
    Concludes (Reaches effect start all (step :: rest) work) (Pass.ofAction action)
      (fun result => Reaches effect start all rest (add result))
      (Halts effect start all (step.pending work)) := by
  refine ⟨fun state ⟨split, leads, relogs, listed, compiled⟩ => ?_⟩
  have does : effect step work state.session =
      (action >>= fun result => pure (add result)) state.session := by rw [same]
  rw [bind_apply] at does
  unfold Pass.ofAction
  rcases ran : action state.session with ⟨fault | result, left⟩
  · rw [ran] at does
    rw [split]
    refine .intro (.at step leads relogs does fun optional => ?_) (.refl left)
    exact absurd (required.symm.trans optional) (by decide)
  · rw [ran] at does
    have led := leads.passed step relogs does
    rw [Step.passing, plain, Option.toList_none, List.map_nil, List.append_nil] at led
    exact .intro (by rw [split, List.append_assoc]; rfl) led (.refl left) listed
      (compiled.trans (outputs result).symm)

/-- A build that has halted fails once the copy of the configuration has been removed. -/
theorem Halts.abandons {copy : Path} (cause : Fault) :
    Concludes (Halts effect start all (some copy) cause)
      (Pass.ofAction (Configuration.removeCopy copy))
      (fun _ state => Fails effect start all cause state.session)
      (fun fault state => Fails effect start all fault state.session) := by
  refine ⟨fun state ⟨stops, relogs⟩ => ?_⟩
  unfold Pass.ofAction
  rcases ran : Configuration.removeCopy copy state.session with ⟨fault | ⟨⟩, final⟩
  · exact .intro stops relogs (.refused cause ran)
  · exact .intro stops relogs (.removed cause ran)

/-- A build that halts without a copy to be removed has failed there. -/
theorem Halts.fails {fault : Fault} {state : BuildState} (halts : Halts effect start all none fault state) :
    Fails effect start all fault state.session := by
  obtain ⟨stops, relogs⟩ := halts
  exact .intro stops relogs (.plain fault)

end

/-! ### The stages in their order -/

section

variable {tools : Toolchain} {compiler : Compiler} {request : Request} {layout : Layout}
  {start : Session} {all rest : List Step} {work : Work} {stage : Stage} {Answer : Type}

/-- A required stage, when there is no copy of the configuration. -/
theorem required_reaches {effect : Step → Work → Action Work} {body : Pass Answer}
    {given : Answer → Work → Prop} (required : stage.isRequired) (alone : work.copy = none)
    (carries : Carries effect start all stage rest work body given)
    (context : List (String × Json)) (texts : StageTexts) :
    Concludes (Reaches effect start all (.stage stage :: rest) work)
      (Pass.stage context stage texts body)
      (fun result state => ∃ answer next, (result = some answer ∧ given answer next) ∧
        Reaches effect start all rest next state)
      (fun fault state => Fails effect start all fault state.session) := by
  refine (stage_reaches carries).mono (fun _ reaches => reaches) ?_ ?_
  · rintro _ state (⟨answer, next, told, isGiven, reaches⟩ | ⟨optional, -⟩)
    · exact ⟨answer, next, ⟨told, isGiven⟩, reaches⟩
    · exact absurd (required.symm.trans optional) (by decide)
  · exact fun fault state halts => Halts.fails (alone ▸ halts)

/-- A required stage that adds nothing to the work. -/
theorem required_keeps {effect : Step → Work → Action Work} {body : Pass Answer}
    (required : stage.isRequired) (alone : work.copy = none)
    (carries : Carries effect start all stage rest work body fun _ next => next = work)
    (context : List (String × Json)) (texts : StageTexts) :
    Concludes (Reaches effect start all (.stage stage :: rest) work)
      (discard (Pass.stage context stage texts body)) (fun _ => Reaches effect start all rest work)
      (fun fault state => Fails effect start all fault state.session) := by
  refine Concludes.discard ((required_reaches required alone carries context texts).mono
    (fun _ reaches => reaches) ?_ fun _ _ fails => fails)
  rintro _ state ⟨_, _, ⟨-, rfl⟩, reaches⟩
  exact reaches

/-- An optional stage. Behind it the next one follows in any case. -/
theorem optional_reaches {effect : Step → Work → Action Work} {body : Pass Answer}
    (alone : work.copy = none)
    (carries : Carries effect start all stage rest work body fun _ next => next = work)
    (context : List (String × Json)) (texts : StageTexts) :
    Concludes (Reaches effect start all (.stage stage :: rest) work)
      (discard (Pass.stage context stage texts body))
      (fun _ => Reaches effect start all rest work)
      (fun fault state => Fails effect start all fault state.session) := by
  refine Concludes.discard ((stage_reaches carries).mono (fun _ reaches => reaches) ?_ ?_)
  · rintro _ state (⟨_, _, -, rfl, reaches⟩ | ⟨-, reaches⟩)
    · exact reaches
    · exact reaches
  · exact fun fault state halts => Halts.fails (alone ▸ halts)

/-- An action that is not noted in the report carries out a stage. -/
theorem carries_of_silent {Result : Type} {effect : Step → Work → Action Work} {action : Action Result}
    (same : effect (.stage stage) work = action >>= fun _ => pure work) :
    Carries effect start all stage rest work (Pass.ofAction action) (fun _ next => next = work) := by
  refine carries_of_action action _ pure same (fun state _ => ?_) fun result session report outputs =>
    ⟨result, session.journal, report, rfl, rfl, outputs, rfl, rfl⟩
  rw [bind_apply]
  rcases Pass.ofAction action state with ⟨fault | answer, final⟩ <;> rfl

/-- A step that comes before the output can be run leaves alone what lasts. -/
theorem Step.effect_keeps {property : Session → Prop} (lasting : Lasting property) {step : Step}
    (required : step.isRequired) (work : Work) :
    Keeps property (step.effect tools compiler request layout work) := by
  cases step with
  | copyConfiguration => exact (lasting.quiet.copyConfiguration request layout).bind fun _ => .pure
  | chooseOptions => exact (CompilerOptions.ofRequest_keeps _ _ _).bind fun _ => .pure
  | removeCopy =>
    unfold Step.effect
    dsimp only
    split
    · exact (lasting.quiet.removeCopy _).bind fun _ => .pure
    · exact .pure
  | stage named =>
    cases named with
    | clearing => exact (lasting.quiet.buildClear request layout).bind fun _ => .pure
    | classifying => exact Keeps.bind (.ask _) fun _ => .pure
    | compiling =>
      unfold Step.effect
      dsimp only
      split
      · exact (lasting.compile _ _ _ _).bind fun _ => .pure
      · exact .pure
    | copyingAssets => exact (lasting.quiet.copyAssets _ _).bind fun _ => .pure
    | normalizing => exact (lasting.quiet.normalizeFiles _ _).bind fun _ => .pure
    | patchingMetadata => exact (lasting.quiet.patchType _ _).bind fun _ => .pure
    | _ => cases required

/-- The environment of a build lasts as long as every step has to succeed. -/
theorem Leads.environment {done : List Step} {endings : List Ending} {session : Session}
    (leads : Leads (Step.effect tools compiler request layout) start done endings work session)
    (required : ∀ step ∈ done, step.isRequired) : session.environment = start.environment := by
  induction leads with
  | start => rfl
  | @passed _ _ work _ _ taken _ step _ relogs does inductionHypothesis =>
    obtain ⟨early, last⟩ := List.forall_mem_append.mp required
    have same : taken.environment = start.environment := by
      obtain ⟨journal, rfl⟩ := relogs
      exact inductionHypothesis early
    have kept : Keeps (fun session => session.environment = start.environment)
        (step.effect tools compiler request layout work) :=
      Step.effect_keeps (lasting_environment start.environment) (last step List.mem_cons_self) work
    have ended := kept.outcome taken same
    rw [does] at ended
    exact ended
  | endured stage _ _ _ optional =>
    have last := required (.stage stage) (by simp)
    exact absurd (last.symm.trans optional) (by decide)

/-- The sources that are found are handed on, and the declarations among them are counted. -/
theorem carries_classifying :
    Carries (Step.effect tools compiler request layout) start all .classifying rest work
      (do
        let files ← Pass.ofAction (discoverInput request layout)
        Pass.update fun report =>
          { report with declarations := (Sources.ofDialect .declaration files).length }
        return files)
      (fun files next => next = { work with files }) :=
  carries_of_action _ (fun files => { work with files }) _ rfl (fun _ _ => rfl)
    fun files session _ outputs => ⟨files, session.journal, _, rfl, rfl, outputs, rfl, rfl⟩

/-- The modules that are written are listed in the report. -/
theorem carries_compiling (files : List SourceFile) (copy : Option Path) (options : CompilerOptions) :
    Carries (Step.effect tools compiler request layout) start all .compiling rest
      { files, copy, options := some options }
      (do
        let compiled ← Pass.ofAction (compile compiler options layout files)
        Pass.update fun report => { report with compiled })
      (fun _ next => ∃ outputs, next = { files, copy, options := some options, outputs }) :=
  carries_of_action (compile compiler options layout files)
    (fun outputs => { files, copy, options := some options, outputs }) _ rfl (fun _ _ => rfl)
    fun compiled session _ _ => ⟨(), session.journal, _, rfl, ⟨compiled, rfl⟩, rfl, rfl, rfl⟩

/-- The assets that are copied are listed in the report. -/
theorem carries_copying :
    Carries (Step.effect tools compiler request layout) start all .copyingAssets rest work
      (do
        let copied ← Pass.ofAction (Output.copyAssets (Sources.ofDialect .asset work.files) layout)
        Pass.update fun report => { report with copied })
      (fun _ next => next = work) :=
  carries_of_action _ (fun _ => work) _ rfl (fun _ _ => rfl)
    fun _ session _ outputs => ⟨(), session.journal, _, rfl, rfl, outputs, rfl, rfl⟩

/-- The modules whose specifiers are rewritten are those that were written. -/
theorem carries_normalizing :
    Carries (Step.effect tools compiler request layout) start all .normalizing rest work
      (do
        let compiled := (← get).report.compiled
        let results ← Pass.ofAction (Specifier.normalizeFiles compiled (sourceOf layout work.files))
        Pass.update (addResults results))
      (fun _ next => next = work) := by
  refine carries_of_action (Specifier.normalizeFiles work.outputs (sourceOf layout work.files))
    (fun _ => work) (fun results => Pass.update (addResults results)) rfl (fun state outputs => ?_)
    fun results session _ outputs => ⟨(), session.journal, _, rfl, rfl, outputs, rfl, rfl⟩
  have got : (get : Pass BuildState) state = (.ok state, state) := rfl
  rw [bind_apply, got]
  dsimp only
  rw [outputs]

/-- That the descriptor of the output has been written is noted in the report and in the log. -/
theorem carries_patching :
    Carries (Step.effect tools compiler request layout) start all .patchingMetadata rest work
      (do
        let patched ← Pass.ofAction (Output.patchType layout.output request.format)
        Pass.update fun report => { report with patchedMetadata := patched }
        if patched then
          Pass.log (contextOf request) .info
            s!"Forced \"type\" package.json field in dist ({request.format.packageType})." [])
      (fun _ next => next = work) := by
  refine carries_of_action _ (fun _ => work) _ rfl (fun _ _ => rfl)
    fun patched session report outputs => ?_
  cases patched with
  | false => exact ⟨(), session.journal, _, rfl, rfl, outputs, rfl, rfl⟩
  | true => exact ⟨(), _, _, rfl, rfl, outputs, rfl, rfl⟩

/-- The declarations are written with the configuration that the request names. -/
theorem carries_declarations :
    Carries (Step.effect tools compiler request layout) start all .declarations rest work
      (do
        let tsconfig ← Pass.ofAction (Action.ask fun _ => request.tsconfig.path)
        let emitted ← Pass.ofAction (Auxiliary.emitDeclarations tools layout tsconfig)
        Pass.update fun report => { report with declarationsEmitted := emitted })
      (fun _ next => next = work) := by
  refine carries_of_action (writeDeclarations tools request layout) (fun _ => work)
    (fun emitted => Pass.update fun report => { report with declarationsEmitted := emitted }) rfl
    (fun state _ => ?_) fun emitted session _ outputs =>
      ⟨(), session.journal, _, rfl, rfl, outputs, rfl, rfl⟩
  rw [bind_apply, bind_apply]
  unfold Pass.ofAction writeDeclarations
  rw [bind_apply]
  rcases Action.ask (fun _ => request.tsconfig.path) state.session with ⟨fault | tsconfig, middle⟩
  · rfl
  · dsimp only
    rw [bind_apply]

/-! ### Whole builds -/

/-- The copy of the configuration is removed behind the compilation in any case. -/
theorem compiling_reaches (files : List SourceFile) (copy : Path) :
    Concludes (Reaches (Step.effect tools compiler request layout) start all
        (.chooseOptions :: .stage .compiling :: .removeCopy :: rest) { files, copy := some copy })
      (Pass.closing (Configuration.removeCopy copy) do
        let options ← Pass.ofAction (CompilerOptions.ofRequest request layout (some copy))
        discard (Pass.stage (contextOf request) .compiling
          ⟨"Compiling TSX/TS/JS files.", "Compiled TSX/TS/JS files.", "Failed to compile files."⟩
          (do
            let compiled ← Pass.ofAction (compile compiler options layout files)
            Pass.update fun report => { report with compiled })))
      (fun _ state => ∃ options outputs, Reaches (Step.effect tools compiler request layout) start all
        rest { files, options, outputs } state)
      (fun fault state => Fails (Step.effect tools compiler request layout) start all fault
        state.session) := by
  refine Concludes.closingPass
    (fun _ state => ∃ options outputs, Reaches (Step.effect tools compiler request layout) start all
      (.removeCopy :: rest) { files, copy := some copy, options, outputs } state)
    (Halts (Step.effect tools compiler request layout) start all (some copy)) ?_ (fun _ => ?_)
    Halts.abandons
  · refine Concludes.bind (action_reaches (CompilerOptions.ofRequest request layout (some copy))
      (fun options => { files, copy := some copy, options := some options }) rfl rfl rfl
      fun _ => rfl) fun options => ?_
    refine Concludes.discard ((stage_reaches (carries_compiling files (some copy) options)).mono
      (fun _ reaches => reaches) ?_ fun _ _ halts => halts)
    rintro _ state (⟨_, _, -, ⟨outputs, rfl⟩, reaches⟩ | ⟨optional, -⟩)
    · exact ⟨some options, outputs, reaches⟩
    · cases optional
  · refine Concludes.of_exists fun options => Concludes.of_exists fun outputs => ?_
    have removes : Concludes (Reaches (Step.effect tools compiler request layout) start all
        (.removeCopy :: rest) { files, copy := some copy, options, outputs })
        (Pass.ofAction (Configuration.removeCopy copy))
        (fun _ => Reaches (Step.effect tools compiler request layout) start all rest
          { files, options, outputs })
        (Halts (Step.effect tools compiler request layout) start all none) :=
      action_reaches (Configuration.removeCopy copy) (fun _ => { files, options, outputs }) rfl rfl rfl
        fun _ => rfl
    exact removes.mono (fun _ reaches => reaches) (fun _ _ reaches => ⟨options, outputs, reaches⟩)
      fun _ _ halts => halts.fails

/-- The environment is known as long as every step has to succeed. -/
theorem Reaches.environment {early : List Step} {state : BuildState}
    (reaches : Reaches (Step.effect tools compiler request layout) start (early ++ rest) rest work state)
    (required : ∀ step ∈ early, step.isRequired) : state.session.environment = start.environment := by
  obtain ⟨split, leads, ⟨journal, relogs⟩, -, -⟩ := reaches
  obtain rfl := List.append_cancel_right split
  rw [relogs]
  exact leads.environment required

/-- The stages that every build of files has are the steps up to the descriptor of the output. -/
theorem requiredStages_reaches (tools : Toolchain) (compiler : Compiler) (request : Request)
    (layout : Layout) (start : Session) :
    Concludes (Reaches (Step.effect tools compiler request layout) start
        (steps request start.environment) (steps request start.environment) {})
      (requiredStages compiler request layout)
      (fun _ state => ∃ work : Work, work.copy = none ∧
        Reaches (Step.effect tools compiler request layout) start (steps request start.environment)
          ((optionalOrder request).map .stage) work state)
      (fun fault state => Fails (Step.effect tools compiler request layout) start
        (steps request start.environment) fault state.session) := by
  unfold requiredStages
  dsimp only
  refine Concludes.bind (required_keeps rfl rfl (carries_of_silent rfl) _ _) fun _ => ?_
  refine Concludes.bind (required_reaches rfl rfl carries_classifying _ _) fun found => ?_
  refine Concludes.of_exists fun files => Concludes.of_exists fun work =>
    Concludes.of_and fun ⟨told, same⟩ => ?_
  subst told same
  dsimp only [Option.getD_some]
  refine Concludes.bind ((action_reaches (copyConfiguration request layout)
    (fun copy => { files, copy := some copy }) rfl rfl rfl fun _ => rfl).mono
    (fun _ reaches => reaches) (fun _ _ reaches => reaches) fun _ _ halts => Halts.fails halts) fun copy => ?_
  refine Concludes.bind (compiling_reaches files copy) fun _ => ?_
  refine Concludes.of_exists fun options => Concludes.of_exists fun outputs => ?_
  refine Concludes.bind (required_keeps rfl rfl carries_copying _ _) fun _ => ?_
  refine Concludes.bind (Concludes.get.mono (fun _ reaches => reaches)
    (fun state other told => (⟨told.1 ▸ told.2.environment (by decide), told.2⟩ :
      state.session.environment = start.environment ∧ _)) fun _ _ lost => lost) fun state => ?_
  refine Concludes.of_and fun same => ?_
  rw [same]
  cases disabled : Tools.rewritesDisabled start.environment with
  | true =>
    exact (required_keeps rfl rfl carries_patching _ _).mono (fun _ reaches => reaches)
      (fun _ _ reaches => ⟨_, rfl, reaches⟩) fun _ _ fails => fails
  | false =>
    refine Concludes.bind (required_keeps rfl rfl carries_normalizing _ _) fun _ => ?_
    exact (required_keeps rfl rfl carries_patching _ _).mono (fun _ reaches => reaches)
      (fun _ _ reaches => ⟨_, rfl, reaches⟩) fun _ _ fails => fails

/-- The stages that follow are the last steps. Each is taken, whatever became of the one before. -/
theorem optionalStages_reaches (compiler : Compiler) (stops : request.runtimeOnly = false)
    (alone : work.copy = none) :
    Concludes (Reaches (Step.effect tools compiler request layout) start all
        ((optionalOrder request).map .stage) work)
      (optionalStages tools request layout)
      (fun _ => Reaches (Step.effect tools compiler request layout) start all [] work)
      (fun fault state => Fails (Step.effect tools compiler request layout) start all fault
        state.session) := by
  have declares : Carries (Step.effect tools compiler request layout) start all .declarations [] work _ _ :=
    carries_declarations
  have last := optional_reaches alone declares
  unfold optionalStages optionalOrder
  dsimp only
  rw [stops]
  cases plain : request.jsOnly with
  | true => exact last _ _
  | false =>
    refine Concludes.bind (optional_reaches alone (carries_of_silent rfl) _ _) fun _ => ?_
    cases binary : request.binary with
    | true => exact Concludes.bind (optional_reaches alone (carries_of_silent rfl) _ _) fun _ => last _ _
    | false => exact last _ _

/-- The stages among the steps that have been taken are those that have ended. -/
theorem Leads.map_fst {effect : Step → Work → Action Work} {done : List Step} {endings : List Ending}
    {session : Session} (leads : Leads effect start done endings work session) :
    endings.map Prod.fst = done.filterMap Step.stage? := by
  induction leads with
  | start => rfl
  | passed step _ _ _ inductionHypothesis =>
    rw [List.map_append, List.filterMap_append, inductionHypothesis]
    cases step <;> rfl
  | endured stage _ _ _ _ _ inductionHypothesis =>
    rw [List.map_append, List.filterMap_append, inductionHypothesis]
    rfl

/-- Only stages that need not succeed have failed behind which further steps were taken. -/
theorem Leads.optional {effect : Step → Work → Action Work} {done : List Step} {endings : List Ending}
    {session : Session} (leads : Leads effect start done endings work session) :
    ∀ ending ∈ endings, ending.2.isSome → ending.1.isRequired = false := by
  induction leads with
  | start => simp
  | passed step _ _ _ inductionHypothesis =>
    refine List.forall_mem_append.mpr ⟨inductionHypothesis, fun ending member failed => ?_⟩
    obtain ⟨stage, -, rfl⟩ := List.mem_map.mp member
    cases failed
  | endured stage _ _ _ optional _ inductionHypothesis =>
    refine List.forall_mem_append.mpr ⟨inductionHypothesis, fun ending member _ => ?_⟩
    rw [List.mem_singleton.mp member]
    exact optional

/-- Among the stages of a build only the last three need not succeed. -/
theorem mem_optional_of_mem_order {environment : Environment} (member : stage ∈ order request environment)
    (optional : stage.isRequired = false) : stage ∈ [Stage.styles, .binaries, .declarations] := by
  have listed : ∀ other ∈ [Stage.idle, .done, .failed], other ∉ order request environment := by
    intro other outside
    simp only [List.mem_cons, List.not_mem_nil, or_false] at outside
    unfold order optionalOrder
    rcases outside with rfl | rfl | rfl <;> split_ifs <;> simp
  cases stage with
  | styles | binaries | declarations => decide
  | idle | done | failed => exact absurd member (listed _ (by decide))
  | _ => cases optional

/-- How a report came about: every step was taken, and the report lists what became of the stages. -/
structure Completes (effect : Step → Work → Action Work) (start : Session) (steps : List Step)
    (stages : List Stage) (report : Report) (endings : List Ending) (final : Session) : Prop where
  leads : ∃ work last, Leads effect start steps endings work last ∧ Relogs last final
  order : endings.map Prod.fst = stages
  stages : report.stages = endings.flatMap Ending.entries
  optional : ∀ ending ∈ endings, ending.2.isSome → ending.1 ∈ [Stage.styles, .binaries, .declarations]
  failures : report.failures = endings.filterMap Ending.failure?
  done : report.state = .done

/-- A build that has taken all steps is done. -/
theorem Reaches.completes {state : BuildState}
    (reaches : Reaches (Step.effect tools compiler request layout) start
      (steps request start.environment) [] work state) :
    ∃ endings, Completes (Step.effect tools compiler request layout) start
      (steps request start.environment) (order request start.environment)
      { state.report with state := .done } endings state.session := by
  obtain @⟨done, endings, session, split, leads, relogs, listed, -⟩ := reaches
  obtain rfl : steps request start.environment = done := split.trans (List.append_nil done)
  have stages : endings.map Prod.fst = order request start.environment :=
    leads.map_fst.trans (filterMap_stage?_steps request start.environment)
  refine ⟨endings, ⟨work, session, leads, relogs⟩, stages, listed.stages, fun ending member failed => ?_,
    listed.failures, rfl⟩
  exact mem_optional_of_mem_order (stages ▸ List.mem_map_of_mem member) (leads.optional ending member failed)

/-- A build of files takes its steps, and ends with the report about them or fails. -/
theorem buildFiles_completes (tools : Toolchain) (compiler : Compiler) (request : Request)
    (layout : Layout) (start : Session) (mode : String) :
    Concludes (· = { session := start, report := { mode } })
      (buildFiles tools compiler request layout)
      (fun outcome state => ∃ report, outcome = .report report ∧ ∃ endings,
        Completes (Step.effect tools compiler request layout) start (steps request start.environment)
          (order request start.environment) report endings state.session)
      (fun fault state => Fails (Step.effect tools compiler request layout) start
        (steps request start.environment) fault state.session) := by
  have finishes {work : Work} : Concludes (Reaches (Step.effect tools compiler request layout) start
      (steps request start.environment) [] work)
      (Pass.update fun report => { report with state := .done })
      (fun _ state => ∃ endings, Completes (Step.effect tools compiler request layout) start
        (steps request start.environment) (order request start.environment) state.report endings
        state.session)
      (fun fault state => Fails (Step.effect tools compiler request layout) start
        (steps request start.environment) fault state.session) :=
    .modify _ fun state reaches => reaches.completes
  unfold buildFiles
  dsimp only
  refine Concludes.bind (Concludes.modify (Reaches (Step.effect tools compiler request layout) start
    (steps request start.environment) (steps request start.environment) {}) ?_) fun _ => ?_
  · rintro _ rfl
    exact .intro (List.nil_append _).symm .start ⟨_, rfl⟩ ⟨rfl, rfl⟩ rfl
  refine Concludes.bind (requiredStages_reaches tools compiler request layout start) fun _ => ?_
  refine Concludes.of_exists fun work => Concludes.of_and fun alone => ?_
  cases stops : request.runtimeOnly with
  | true =>
    rw [optionalOrder_eq_nil stops, List.map_nil]
    refine Concludes.bind finishes fun _ => Concludes.bind Concludes.get fun state => ?_
    exact .pure fun _ ⟨same, completes⟩ => ⟨state.report, rfl, same ▸ completes⟩
  | false =>
    refine Concludes.bind (optionalStages_reaches compiler stops alone) fun _ => ?_
    refine Concludes.bind finishes fun _ => Concludes.bind Concludes.get fun _ => ?_
    refine Concludes.bind (Concludes.modify (fun state => ∃ endings,
      Completes (Step.effect tools compiler request layout) start (steps request start.environment)
        (order request start.environment) state.report endings state.session) ?_) fun _ => ?_
    · rintro state ⟨-, endings, completes⟩
      obtain ⟨work, last, leads, relogs⟩ := completes.leads
      exact ⟨endings, { completes with leads := ⟨work, last, leads, relogs.log _⟩ }⟩
    · refine Concludes.bind Concludes.get fun state => ?_
      exact .pure fun _ ⟨same, completes⟩ => ⟨state.report, rfl, same ▸ completes⟩

/-- A build is refused before it begins, or it is that of its settled request with the compiler of the
project, which calls the tools of the build. -/
theorem run_cases (tools : Toolchain) (request : Request) (layout : Layout) (start : Session) :
    (∃ fault, run tools request layout start = (.error fault, start) ∧
      (request.normalized = .error fault ∨
        Compiler.ofLayout tools layout none start = (.error fault, start))) ∨
    ∃ (compiler : Compiler) (result : Except Fault Outcome) (state : BuildState),
      Compiler.ofLayout tools layout none start = (.ok compiler, start) ∧
      (compiler.tools = tools ∧ compiler.layout = layout) ∧
      (if request.settled.isLiteral then buildLiteral compiler request.settled layout
        else buildFiles tools compiler request.settled layout)
        { session := start, report := { mode := request.settled.mode.name } } = (result, state) ∧
      run tools request layout start = (result, state.session) := by
  unfold run
  rw [bind_apply, Action.ask_apply]
  cases told : request.normalized with
  | error fault => exact .inl ⟨fault, rfl, .inl rfl⟩
  | ok settled =>
    obtain ⟨-, rfl⟩ := Request.accepted_of_normalized told
    have unchanged : Ends (· = start) (Compiler.ofLayout tools layout none) (fun compiler session =>
        (compiler.tools = tools ∧ compiler.layout = layout) ∧ session = start) (· = start) :=
      Compiler.ofLayout_ends tools layout
    have found := unchanged.outcome start rfl
    dsimp only
    rw [bind_apply]
    rcases looked : Compiler.ofLayout tools layout none start with ⟨fault | compiler, session⟩
    · rw [looked] at found
      obtain rfl : session = start := found
      exact .inl ⟨fault, rfl, .inr rfl⟩
    · rw [looked] at found
      obtain ⟨own, rfl⟩ := found
      exact .inr ⟨compiler, _, _, rfl, own, rfl, rfl⟩

/-- A build of files takes its steps in their order. If it ends with a report, all of them were taken, and
the report lists the stages, of which only the last three can have failed. If it fails, then either before
the first step, or at a step: no later step is taken, and all that is done is to remove the copy of the
configuration. A stage that need not succeed is such a step only if the user interrupts it. -/
theorem run_takes_steps (tools : Toolchain) (request : Request) (layout : Layout) (start : Session)
    (isFiles : request.isLiteral = false) :
    match run tools request layout start with
    | (.ok outcome, final) => ∃ compiler report endings,
      Compiler.ofLayout tools layout none start = (.ok compiler, start) ∧ outcome = .report report ∧
        Completes (Step.effect tools compiler request.settled layout) start
          (steps request.settled start.environment) (order request.settled start.environment)
          report endings final
    | (.error fault, final) =>
      final = start ∧ (request.normalized = .error fault ∨
        Compiler.ofLayout tools layout none start = (.error fault, start)) ∨
      ∃ compiler, Compiler.ofLayout tools layout none start = (.ok compiler, start) ∧
        Fails (Step.effect tools compiler request.settled layout) start
          (steps request.settled start.environment) fault final := by
  have literal : request.settled.isLiteral = false := isFiles
  rcases run_cases tools request layout start with
    ⟨fault, ran, refused⟩ | ⟨compiler, result, state, found, -, ended, ran⟩
  · rw [ran]
    exact .inl ⟨rfl, refused⟩
  · rw [literal, if_neg Bool.false_ne_true] at ended
    have known := (buildFiles_completes tools compiler request.settled layout start
      request.settled.mode.name).outcome _ rfl
    rw [ended] at known
    rw [ran]
    rcases result with fault | outcome
    · exact .inr ⟨compiler, found, known⟩
    · obtain ⟨report, same, endings, completes⟩ := known
      exact ⟨compiler, report, endings, found, same, completes⟩

end

/-! ### A project whose declarations cannot be written -/

/-- A project with a style sheet and no modules. -/
def assetSession : Session where
  tree := ⟨[(["p"], .directory), (["p", "src"], .directory), (["p", "src", "a.css"], .file [98] false),
    (["t"], .directory)]⟩
  environment := []
  directory := ⟨.root, ["p"]⟩
  temporary := ⟨.root, ["t"]⟩
  clock := 1

/-- Tools that fail whenever they are called. -/
def brokenTools : Toolchain := ⟨fun _ tree => (.finished 1 "" "", tree)⟩

/-- All stages are gone through, and the one that calls a tool is the only one that has failed. -/
theorem run_takes_steps_of_asset : ∃ (report : Report) (endings : List Ending) (final : Session),
    run brokenTools { jsOnly := true } (.ofRoot ⟨.root, ["p"]⟩) assetSession =
        (.ok (.report report), final) ∧
      endings.map Prod.fst = [Stage.clearing, .classifying, .compiling, .copyingAssets, .normalizing,
        .patchingMetadata, .declarations] ∧
      report.stages = endings.flatMap Ending.entries ∧ report.failures.map Prod.fst = [.declarations] ∧
      final.tree.contentAt? ["p", "dist", "a.css"] = some [98] := by
  -- One evaluation of the build answers both questions.
  obtain ⟨kept, failed⟩ : (run brokenTools { jsOnly := true } (.ofRoot ⟨.root, ["p"]⟩) assetSession).2.tree.contentAt?
        ["p", "dist", "a.css"] = some [98] ∧
      ((run brokenTools { jsOnly := true } (.ofRoot ⟨.root, ["p"]⟩) assetSession).1.map
        fun outcome => match outcome with
          | .report report => report.failures.map Prod.fst
          | _ => []).toOption = some [.declarations] := by decide +kernel
  have taken := run_takes_steps brokenTools { jsOnly := true } (.ofRoot ⟨.root, ["p"]⟩) assetSession rfl
  rcases ran : run brokenTools { jsOnly := true } (.ofRoot ⟨.root, ["p"]⟩) assetSession with
    ⟨fault | outcome, final⟩
  · rw [ran] at failed
    cases failed
  · rw [ran] at taken failed kept
    obtain ⟨compiler, report, endings, -, rfl, completes⟩ := taken
    exact ⟨report, endings, final, rfl, completes.order, completes.stages, Option.some.inj failed, kept⟩

end TreeBuild.Build
