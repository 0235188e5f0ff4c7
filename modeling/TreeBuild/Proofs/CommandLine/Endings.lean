import TreeBuild.CommandLine.Program
import TreeBuild.Proofs.Build.Disturbance
import TreeBuild.Proofs.Build.Full

/-!
# How the command that builds ends

The program ends in one of three ways when it is called for a build. If the build succeeds, the status is zero,
and standard output has what was asked for: a report, the compiled text, or nothing when the text went to a
file. If anything fails, the status is one, and standard output has one line that tells the kind of the failure
and its message. If the user interrupts a tool, standard output stays empty and the status says so.

A build that fails has written nothing to standard output before, since its report is written at its end.

One fault is not told in this way. Calling for debugging sets the level of the loggers before the command is
carried out, and where the environment gives no level, the program fails with that fault and has no ending.
-/
namespace TreeBuild.CommandLine

open TreeBuild.Build

/-- What is said of a fault in the first place: of a rejected input the summary, without the diagnostic. -/
def headline : Fault → String
  | .compile summary _ => summary
  | fault => fault.message

/-- A call has succeeded, and standard output has what its request asks for: one object that tells of success
when files were built, otherwise the text that the compiler wrote, or nothing if that went to a file. -/
inductive Delivers (tools : Toolchain) (request : Request) (after : Session) : Ending → Prop where
  | report {report : Report} {fields : Json.Fields} (files : request.isLiteral = false)
      (done : report.state = .done) (object : Json.ofFields report.summary = .obj fields)
      (ok : fields.find? "ok" = some (.bool true)) :
      Delivers tools request after { status := 0, output := (Json.obj fields).pretty ++ "\n" }
  | text {text errors : String} {call : Invocation × Tree} (literal : request.isLiteral)
      (kept : request.noWrite) (made : call ∈ after.invocations)
      (wrote : (tools.run call.1 call.2).1 = .finished 0 text errors) :
      Delivers tools request after { status := 0, output := text }
  | nothing (literal : request.isLiteral) (writes : request.noWrite = false) :
      Delivers tools request after { status := 0, output := "" }

/-- A call has failed, and standard output has one object with the kind of the fault and its message. -/
inductive Tells (fault : Fault) : Ending → Prop where
  | object {fields : Json.Fields} (mild : fault.isInterruption = false) (object : fault.report = .obj fields)
      (ok : fields.find? "ok" = some (.bool false))
      (type : fields.find? "type" = some (.ofString fault.kind))
      (error : fields.find? "error" = some (.ofString (headline fault))) :
      Tells fault { status := 1, output := (Json.obj fields).compact ++ "\n" }

/-- A call that tells of a fault ends with the status one. -/
theorem Tells.status {fault : Fault} {ending : Ending} (tells : Tells fault ending) : ending.status = 1 := by
  cases tells
  rfl

variable {tools : Toolchain} {request : Request} {session : Session}

/-- A call that delivers ends with the status zero. -/
theorem Delivers.status {ending : Ending} (delivers : Delivers tools request session ending) :
    ending.status = 0 := by
  cases delivers <;> rfl

/-- What a build ends with is what its request asks for. -/
theorem delivers_of_fulfils {result : Outcome} (fulfils : Fulfils tools request session result) :
    Delivers tools request session (outcome result) := by
  cases fulfils with
  | @built report files done =>
    have isOk : report.isOk = true := done
    have ends : outcome (.report report) =
        { status := 0, output := (Json.ofFields report.summary).pretty ++ "\n" } := by
      simp [outcome, isOk]
    rw [ends]
    refine .report files (by simpa [Report.isOk] using done) rfl ?_
    simp [Json.Fields.find?, Json.Fields.get?, Report.summary, isOk]
  | compiled literal kept made wrote => exact .text literal kept made wrote
  | written literal writes => exact .nothing literal writes

/-- A fault that is no interruption is told of. -/
theorem tells_failure {fault : Fault} (mild : fault.isInterruption = false) : Tells fault (failure fault) := by
  have ends : failure fault = { status := 1, output := fault.report.compact ++ "\n" } := by
    simp [failure, mild]
  have first : Text.Units.ofString "ok" ≠ Text.Units.ofString "error" := by decide
  have second : Text.Units.ofString "type" ≠ Text.Units.ofString "error" := by decide
  have other : Text.Units.ofString "ok" ≠ Text.Units.ofString "type" := by decide
  rw [ends]
  cases fault with
  | interrupted => cases mild
  | _ =>
    exact .object mild rfl (by simp [Json.Fields.find?, Json.Fields.get?])
      (by simp [Json.Fields.find?, Json.Fields.get?, other])
      (by simp [Json.Fields.find?, Json.Fields.get?, first, second, headline])

/-! ### What comes before the build -/

/-- Creating a request may reject it, but it is no interruption. -/
theorem calmResult_create (development : Bool) (format : Given String) (options : Request) :
    CalmResult (Request.create development format options) := by
  have named : CalmResult (Request.formatOf format) := by
    unfold Request.formatOf
    split
    · exact .error rfl
    · rename_i name
      cases OutputFormat.ofName? name with
      | none => exact .error rfl
      | some format => exact .ok
  exact named.bind fun _ => .normalized _

/-- No call has been interrupted, and a copy of the configuration would get this name. -/
def IsUnmoved (tools : Toolchain) (start session : Session) : Prop :=
  session.IsUndisturbed tools ∧ session.temporary = start.temporary ∧ session.clock = start.clock

/-- Loading the settings of a project is not an interruption, however the environment file is read. -/
theorem loadBy_calm (reader : EnvironmentFile.Reader) (root : Path) : Calm (Settings.loadBy reader root) := by
  unfold Settings.loadBy
  refine (Calm.askFiles _).bind fun present => .either ((Calm.askFiles _).bind fun content => ?_) .pure
  refine Calm.get.bind fun session => (Calm.modify _).bind fun _ => ?_
  split
  · exact .throw rfl
  · exact .pure

/-- Loading the settings of a project changes nothing but the environment. -/
theorem loadBy_keeps (reader : EnvironmentFile.Reader) (root : Path) (start : Session) :
    Keeps (IsUnmoved tools start) (Settings.loadBy reader root) := by
  unfold Settings.loadBy
  refine (Keeps.askFiles _).bind fun present => ?_
  split
  · refine (Keeps.askFiles _).bind fun content => Keeps.get.bind fun session => ?_
    refine Keeps.bind (Ends.modify (IsUnmoved tools start) fun _ unmoved => unmoved) fun _ => ?_
    split
    · exact .throw
    · exact .pure
  · exact .pure

section

variable (reader : EnvironmentFile.Reader)

/-- The project is opened without a call of a tool. -/
theorem openProject_candid (path : String) (start : Session) :
    Concludes (IsUnmoved tools start) (openProject reader path) (fun _ => IsUnmoved tools start)
      (Reveals tools) := by
  have calm : Calm (openProject reader path) :=
    Calm.get.bind fun session => (Calm.ask fun tree => .resolvePath tree _).bind fun root =>
      (loadBy_calm reader root).bind fun _ => .pure
  have kept : Keeps (IsUnmoved tools start) (openProject reader path) :=
    Keeps.get.bind fun session => (Keeps.ask _).bind fun root => (loadBy_keeps reader root start).bind fun _ => .pure
  refine ⟨fun session unmoved => ?_⟩
  have mild := calm session
  have ended := kept.outcome session unmoved
  rcases ran : openProject reader path session with ⟨fault | layout, after⟩
  · rw [ran] at mild ended
    exact .inl ⟨mild fault rfl, ended.1⟩
  · rw [ran] at ended
    exact ended

/-- The command that builds delivers what it is asked for, or accounts for what has happened. -/
theorem runBuild_accounts (standardInput : String) (asked : BuildArguments) {start : Session}
    (fresh : start.IsUndisturbed tools) :
    Concludes (· = start) (runBuild reader tools standardInput asked)
      (fun ending session => (∃ request, asked.toRequest standardInput = .ok request ∧
        Delivers tools request session ending) ∧ session.IsUndisturbed tools)
      (Accounts tools (Configuration.copyPath start.temporary start.clock)) := by
  unfold runBuild
  refine Concludes.bind ((openProject_candid reader "" start).mono (fun session same => ?_)
    (fun _ _ unmoved => unmoved) fun _ _ reveals => Reveals.accounts reveals) fun layout => ?_
  · subst same
    exact ⟨fresh, rfl, rfl⟩
  have calm : Candid tools (Action.ask fun _ => asked.toRequest standardInput) :=
    .ask fun _ => calmResult_create _ _ _
  refine Concludes.bind ((Concludes.and calm (Ends.ask _)).mono (fun session unmoved => ⟨unmoved.1, unmoved⟩)
    (fun _ _ told => told.2) fun _ _ told => Reveals.accounts told.1) fun request => ?_
  refine Concludes.of_and fun given => ⟨fun session unmoved => ?_⟩
  have builds := @run_accounts tools layout request session unmoved.1
  rw [unmoved.2.1, unmoved.2.2] at builds
  refine (Concludes.bind builds fun result => Concludes.pure fun after known => ?_).outcome session rfl
  exact ⟨⟨request, given, delivers_of_fulfils known.1⟩, known.2⟩

/-! ### The loggers -/

/-- A level that the environment does not give is no interruption. -/
theorem calmResult_levelFrom (environment : Environment) : CalmResult (Logging.levelFrom environment) := by
  unfold Logging.levelFrom Logging.levelOf
  dsimp only
  split_ifs
  · exact .error rfl
  · exact .error rfl
  · exact .ok

/-- The logger of the package is set up unless its level is missing. -/
theorem calmResult_configure (registry : Logging.Registry) (environment : Environment) :
    CalmResult (registry.configure environment) := by
  unfold Logging.Registry.configure
  exact CalmResult.either .ok ((calmResult_levelFrom environment).bind fun _ => .ok)

/-- Asking for a logger fails without an interruption. -/
theorem calmResult_obtain (registry : Logging.Registry) (environment : Environment) (name : String)
    (structured : Bool) : CalmResult (registry.obtain environment name structured) := by
  unfold Logging.Registry.obtain
  refine (calmResult_configure registry environment).bind fun registry => ?_
  exact .either .ok ((calmResult_levelFrom environment).bind fun _ => .ok)

/-- The loggers of a command are asked for before anything else, and where that fails no tool was called. -/
theorem carryOut_accounts (keepWatching : Watcher → Action Unit) (standardInput : String)
    (loggers : Logging.Registry) (asked : BuildArguments) {start : Session}
    (fresh : start.IsUndisturbed tools) :
    Concludes (· = start) (carryOut reader tools keepWatching standardInput loggers (.build asked))
      (fun ending session => (∃ request, asked.toRequest standardInput = .ok request ∧
        Delivers tools request session ending) ∧ session.IsUndisturbed tools)
      (Accounts tools (Configuration.copyPath start.temporary start.clock)) := by
  have loaded : Concludes (· = start)
      (Action.ask fun _ => loadLoggers start.environment loggers (.build asked))
      (fun _ session => session = start) (Reveals tools) := by
    refine ⟨fun session same => ?_⟩
    subst same
    rw [Action.ask_apply]
    have calm : CalmResult (loadLoggers session.environment loggers (.build asked)) :=
      .foldlM (fun registry name => calmResult_obtain registry _ name false) _ _
    rcases told : loadLoggers session.environment loggers (.build asked) with fault | registry
    · exact .inl ⟨calm fault told, fresh⟩
    · rfl
  unfold carryOut
  refine ⟨fun session same => ?_⟩
  subst same
  exact (Concludes.bind ((Concludes.discard loaded).mono (fun _ same => same) (fun _ _ same => same)
    fun _ _ reveals => Reveals.accounts reveals) fun _ =>
      runBuild_accounts reader standardInput asked fresh).outcome session rfl

/-- The loggers get their level for debugging if the environment gives one in the first place. -/
theorem firstLoggers_debug (environment : Environment) :
    (∀ fault, Logging.levelFrom environment = .error fault → firstLoggers environment true = .error fault) ∧
      ∀ level, Logging.levelFrom environment = .ok level → ∃ loggers, firstLoggers environment true = .ok loggers := by
  constructor
  · intro fault failed
    simp only [firstLoggers, Logging.Registry.setLevel, Logging.Registry.configure, Logging.Registry.start]
    rw [failed]
    rfl
  · intro level given
    simp only [firstLoggers, Logging.Registry.setLevel, Logging.Registry.configure, Logging.Registry.start]
    rw [given]
    exact ⟨_, rfl⟩

/-- The loggers are set up if no level is asked for, or if the environment gives one in the first place. -/
theorem exists_firstLoggers {environment : Environment} {debug : Bool}
    (levelled : debug = true → ∃ level, Logging.levelFrom environment = .ok level) :
    ∃ loggers, firstLoggers environment debug = .ok loggers := by
  cases debug with
  | false => exact ⟨_, rfl⟩
  | true =>
    obtain ⟨level, given⟩ := levelled rfl
    exact (firstLoggers_debug environment).2 level given

/-! ### The ways to end -/

/-- A fault that is accounted for is told of, or is an interruption and leaves standard output empty. Then a call
was interrupted; and if one was, the status says so, as long as the copy of the configuration can still be
removed behind such a call. -/
theorem failure_accounts {copy : Path} {fault : Fault} {after : Session} (accounts : Accounts tools copy fault after) :
    (Tells fault (failure fault) ∨
      fault = .interrupted ∧ failure fault = { status := interruptedStatus, output := "" }) ∧
    ((failure fault).status = interruptedStatus → ∃ call ∈ after.invocations, tools.Interrupts call) ∧
    ((∀ call ∈ after.invocations, tools.Interrupts call →
        Configuration.isRemovable (tools.run call.1 call.2).2 copy) →
      (∃ call ∈ after.invocations, tools.Interrupts call) → (failure fault).status = interruptedStatus) := by
  cases mild : fault.isInterruption with
  | false =>
    have tells := tells_failure mild
    refine ⟨.inl tells, fun interrupted => ?_, fun removable struck => ?_⟩
    · cases tells.status.symm.trans interrupted
    · obtain ⟨call, made, interrupts⟩ := struck
      rcases accounts.told mild with untouched | ⟨other, member, struck, stuck⟩
      · exact absurd interrupts (untouched call made)
      · exact absurd (removable other member struck) (by simp [stuck])
  | true =>
    have ends : failure fault = { status := interruptedStatus, output := "" } := by simp [failure, mild]
    rw [ends]
    cases fault with
    | interrupted => exact ⟨.inr ⟨rfl, rfl⟩, fun _ => accounts.tells mild, fun _ _ => rfl⟩
    | _ => cases mild

/-- A call sets the level of the loggers first; a fault of the command itself becomes its ending. -/
theorem runBy_apply (tools : Toolchain) (keepWatching : Watcher → Action Unit) (standardInput : String)
    {arguments : List String} {line : Call} (parsed : read arguments = .ok line) (start : Session) :
    runBy reader tools keepWatching standardInput arguments start =
      match firstLoggers start.environment line.debug with
      | .error fault => (.error fault, start)
      | .ok loggers =>
        match carryOut reader tools keepWatching standardInput loggers line.command start with
        | (.ok ending, after) => (.ok ending, after)
        | (.error fault, after) => (.ok (failure fault), after) := by
  have given : (get : Action Session) start = (.ok start, start) := rfl
  unfold runBy
  rw [parsed]
  dsimp only
  rw [bind_apply, given]
  dsimp only
  rw [bind_apply, Action.ask_apply]
  cases firstLoggers start.environment line.debug with
  | error fault => rfl
  | ok loggers =>
    dsimp only
    rw [bind_apply]
    unfold Action.attempt
    rcases carryOut reader tools keepWatching standardInput loggers line.command start with
      ⟨fault | ending, after⟩ <;> rfl

/-- A call for a build ends in one of three ways: it delivers what it is asked for, it tells of the fault with
which the build has failed, or it is interrupted and writes nothing. The last happens only if the call of a
tool was interrupted. It happens whenever one was, as long as the copy of the configuration can still be
removed behind such a call.

A call for debugging does not get that far where the environment gives no level for the loggers: it fails
with that fault, and has no ending of its own. -/
theorem build_ends_in_three_ways (keepWatching : Watcher → Action Unit) (standardInput : String)
    {arguments : List String} {debug : Bool} {asked : BuildArguments}
    (parsed : read arguments = .ok { debug, command := .build asked })
    {start : Session} (fresh : start.invocations = []) :
    (∀ fault, debug = true → Logging.levelFrom start.environment = .error fault →
      runBy reader tools keepWatching standardInput arguments start = (.error fault, start)) ∧
    ((debug = true → ∃ level, Logging.levelFrom start.environment = .ok level) →
      ∃ loggers ending after, firstLoggers start.environment debug = .ok loggers ∧
        runBy reader tools keepWatching standardInput arguments start = (.ok ending, after) ∧
        ((∃ request, asked.toRequest standardInput = .ok request ∧ Delivers tools request after ending) ∨
          (∃ fault, carryOut reader tools keepWatching standardInput loggers (.build asked) start =
              (.error fault, after) ∧ Tells fault ending) ∨
          carryOut reader tools keepWatching standardInput loggers (.build asked) start =
              (.error .interrupted, after) ∧
            ending = { status := interruptedStatus, output := "" }) ∧
        (ending.status = interruptedStatus → ∃ call ∈ after.invocations, tools.Interrupts call) ∧
        ((∀ call ∈ after.invocations, tools.Interrupts call →
            Configuration.isRemovable (tools.run call.1 call.2).2
              (Configuration.copyPath start.temporary start.clock)) →
          (∃ call ∈ after.invocations, tools.Interrupts call) → ending.status = interruptedStatus)) := by
  have begins := runBy_apply reader tools keepWatching standardInput parsed start
  refine ⟨fun fault debugs failed => ?_, fun levelled => ?_⟩
  · subst debugs
    rw [begins, (firstLoggers_debug start.environment).1 fault failed]
  obtain ⟨loggers, first⟩ := exists_firstLoggers levelled
  simp only [first] at begins
  have undisturbed : start.IsUndisturbed tools := by simp [Session.IsUndisturbed, fresh]
  have ended := (carryOut_accounts reader keepWatching standardInput loggers asked undisturbed).outcome start rfl
  rcases ran : carryOut reader tools keepWatching standardInput loggers (.build asked) start with
    ⟨fault | ending, after⟩
  · rw [ran] at ended begins
    obtain ⟨ways, interrupted, interrupts⟩ := failure_accounts ended
    refine ⟨loggers, failure fault, after, first, begins, .inr ?_, interrupted, interrupts⟩
    rcases ways with tells | ⟨rfl, same⟩
    · exact .inl ⟨fault, ran, tells⟩
    · exact .inr ⟨ran, same⟩
  · rw [ran] at ended begins
    refine ⟨loggers, ending, after, first, begins, .inl ended.1, fun interrupted => ?_, fun _ struck => ?_⟩
    · obtain ⟨⟨request, -, delivers⟩, -⟩ := ended
      cases delivers.status.symm.trans interrupted
    · obtain ⟨call, made, interrupts⟩ := struck
      exact absurd interrupts (ended.2 call made)

end

/-- Tools of which every call is interrupted. -/
def interruptedTools : Toolchain := ⟨fun _ tree => (.interrupted, tree)⟩

/-- When the user interrupts the compiler, a call for a build writes nothing, and its status says so. -/
theorem build_ends_in_three_ways_of_module : ∃ after,
    run interruptedTools (fun _ => pure ()) "" ["build", "-r"] moduleSession =
      (.ok { status := interruptedStatus, output := "" }, after) := by
  have calls : (run interruptedTools (fun _ => pure ()) "" ["build", "-r"] moduleSession).2.invocations.map
      (fun call => Configuration.isRemovable call.2
        (Configuration.copyPath moduleSession.temporary moduleSession.clock)) = [true] := by decide +kernel
  obtain ⟨-, ends⟩ := @build_ends_in_three_ways interruptedTools EnvironmentFile.reader
    (fun _ => pure ()) "" ["build", "-r"] false _ rfl moduleSession rfl
  obtain ⟨loggers, ending, after, -, ran, ways, -, interrupts⟩ := ends (fun debugs => by cases debugs)
  rw [run, ran] at calls
  obtain ⟨call, single, removable⟩ := List.map_eq_singleton_iff.mp calls
  have status : ending.status = interruptedStatus := by
    refine interrupts (fun other made _ => ?_) ⟨call, ?_, rfl⟩
    · rw [single, List.mem_singleton] at made
      exact made ▸ removable
    · rw [single]
      exact List.mem_singleton_self call
  refine ⟨after, ?_⟩
  rw [run, ran]
  rcases ways with ⟨request, -, delivers⟩ | ⟨fault, -, tells⟩ | ⟨-, rfl⟩
  · cases delivers.status.symm.trans status
  · cases tells.status.symm.trans status
  · rfl

/-- A session whose environment gives the form of records in the place of a level. -/
def unlevelledSession : Session := { moduleSession with environment := [("LOG_LEVEL", "basic_format")] }

/-- Where the environment gives no level for the loggers, a call for debugging fails with that fault, though
there is nothing wrong with the project: it has no ending of its own. -/
theorem build_for_debugging_fails :
    run interruptedTools (fun _ => pure ()) "" ["--debug", "build", "-r"] unlevelledSession =
      (.error (.shape (.unknownLevel Logging.formatText)), unlevelledSession) := by
  rfl

end TreeBuild.CommandLine
