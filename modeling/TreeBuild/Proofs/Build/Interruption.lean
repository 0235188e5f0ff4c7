import TreeBuild.Build.Pipeline
import TreeBuild.Proofs.Session.Reading

/-!
# Nothing interrupts itself

An interruption is the one fault that no stage notes and that no handler of failures handles. The parts of a
build that call no tool raise none: whatever goes wrong in them, the fault has a cause of another kind.
-/
namespace TreeBuild

/-- A result that is no interruption. -/
def CalmResult {Answer : Type} (result : Except Fault Answer) : Prop :=
  ∀ fault, result = .error fault → fault.isInterruption = false

/-- A computation that is not interrupted, wherever it starts. -/
def Calm {State Answer : Type} (action : ExceptT Fault (StateM State) Answer) : Prop :=
  ∀ state, CalmResult (action state).1

/-- Tools whose calls are not interrupted. -/
structure Toolchain.IsCalm (tools : Toolchain) : Prop where
  finishes : ∀ invocation tree, (tools.run invocation tree).1 ≠ .interrupted
  breaks : ∀ invocation tree fault, (tools.run invocation tree).1 = .broken fault →
    fault.isInterruption = false

/-- Tools whose calls all finish. -/
theorem Toolchain.isCalm_of_finished {tools : Toolchain}
    (finishes : ∀ invocation tree, ∃ status output errors,
      (tools.run invocation tree).1 = .finished status output errors) : tools.IsCalm where
  finishes invocation tree interrupted := by
    obtain ⟨status, output, errors, finished⟩ := finishes invocation tree
    cases finished.symm.trans interrupted
  breaks invocation tree fault broken := by
    obtain ⟨status, output, errors, finished⟩ := finishes invocation tree
    cases finished.symm.trans broken

/-! ### Results -/

namespace CalmResult

variable {Answer Result Item : Type} {result : Except Fault Answer}

/-- An answer is no interruption. -/
theorem ok {answer : Answer} : CalmResult (.ok answer) := nofun

/-- A fault of another kind is no interruption. -/
theorem error {fault : Fault} (other : fault.isInterruption = false) :
    CalmResult (.error fault : Except Fault Answer) := by
  rintro _ ⟨rfl⟩
  exact other

/-- What follows an answer is interrupted only by itself. -/
theorem bind {next : Answer → Except Fault Result} (first : CalmResult result)
    (second : ∀ answer, CalmResult (next answer)) : CalmResult (result >>= next) := by
  cases result with
  | ok answer => exact second answer
  | error fault => exact error (first fault rfl)

/-- A choice between two results is no interruption if neither of them is. -/
theorem either {guard : Prop} [Decidable guard] {other : Except Fault Answer} (first : CalmResult result)
    (second : CalmResult other) : CalmResult (if guard then result else other) := by
  split
  · exact first
  · exact second

/-- A question that decides how to go on. -/
theorem whether {question : Except Fault Bool} {other : Except Fault Answer} (asked : CalmResult question)
    (first : CalmResult result) (second : CalmResult other) :
    CalmResult (question >>= fun answer => if answer then result else other) :=
  asked.bind fun _ => either first second

/-- What the system refuses is no interruption. -/
theorem file (result : Except FileFault Answer) : CalmResult (result.mapError .file) := by
  cases result with
  | ok answer => exact ok
  | error fault => exact error rfl

/-- Questions to the items of a list are interrupted together only if one of them is. -/
theorem mapM {question : Item → Except Fault Answer} (each : ∀ item, CalmResult (question item))
    (items : List Item) : CalmResult (items.mapM question) := by
  induction items with
  | nil => exact ok
  | cons item rest inductionHypothesis =>
    rw [List.mapM_cons]
    exact (each item).bind fun _ => inductionHypothesis.bind fun _ => ok

/-- So are steps that are taken with the items of a list one after another. -/
theorem foldlM {step : Answer → Item → Except Fault Answer}
    (each : ∀ answer item, CalmResult (step answer item)) (items : List Item) (start : Answer) :
    CalmResult (items.foldlM step start) := by
  induction items generalizing start with
  | nil => exact ok
  | cons item rest inductionHypothesis =>
    rw [List.foldlM_cons]
    exact (each start item).bind inductionHypothesis

/-- The first failure among results is one of theirs. -/
theorem allOrFirst {results : List (Except Fault Answer)} (each : ∀ result ∈ results, CalmResult result) :
    CalmResult (Action.allOrFirst results) := by
  induction results with
  | nil => exact ok
  | cons result rest inductionHypothesis =>
    have others := inductionHypothesis fun other member => each other (List.mem_cons_of_mem _ member)
    cases result with
    | error fault => exact error (each _ List.mem_cons_self fault rfl)
    | ok answer => exact others.bind fun _ => ok

/-! ### Questions -/

/-- Reading a path that was given is no interruption. -/
theorem path (given : Given String) : CalmResult given.path := by
  cases given with
  | proper text => exact ok
  | stray value => exact error rfl

/-- Finding out whether a request names a single path is no interruption. -/
theorem isSinglePath (request : Request) : CalmResult request.isSinglePath := by
  unfold Request.isSinglePath
  split
  · exact ok
  · exact (path request.input).bind fun _ => ok

/-- Settling a request may reject it, but not interrupt it. -/
theorem normalized (request : Request) : CalmResult request.normalized := by
  unfold Request.normalized
  split
  · rename_i fault cause
    refine error ?_
    unfold Request.fault? Request.targetFault? at cause
    grind [Fault.isInterruption]
  · exact ok

/-- Resolving a path may fail for a loop of links, but it is not interrupted. -/
theorem resolvePath (tree : Tree) (path : Path) : CalmResult (Sources.resolvePath tree path) := by
  unfold Sources.resolvePath
  dsimp only
  split
  · exact error rfl
  · split
    · exact error rfl
    · split
      · exact error rfl
      · exact ok

/-- The search for sources is not interrupted. -/
theorem discover (tree : Tree) (layout : Layout) (pattern : String) :
    CalmResult (Sources.discover tree layout pattern) := by
  have found : CalmResult (Sources.matchesOf tree layout pattern) := by
    unfold Sources.matchesOf
    split
    · exact file _
    · exact (file _).bind fun _ => ok
  have added (listed : List Path) (text : String) : CalmResult (Sources.addMatch tree listed text) := by
    exact (resolvePath tree _).bind fun path => either ok (whether (file _) ok ok)
  exact found.bind fun texts => (foldlM added _ _).bind fun paths => either ok ok

/-- A value that is no object has no fields, which is a fault of another kind. -/
theorem fieldsOf (value : Json) : CalmResult (Descriptor.fieldsOf value) := by
  unfold Descriptor.fieldsOf
  split
  · exact ok
  · exact error rfl

/-- A field that is asked for is there or not. -/
theorem givenIn? (descriptor : Json) (name : String) : CalmResult (Descriptor.givenIn? descriptor name) :=
  (fieldsOf descriptor).bind fun _ => ok

/-- A value that is no text is no path, which is a fault of another kind. -/
theorem pathOf (value : Json) : CalmResult (Descriptor.pathOf value) := by
  unfold Descriptor.pathOf
  split
  · exact ok
  · exact error rfl

/-- Choosing the options may fail for a value in the descriptor, but it is not interrupted. -/
theorem choose (request : Request) (descriptor : Json) (tsconfig : Option Path) :
    CalmResult (CompilerOptions.choose request descriptor tsconfig) := by
  have external : CalmResult (CompilerOptions.externalsOf request) := by
    unfold CompilerOptions.externalsOf
    split
    · refine CalmResult.bind ?_ fun _ => ok
      unfold Given.members
      split
      · exact ok
      · exact error rfl
    · exact ok
  exact external.bind fun _ => (givenIn? descriptor "platform").bind fun _ => ok

/-- A value that is no dictionary is a fault of another kind. -/
theorem dictionaryOf (value : Json) : CalmResult (Configuration.dictionaryOf value) := by
  have binding (index : Nat) (member : Json) : CalmResult (Configuration.pairBinding index member) := by
    unfold Configuration.pairBinding
    split
    · exact error rfl
    · split
      · exact ok
      · exact error rfl
    · exact error rfl
  unfold Configuration.dictionaryOf
  split
  · exact ok
  · exact (mapM (fun member : Json × Nat => binding member.2 member.1) _).bind fun _ => ok
  · refine error ?_
    split <;> rfl
  · exact error rfl

/-- Resolving a specifier fails where the system refuses to look, or where the target has no name. -/
theorem resolve (tree : Tree) (base : Path) (specifier : String) :
    CalmResult (Specifier.resolve tree base specifier) := by
  have sibling (target : Path) : CalmResult (Specifier.moduleExists tree target) := by
    unfold Specifier.moduleExists
    split
    · exact file _
    · exact error rfl
  have index (target : Path) : CalmResult (Specifier.indexExists tree target) :=
    whether (file _) (file _) ok
  -- What is tried last is tried in every case that nothing has settled before.
  refine either (whether (file _) ok ?_) ?_ <;>
    refine either ok (either (whether (sibling _) ok ?_) ?_) <;>
    exact whether (index _) ok ok

/-- Rewriting the specifiers of a text is not interrupted. -/
theorem normalizeText (tree : Tree) (base : Path) (label text : String) :
    CalmResult (Specifier.normalizeText tree base label text) := by
  refine (mapM (fun segment => ?_) _).bind fun _ => ok
  cases segment with
  | char c => exact ok
  | found clause =>
    refine either ok ((resolve tree base _).bind fun outcome => ?_)
    cases outcome with
    | asIs => exact ok
    | replaced other => exact either ok ok
    | unresolved => exact ok

end CalmResult

/-! ### Computations -/

namespace Calm

section

variable {State Answer Result : Type} {action other : ExceptT Fault (StateM State) Answer}
  {next : Answer → ExceptT Fault (StateM State) Result}

/-- An answer that is there already is not interrupted. -/
theorem pure {answer : Answer} : Calm (Pure.pure answer : ExceptT Fault (StateM State) Answer) :=
  fun _ => .ok

/-- Only an interruption interrupts. -/
theorem throw {fault : Fault} (different : fault.isInterruption = false) :
    Calm (MonadExcept.throw fault : ExceptT Fault (StateM State) Answer) :=
  fun _ => .error different

/-- Asking for the state is not interrupted. -/
theorem get : Calm (MonadState.get : ExceptT Fault (StateM State) State) := fun _ => .ok

/-- Changing the state is not interrupted. -/
theorem modify (change : State → State) :
    Calm (modify change : ExceptT Fault (StateM State) PUnit) := fun _ => .ok

/-- What follows may rely on what is known of the answer. -/
theorem bind_of {good : Answer → Prop} (first : Calm action)
    (gives : ∀ state answer, (action state).1 = .ok answer → good answer)
    (second : ∀ answer, good answer → Calm (next answer)) : Calm (action >>= next) := by
  intro state
  have known := first state
  have given := gives state
  rw [bind_apply]
  rcases run : action state with ⟨fault | answer, middle⟩
  · exact .error (known fault (by rw [run]))
  · exact second answer (given answer (by rw [run])) middle

/-- What is done after a calm computation is calm together with it. -/
theorem bind (first : Calm action) (second : ∀ answer, Calm (next answer)) : Calm (action >>= next) :=
  first.bind_of (fun _ _ _ => trivial) fun answer (_ : True) => second answer

/-- A calm computation stays so if its answer is not used. -/
theorem discard (calm : Calm action) : Calm (discard action) := calm.bind fun _ => pure

/-- A choice between two calm computations is calm. -/
theorem either {guard : Prop} [Decidable guard] (first : Calm action) (second : Calm other) :
    Calm (if guard then action else other) := by
  split
  · exact first
  · exact second

/-- A calm computation is calm for all items of a list, one after another. -/
theorem forIn {Item : Type} {items : List Item} {body : Item → ExceptT Fault (StateM State) PUnit}
    (each : ∀ item, Calm (body item)) :
    Calm (forIn items PUnit.unit fun item _ => do
      body item
      Pure.pure (ForInStep.yield PUnit.unit)) := by
  induction items with
  | nil => exact pure
  | cons item rest inductionHypothesis =>
    rw [List.forIn_cons]
    refine bind (bind (each item) fun _ => pure) fun step => ?_
    cases step with
    | done => exact pure
    | yield => exact inductionHypothesis

end

/-! ### Actions -/

section

variable {Answer Result Item : Type} {action : Action Answer}

/-- A question to the tree is calm if all its answers are. -/
theorem ask {question : Tree → Except Fault Answer} (calm : ∀ tree, CalmResult (question tree)) :
    Calm (Action.ask question) := by
  intro session
  rw [Action.ask_apply]
  exact calm session.tree

/-- A question whose refusal is a fault of a file is calm. -/
theorem askFiles (question : Tree → Except FileFault Answer) : Calm (Action.askFiles question) :=
  ask fun _ => .file _

/-- A change of the tree that may be refused is calm. -/
theorem changeFiles (change : Tree → Except FileFault Tree) : Calm (Action.changeFiles change) :=
  (askFiles change).bind fun _ => modify _

/-- So is one that leaves its traces when it is refused. -/
theorem alterFiles (change : Tree → Except FileFault Unit × Tree) : Calm (Action.alterFiles change) := by
  refine get.bind fun session => ?_
  rcases change session.tree with ⟨fault | done, tree⟩
  · exact (modify _).bind fun _ => throw rfl
  · exact (modify _).bind fun _ => pure

/-- A record of the log is calm. -/
theorem record (source : String) (level : Level) (message : String) :
    Calm (Action.record source level message) := modify _

/-- Reading a text is calm: there may be no file, or no text in it. -/
theorem readText (path : Path) : Calm (Action.readText path) := by
  refine (askFiles _).bind fun bytes => ?_
  split
  · exact pure
  · exact throw rfl

/-- Writing a text is calm. -/
theorem writeText (path : Path) (text : String) : Calm (Action.writeText path text) := changeFiles _

/-- An action whose outcome is looked at does not fail, and its failure is no interruption. -/
theorem attempt_bind {next : Except Fault Answer → Action Result} (calm : Calm action)
    (second : ∀ result, CalmResult result → Calm (next result)) : Calm (Action.attempt action >>= next) := by
  refine bind_of (fun session => ?_) (fun session result told => ?_) second
  · unfold Action.attempt
    rcases action session with ⟨result, after⟩
    exact .ok
  · have known := calm session
    unfold Action.attempt at told
    rcases action session with ⟨outcome, after⟩
    exact Except.ok.inj told ▸ known

/-- Several actions that are not interrupted are all done, and none of their results is an interruption. -/
theorem settle_bind {actions : List (Action Answer)} {next : List (Except Fault Answer) → Action Result}
    (each : ∀ action ∈ actions, Calm action)
    (second : ∀ results, (∀ result ∈ results, CalmResult result) → Calm (next results)) :
    Calm (Action.settle actions >>= next) := by
  induction actions generalizing Result with
  | nil => exact pure.bind_of (fun _ _ told => Except.ok.inj told ▸ by simp) second
  | cons action rest inductionHypothesis =>
    unfold Action.settle
    rw [bind_assoc]
    refine attempt_bind (each action List.mem_cons_self) fun result known => ?_
    split
    · exact absurd (known .interrupted rfl) (by decide)
    · rw [bind_assoc]
      refine inductionHypothesis (fun other member => each other (List.mem_cons_of_mem _ member))
        fun results others => pure.bind_of (fun _ _ told => Except.ok.inj told ▸ ?_) second
      exact List.forall_mem_cons.mpr ⟨known, others⟩

/-- Calm computations are calm together. -/
theorem all {actions : List (Action Answer)} (each : ∀ action ∈ actions, Calm action) :
    Calm (Action.all actions) := by
  refine settle_bind each fun results known => ?_
  split
  · exact pure
  · rename_i fault told
    exact throw (CalmResult.allOrFirst known fault told)

/-- So they are if they are the same one for all items of a list. -/
theorem all_map {action : Item → Action Answer} (items : List Item) (each : ∀ item, Calm (action item)) :
    Calm (Action.all (items.map action)) := by
  refine all fun _ member => ?_
  obtain ⟨item, -, rfl⟩ := List.mem_map.mp member
  exact each item

end

/-! ### Reading and writing -/

/-- Reading a file that may be missing is calm if both ways to go on are. -/
theorem readJson {Answer : Type} {path : Path} {whenAbsent : Action Answer} {whenRead : String → Action Answer}
    (absent : Calm whenAbsent) (read : ∀ text, Calm (whenRead text)) :
    Calm (Action.attempt (Action.readText path) >>= fun result =>
      match result with
      | .error (.file (.refused .noEntry _)) => whenAbsent
      | .error fault => MonadExcept.throw fault
      | .ok text => whenRead text) := by
  refine attempt_bind (readText path) fun result known => ?_
  split
  · exact absent
  · exact throw (known _ rfl)
  · exact read _

/-- Reading the descriptor of a project is calm. -/
theorem readDescriptor (layout : Layout) : Calm (Descriptor.read layout) := by
  refine readJson pure fun text => ?_
  split
  · exact pure
  · exact pure
  · exact throw rfl

/-- Asking for one field of the descriptor is calm. -/
theorem given? (layout : Layout) (name : String) : Calm (Descriptor.given? layout name) := by
  refine (readDescriptor layout).bind fun value => ?_
  split
  · rename_i told
    exact throw (CalmResult.givenIn? _ _ _ told)
  · exact pure

/-- Asking for a path in the descriptor is calm. -/
theorem descriptorPath (layout : Layout) (name : String) (default : Path) :
    Calm (Descriptor.path layout name default) := by
  refine (given? layout name).bind fun value => ?_
  split
  · exact pure
  · split
    · exact pure
    · rename_i told
      exact throw (CalmResult.pathOf _ _ told)

/-- Finding where the program of a package begins is calm. -/
theorem binaryEntry (layout : Layout) : Calm (Auxiliary.binaryEntry layout) := by
  refine (readDescriptor _).bind fun _ => ?_
  split
  · rename_i told
    exact throw (CalmResult.fieldsOf _ _ told)
  · dsimp only
    split
    · exact pure
    · split
      · exact pure
      · rename_i told
        exact throw (CalmResult.pathOf _ _ told)

/-- Finding the options for a request is calm. -/
theorem ofRequest (request : Request) (layout : Layout) (tsconfig : Option Path) :
    Calm (CompilerOptions.ofRequest request layout tsconfig) :=
  (readDescriptor layout).bind fun _ => ask fun _ => .choose _ _ _

/-- Writing a relative path as an absolute one is calm. -/
theorem replacement? (base : Path) (isRelative : String → Bool) (value : Option Json) :
    Calm (Configuration.replacement? base isRelative value) := by
  unfold Configuration.replacement?
  split
  · refine either ?_ pure
    exact (bind (ask fun _ => .resolvePath _ _) fun _ => pure).bind fun _ => pure
  · exact pure

/-- Deriving a configuration is calm. -/
theorem derive (path : Path) : Calm (Configuration.derive path) := by
  have options (base : Path) (options : Json.Dictionary) : Calm (Configuration.deriveOptions base options) :=
    (replacement? _ _ _).bind fun _ => pure
  have fields (base : Path) (fields : Json.Fields) : Calm (Configuration.deriveFields base fields) := by
    refine (replacement? _ _ _).bind fun _ => ?_
    dsimp only
    split
    · rename_i told
      exact throw (CalmResult.dictionaryOf _ _ told)
    · exact (options _ _).bind fun _ => pure
  have read : Calm (Configuration.read path) := by
    refine readJson pure fun text => ?_
    split
    · exact pure
    · exact throw rfl
  refine read.bind fun value => ?_
  split
  · exact (fields _ _).bind fun _ => pure
  · exact throw rfl

/-- Making the copy of a configuration is calm. -/
theorem makeCopy (path : Path) : Calm (Configuration.makeCopy path) := by
  refine get.bind fun session => ?_
  exact (bind (modify _) fun _ => (derive path).bind fun _ => (writeText _ _).bind fun _ => pure)

/-- Removing the copy is calm. -/
theorem removeCopy (copy : Path) : Calm (Configuration.removeCopy copy) := changeFiles _

/-! ### The output -/

/-- Removing the output of a source is calm. -/
theorem invalidate (destination : Path) : Calm (Output.invalidate destination) := by
  refine get.bind fun session => ?_
  split
  · exact (modify _).bind fun _ => pure
  · exact pure
  · exact throw rfl

/-- Removing the counterpart of a directory is calm. -/
theorem removeCounterpart (directory : Path) (layout : Layout) :
    Calm (Output.removeCounterpart directory layout) := by
  unfold Output.removeCounterpart
  split
  · exact pure
  · refine either pure ((askFiles _).bind fun _ => either ?_ pure)
    exact (alterFiles _).bind fun _ => pure

/-- Removing the whole output tree is calm. -/
theorem clearOutput (output : Path) : Calm (Output.clear output) :=
  (askFiles _).bind fun _ => either (alterFiles _) pure

/-- Patching the descriptor of the output is calm. -/
theorem patchType (output : Path) (format : OutputFormat) : Calm (Output.patchType output format) := by
  have read (descriptor : Path) : Calm (Output.readDescriptor descriptor) := by
    refine readJson pure fun text => ?_
    split
    · exact pure
    · exact throw rfl
  refine (read _).bind fun _ => either pure ?_
  exact (alterFiles _).bind fun _ => (writeText _ _).bind fun _ => pure

/-- Copying the assets is calm. -/
theorem copyAssets (files : List SourceFile) (layout : Layout) : Calm (Output.copyAssets files layout) := by
  have each (file : SourceFile) : Calm (Output.copyAsset layout file) :=
    (alterFiles _).bind fun _ => (changeFiles _).bind fun _ => pure
  refine attempt_bind (all_map files each) fun result known => ?_
  split
  · exact pure
  · refine throw ?_
    split <;> rfl
  · exact throw (known _ rfl)

/-- Rewriting the specifiers of the outputs is calm. -/
theorem normalizeFiles (paths : List Path) (source : Path → Option SourceFile) :
    Calm (Specifier.normalizeFiles paths source) := by
  refine (askFiles _).bind fun _ => all_map _ fun path => ?_
  refine (readText _).bind fun text => (ask fun _ => .normalizeText _ _ _ _).bind fun normalized => ?_
  have noted := @forIn Session _ normalized.unresolved _ fun unresolved =>
    record Specifier.logSource .warning unresolved.message
  refine either ?_ ?_
  · exact (writeText _ _).bind fun _ => noted.bind fun _ => pure
  · exact noted.bind fun _ => pure

/-! ### Tools -/

/-- Finding a tool of the project is calm. -/
theorem find (root : Option Path) (name : String) : Calm (Tools.find root name) := by
  refine get.bind fun session => ?_
  split
  · exact pure
  · exact throw rfl

/-- Finding the compiler is calm. -/
theorem ofLayout (tools : Toolchain) (layout : Layout) (program : Option String) :
    Calm (Compiler.ofLayout tools layout program) := by
  unfold Compiler.ofLayout
  split
  · exact pure
  · exact (find _ _).bind fun _ => pure

/-! ### Parts of a build -/

/-- Clearing is calm. -/
theorem clear (request : Request) (layout : Layout) : Calm (Build.clear request layout) := by
  refine (ask fun _ => .isSinglePath _).bind fun _ => either ?_ (either (clearOutput _) pure)
  exact (ask fun _ => .path _).bind fun _ => either (invalidate _).discard pure

/-- Classifying is calm. -/
theorem discoverInput (request : Request) (layout : Layout) : Calm (Build.discoverInput request layout) :=
  ask fun _ => ((CalmResult.path request.input).bind fun _ => .ok).bind fun _ => .discover _ _ _

/-- Copying the configuration of a request is calm. -/
theorem copyConfiguration (request : Request) (layout : Layout) :
    Calm (Build.copyConfiguration request layout) :=
  (ask fun _ => .path _).bind fun _ => makeCopy _

end Calm

end TreeBuild
