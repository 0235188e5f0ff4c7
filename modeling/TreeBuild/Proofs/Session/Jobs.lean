import Mathlib.Data.List.Forall2
import Mathlib.Data.List.Nodup
import Mathlib.Logic.Relation
import TreeBuild.Proofs.Session.Reading
import TreeBuild.Proofs.Tree.Kinds

/-!
# Jobs that go on side by side

A job works on a project by single operations: it reads a file, asks what is there, writes a file or logs a
warning, and what it does next depends on the answer. Done in one go, a job is an action. Several jobs may
go on side by side, each operation of any of them being followed by one of any other; jobs that are done one
after the other are a special case. However they take turns, they come to an end. A job that reads and writes
one file alone goes on among others as it would by itself, if the others keep to other files: what is there
does not change, and what its file holds is its own doing.
-/
namespace TreeBuild

/-- What a job does without being interrupted by another. -/
inductive Operation : Type → Type where
  | read (path : Path) : Operation String
  | isFile (path : Path) : Operation Bool
  | isDirectory (path : Path) : Operation Bool
  | write (path : Path) (text : String) : Operation Unit
  | warn (source message : String) : Operation Unit

namespace Operation

/-- An operation as an action. -/
def act {Reply : Type} : Operation Reply → Action Reply
  | read path => Action.readText path
  | isFile path => Action.askFiles (·.isFile path)
  | isDirectory path => Action.askFiles (·.isDirectory path)
  | write path text => Action.writeText path text
  | warn source message => Action.record source .warning message

/-- No file is read or written but the one at a path. Asking what is there is free. -/
def IsConfined (own : Path) {Reply : Type} : Operation Reply → Prop
  | read path => path = own
  | write path _ => path = own
  | isFile _ | isDirectory _ | warn _ _ => True

end Operation

/-- A computation on a project, operation by operation. -/
inductive Job (Answer : Type) : Type 1 where
  | ended (result : Except Fault Answer)
  | going {Reply : Type} (operation : Operation Reply) (next : Reply → Job Answer)

namespace Job

variable {Answer Result : Type}

/-- A job that goes on with the answer of another, unless that one fails. -/
def bind : Job Answer → (Answer → Job Result) → Job Result
  | ended (.ok answer), further => further answer
  | ended (.error fault), _ => ended (.error fault)
  | going operation next, further => going operation fun reply => (next reply).bind further

instance : Monad Job where
  pure answer := ended (.ok answer)
  bind := bind

/-- A job that passes its answer on is the job itself. -/
theorem bind_ended (job : Job Answer) : (job >>= fun answer => ended (.ok answer)) = job := by
  induction job with
  | ended result => cases result <;> rfl
  | going operation next inductionHypothesis => exact congrArg (going operation) (funext inductionHypothesis)

/-- Jobs that follow each other may be put together from either end. -/
theorem bind_bind {Further : Type} (job : Job Answer) (second : Answer → Job Result)
    (third : Result → Job Further) :
    job >>= second >>= third = job >>= fun answer => second answer >>= third := by
  induction job with
  | ended result => cases result <;> rfl
  | going operation next inductionHypothesis => exact congrArg (going operation) (funext inductionHypothesis)

instance : LawfulMonad Job := LawfulMonad.mk' _ bind_ended (fun _ _ => rfl) bind_bind

/-- The job of a single operation. -/
def once (operation : Operation Answer) : Job Answer := going operation fun reply => ended (.ok reply)

/-- A job done in one go. -/
def run : Job Answer → Action Answer
  | ended (.ok answer) => pure answer
  | ended (.error fault) => throw fault
  | going operation next => do
    let reply ← operation.act
    (next reply).run

/-- What is left of a job after its next operation. A fault ends it. -/
def advance (session : Session) : Job Answer → Option (Job Answer × Session)
  | ended _ => none
  | going operation next =>
    match operation.act session with
    | (.ok reply, after) => some (next reply, after)
    | (.error fault, after) => some (ended (.error fault), after)

/-- A job that goes on advances by the operation that is next. -/
theorem advance_going {Reply : Type} (operation : Operation Reply) (next : Reply → Job Answer)
    (session : Session) :
    (going operation next).advance session =
      match operation.act session with
      | (.ok reply, after) => some (next reply, after)
      | (.error fault, after) => some (ended (.error fault), after) := rfl

/-- No file is read or written in a job but the one at a path. -/
def IsConfined (own : Path) : Job Answer → Prop
  | ended _ => True
  | going operation next => operation.IsConfined own ∧ ∀ reply, (next reply).IsConfined own

/-- Running a job and what follows it is running both one after the other. -/
theorem run_bind (job : Job Answer) (further : Answer → Job Result) :
    (job >>= further).run = job.run >>= fun answer => (further answer).run := by
  induction job with
  | ended result =>
    cases result with
    | ok answer => exact (pure_bind answer fun answer => (further answer).run).symm
    | error fault => rfl
  | going operation next inductionHypothesis =>
    change (operation.act >>= fun reply => (next reply >>= further).run) = (operation.act >>= _) >>= _
    simp only [inductionHypothesis, bind_assoc]

/-- A job of one operation is run by this operation. -/
theorem run_once (operation : Operation Answer) : (once operation).run = operation.act :=
  bind_pure operation.act

/-- What follows a confined job may be put behind it if that is confined, too. -/
theorem IsConfined.bind {own : Path} {job : Job Answer} {further : Answer → Job Result}
    (confined : job.IsConfined own) (later : ∀ answer, (further answer).IsConfined own) :
    (job >>= further).IsConfined own := by
  induction job with
  | ended result =>
    cases result with
    | ok answer => exact later answer
    | error fault => trivial
  | going operation next inductionHypothesis =>
    exact ⟨confined.1, fun reply => inductionHypothesis reply (confined.2 reply)⟩

/-- A confined job for every item of a list is confined. -/
theorem IsConfined.forIn {own : Path} {Item : Type} {items : List Item} {job : Item → Job Unit}
    (each : ∀ item, (job item).IsConfined own) :
    (forIn items PUnit.unit fun item _ => do
      job item
      pure (ForInStep.yield PUnit.unit) : Job PUnit).IsConfined own := by
  induction items with
  | nil => trivial
  | cons item rest inductionHypothesis =>
    rw [List.forIn_cons, bind_assoc]
    exact (each item).bind fun _ => inductionHypothesis

/-- A job for each of some items is done in one go when all are. -/
theorem run_forIn {Item : Type} (items : List Item) (job : Item → Job Unit) :
    (forIn items PUnit.unit fun item _ => do
      job item
      pure (ForInStep.yield PUnit.unit) : Job PUnit).run =
    (forIn items PUnit.unit fun item _ => do
      (job item).run
      pure (ForInStep.yield PUnit.unit) : Action PUnit) := by
  induction items with
  | nil => rfl
  | cons item rest inductionHypothesis =>
    simp only [List.forIn_cons, bind_assoc, pure_bind, run_bind, inductionHypothesis]

/-! ### Jobs that only ask -/

/-- A job that asks piece by piece what is there, to answer a question about the whole tree. It reads and writes
no file. -/
structure Asks (job : Job Answer) (question : Tree → Except Fault Answer) : Prop where
  run_eq : job.run = Action.ask question
  confined (own : Path) : job.IsConfined own

/-- A job that has an answer asks nothing. -/
theorem asks_pure (answer : Answer) : Asks (Pure.pure answer) fun _ => .ok answer where
  run_eq := by
    funext session
    rw [Action.ask_apply]
    rfl
  confined _ := trivial

/-- A job that has failed asks nothing. -/
theorem asks_fail (fault : Fault) : Asks (ended (.error fault) : Job Answer) fun _ => .error fault where
  run_eq := by
    funext session
    rw [Action.ask_apply]
    rfl
  confined _ := trivial

/-- Looking up a file asks whether there is one. -/
theorem asks_isFile (path : Path) :
    Asks (once (.isFile path)) fun tree => (tree.isFile path).mapError .file :=
  ⟨run_once _, fun _ => ⟨trivial, fun _ => trivial⟩⟩

/-- Looking up a directory asks whether there is one. -/
theorem asks_isDirectory (path : Path) :
    Asks (once (.isDirectory path)) fun tree => (tree.isDirectory path).mapError .file :=
  ⟨run_once _, fun _ => ⟨trivial, fun _ => trivial⟩⟩

/-- Two jobs of which the second goes on with the answer ask both questions one after the other. -/
theorem Asks.bind {job : Job Answer} {question : Tree → Except Fault Answer}
    {further : Answer → Job Result} {later : Answer → Tree → Except Fault Result}
    (asks : job.Asks question) (next : ∀ answer, (further answer).Asks (later answer)) :
    (job >>= further).Asks fun tree => question tree >>= fun answer => later answer tree where
  run_eq := by
    funext session
    rw [run_bind, asks.run_eq, bind_apply, Action.ask_apply, Action.ask_apply]
    cases question session.tree with
    | error fault => rfl
    | ok answer =>
      dsimp only
      rw [(next answer).run_eq, Action.ask_apply]
      rfl
  confined own := (asks.confined own).bind fun answer => (next answer).confined own

/-- A job that is chosen by a condition asks the question that is chosen by it. -/
theorem Asks.ite {condition : Prop} [Decidable condition] {job other : Job Answer}
    {question alternative : Tree → Except Fault Answer} (yes : job.Asks question)
    (no : other.Asks alternative) :
    (if condition then job else other).Asks fun tree => if condition then question tree else alternative tree := by
  by_cases holds : condition
  · simpa only [if_pos holds] using yes
  · simpa only [if_neg holds] using no

/-- Jobs for all items of a list ask the questions for all of them. -/
theorem Asks.mapM {Item : Type} {items : List Item} {job : Item → Job Answer}
    {question : Tree → Item → Except Fault Answer} (asks : ∀ item, (job item).Asks (question · item)) :
    (items.mapM job).Asks fun tree => items.mapM (question tree) := by
  induction items with
  | nil => exact asks_pure []
  | cons item rest inductionHypothesis =>
    simp only [List.mapM_cons]
    exact (asks item).bind fun _ => inductionHypothesis.bind fun _ => asks_pure _

/-! ### A job among others -/

/-- Nothing of a tree has changed but the content of the file at a location. -/
structure Spares (location : Location) (before after : Tree) : Prop where
  alike : before.Alike after
  elsewhere : ∀ other, other ≠ location → after.get? other = before.get? other

/-- What has not changed spares every place. -/
theorem Spares.refl (location : Location) (tree : Tree) : Spares location tree tree :=
  ⟨.refl tree, fun _ _ => rfl⟩

/-- Writing a file where there is one spares every other place. -/
theorem Spares.put {tree : Tree} {location : Location} {old : Text.Bytes} {executable : Bool}
    (here : tree.get? location = some (.file old executable)) (content : Text.Bytes) :
    Spares location tree (tree.put location (.file content executable)) :=
  ⟨Tree.alike_put here content, fun _ different => Tree.get?_put_of_ne tree different _⟩

/-- A job that is confined to the file of a path finds in a shared tree what it finds in a tree of its own. -/
structure Finds (path : Path) (location : Location) (own shared : Tree) : Prop where
  alike : own.Alike shared
  same : shared.get? location = own.get? location
  leads : own.locatePath .target path = .ok location
  isFile : ∃ content executable, own.get? location = some (.file content executable)

/-- It does so, too, when another file has changed in the shared tree. -/
theorem Finds.of_spares {path : Path} {location other : Location} {own shared later : Tree}
    (finds : Finds path location own shared) (spares : Spares other shared later) (apart : location ≠ other) :
    Finds path location own later :=
  ⟨finds.alike.trans spares.alike, (spares.elsewhere location apart).trans finds.same, finds.leads,
    finds.isFile⟩

/-- It does so, too, when its file gets the same content in both trees. -/
theorem Finds.put {path : Path} {location : Location} {own shared : Tree} {old : Text.Bytes} {executable : Bool}
    (finds : Finds path location own shared) (here : own.get? location = some (.file old executable))
    (content : Text.Bytes) : Finds path location (own.put location (.file content executable))
      (shared.put location (.file content executable)) := by
  have inside : location ≠ [] := by
    rintro rfl
    cases here
  refine ⟨fun other => ?_, ?_, ?_, content, executable, Tree.get?_put_self own inside _⟩
  · by_cases same : other = location
    · subst same
      rw [Tree.get?_put_self own inside, Tree.get?_put_self shared inside]
      exact .same _
    · rw [Tree.get?_put_of_ne own same, Tree.get?_put_of_ne shared same]
      exact finds.alike other
  · rw [Tree.get?_put_self own inside, Tree.get?_put_self shared inside]
  · rw [(Tree.alike_put here content).locatePath]
    exact finds.leads

/-- Where a job finds its file, it reads what it would read by itself. -/
theorem Finds.read_eq {path : Path} {location : Location} {own shared : Tree}
    (finds : Finds path location own shared) : shared.read path = own.read path := by
  simp only [Tree.read, Tree.status, finds.alike.locatePath, finds.leads, finds.same]

/-- An operation of a confined job has the same outcome in the shared tree as in a tree of its own. -/
theorem act_finds {Reply : Type} {path : Path} {location : Location} {operation : Operation Reply}
    (confined : operation.IsConfined path) {own shared : Session}
    (finds : Finds path location own.tree shared.tree) :
    (operation.act shared).1 = (operation.act own).1 ∧
      Finds path location (operation.act own).2.tree (operation.act shared).2.tree ∧
      Spares location shared.tree (operation.act shared).2.tree := by
  cases operation with
  | read other =>
    obtain rfl : other = path := confined
    simp only [Operation.act, Action.readText_apply, Session.textAt, finds.read_eq]
    exact ⟨trivial, finds, .refl _ _⟩
  | isFile other =>
    simp only [Operation.act, Action.askFiles, Action.ask_apply, finds.alike.isFile]
    exact ⟨trivial, finds, .refl _ _⟩
  | isDirectory other =>
    simp only [Operation.act, Action.askFiles, Action.ask_apply, finds.alike.isDirectory]
    exact ⟨trivial, finds, .refl _ _⟩
  | warn source message => exact ⟨rfl, finds, .refl _ _⟩
  | write other text =>
    obtain rfl : other = path := confined
    obtain ⟨old, executable, here⟩ := finds.isFile
    have shared : shared.tree.get? location = some (.file old executable) := finds.same.trans here
    simp only [Operation.act, Action.writeText_apply, Tree.write, finds.alike.locatePath]
    cases led : own.tree.locatePath .creation other with
    | error refusal => exact ⟨rfl, finds, .refl _ _⟩
    | ok found =>
      have there := Tree.Grown.locatePath_of_creation (fun _ => .same _) led
      obtain rfl : location = found := Except.ok.inj (finds.leads.symm.trans there)
      simp only [here, shared]
      exact ⟨trivial, finds.put here _, .put shared _⟩

/-- What is left of a confined job after an operation in the shared tree is what is left of it after the same
operation in a tree of its own. -/
theorem advance_finds {path : Path} {location : Location} {job next : Job Answer}
    (confined : job.IsConfined path) {own shared after : Session}
    (finds : Finds path location own.tree shared.tree) (advanced : job.advance shared = some (next, after)) :
    next.IsConfined path ∧ Spares location shared.tree after.tree ∧
      ∃ later : Session, next.run later = job.run own ∧ Finds path location later.tree after.tree := by
  cases job with
  | ended result => cases advanced
  | going operation further =>
    obtain ⟨same, findsLater, spares⟩ := act_finds confined.1 finds
    have ran : (going operation further).run own =
        (operation.act >>= fun reply => (further reply).run) own := rfl
    rw [advance_going] at advanced
    rw [ran, bind_apply]
    rcases ranShared : operation.act shared with ⟨fault | reply, final⟩ <;>
      rcases ranOwn : operation.act own with ⟨otherFault | otherReply, later⟩ <;>
      simp only [ranShared, ranOwn] at same findsLater spares advanced ⊢ <;> cases same <;> cases advanced
    · exact ⟨trivial, spares, later, rfl, findsLater⟩
    · exact ⟨confined.2 reply, spares, later, rfl, findsLater⟩

/-! ### Jobs that take turns -/

/-- Jobs that work on one project. -/
structure Pool (Answer : Type) where
  session : Session
  jobs : List (Job Answer)

namespace Pool

/-- One of the jobs does its next operation. -/
inductive Step : Pool Answer → Pool Answer → Prop where
  | turn (front back : List (Job Answer)) {job next : Job Answer} {session after : Session}
      (advanced : job.advance session = some (next, after)) :
      Step ⟨session, front ++ job :: back⟩ ⟨after, front ++ next :: back⟩

/-- Any number of operations, of whichever jobs. -/
abbrev Runs : Pool Answer → Pool Answer → Prop := Relation.ReflTransGen Step

/-- A job that has not ended can advance. -/
theorem advance_isSome (session : Session) {job : Job Answer} (going : ∀ result, job ≠ ended result) :
    ∃ next after, job.advance session = some (next, after) := by
  cases job with
  | ended result => exact absurd rfl (going result)
  | going operation next =>
    rw [advance_going]
    rcases operation.act session with ⟨fault | reply, after⟩
    · exact ⟨_, _, rfl⟩
    · exact ⟨_, _, rfl⟩

/-- As long as a job has not ended, one can go on. -/
theorem step_or_ended (pool : Pool Answer) :
    (∃ next, Step pool next) ∨ ∃ results : List (Except Fault Answer), pool.jobs = results.map ended := by
  by_cases all : ∀ job ∈ pool.jobs, ∃ result, job = ended result
  · right
    obtain ⟨session, jobs⟩ := pool
    dsimp only at all ⊢
    induction jobs with
    | nil => exact ⟨[], rfl⟩
    | cons job rest inductionHypothesis =>
      obtain ⟨result, rfl⟩ := all job List.mem_cons_self
      obtain ⟨results, rfl⟩ := inductionHypothesis fun other member => all other (List.mem_cons_of_mem _ member)
      exact ⟨result :: results, rfl⟩
  · left
    obtain ⟨job, all⟩ := Classical.not_forall.mp all
    obtain ⟨member, going⟩ := Classical.not_imp.mp all
    obtain ⟨front, back, split⟩ := List.append_of_mem member
    obtain ⟨next, after, advanced⟩ :=
      advance_isSome pool.session fun result same => going ⟨result, same⟩
    obtain ⟨session, jobs⟩ := pool
    subst split
    exact ⟨_, .turn front back advanced⟩

/-- A job goes on to another. -/
def Leads (next job : Job Answer) : Prop := ∃ session after, job.advance session = some (next, after)

/-- A job comes to an end, whatever it is answered. -/
theorem acc_leads (job : Job Answer) : Acc Leads job := by
  have halted (result : Except Fault Answer) : Acc Leads (ended result) :=
    ⟨_, fun _ ⟨_, _, advanced⟩ => by cases advanced⟩
  induction job with
  | ended result => exact halted result
  | going operation further inductionHypothesis =>
    refine ⟨_, fun next ⟨session, after, advanced⟩ => ?_⟩
    rw [advance_going] at advanced
    split at advanced <;> cases advanced
    · exact inductionHypothesis _
    · exact halted _

/-- One of several jobs goes on. -/
def LeadsAmong (later earlier : List (Job Answer)) : Prop :=
  ∃ front job next back, earlier = front ++ job :: back ∧ later = front ++ next :: back ∧ Leads next job

/-- However jobs take turns, they come to an end. -/
theorem acc_leadsAmong (jobs : List (Job Answer)) : Acc LeadsAmong jobs := by
  induction jobs with
  | nil => exact ⟨_, fun _ ⟨front, _, _, _, earlier, _⟩ => by simp at earlier⟩
  | cons job rest inductionHypothesis =>
    have first := acc_leads job
    induction first generalizing rest with
    | intro job _ ownHypothesis =>
      have others := inductionHypothesis
      induction others with
      | intro rest restAcc restHypothesis =>
        refine ⟨_, fun later ⟨front, moved, next, back, earlier, shape, leads⟩ => ?_⟩
        subst shape
        cases front with
        | nil =>
          obtain ⟨rfl, rfl⟩ := List.cons.inj earlier
          exact ownHypothesis next leads _ ⟨_, restAcc⟩
        | cons same front =>
          obtain ⟨rfl, rfl⟩ := List.cons.inj earlier
          have goes : LeadsAmong (front ++ next :: back) (front ++ moved :: back) :=
            ⟨front, moved, next, back, rfl, rfl, leads⟩
          exact restHypothesis _ goes (restAcc _ goes)

/-- However jobs take turns, they come to an end. -/
theorem acc_step (pool : Pool Answer) : Acc (fun later earlier => Step earlier later) pool := by
  have accessible := InvImage.accessible Pool.jobs (acc_leadsAmong pool.jobs)
  refine Subrelation.accessible (fun {later earlier} stepped => ?_) accessible
  obtain ⟨front, back, advanced⟩ := stepped
  exact ⟨front, _, _, back, rfl, rfl, _, _, advanced⟩

/-- A job may be done in one go among others. -/
theorem runs_run (front back : List (Job Answer)) (job : Job Answer) (session : Session) :
    Runs ⟨session, front ++ job :: back⟩
      ⟨(job.run session).2, front ++ ended (job.run session).1 :: back⟩ := by
  induction job generalizing session with
  | ended result =>
    cases result with
    | ok answer => exact .refl
    | error fault => exact .refl
  | going operation next inductionHypothesis =>
    have ran : (going operation next).run session =
        (operation.act >>= fun reply => (next reply).run) session := rfl
    rw [ran, bind_apply]
    rcases acted : operation.act session with ⟨fault | reply, after⟩
    · exact .single (.turn front back (by simp [advance_going, acted]))
    · exact .head (.turn front back (by simp [advance_going, acted])) (inductionHypothesis reply after)

/-- Jobs may be done one after the other, up to the first that fails. -/
theorem runs_mapM {Item : Type} {job : Item → Job Answer} {items : List Item} (front : List (Job Answer))
    (session : Session) :
    match (items.mapM fun item => (job item).run) session with
    | (.ok answers, after) => Runs ⟨session, front ++ items.map job⟩
        ⟨after, front ++ answers.map fun answer => ended (.ok answer)⟩
    | (.error fault, after) => ∃ jobs, .ended (.error fault) ∈ jobs ∧
        Runs ⟨session, front ++ items.map job⟩ ⟨after, jobs⟩ := by
  induction items generalizing front session with
  | nil => exact .refl
  | cons item rest inductionHypothesis =>
    have one := runs_run front (rest.map job) (job item) session
    rw [List.mapM_cons, bind_apply]
    rcases ran : (job item).run session with ⟨fault | answer, middle⟩ <;> rw [ran] at one
    · exact ⟨_, by simp, one⟩
    · have later := inductionHypothesis (front ++ [ended (.ok answer)]) middle
      dsimp only
      rw [bind_apply]
      rcases ranRest : (rest.mapM fun item => (job item).run) middle with ⟨fault | answers, final⟩ <;>
        simp only [ranRest, List.append_assoc, List.singleton_append] at later ⊢
      · obtain ⟨jobs, failed, ranOn⟩ := later
        exact ⟨jobs, failed, one.trans ranOn⟩
      · exact one.trans later

end Pool

/-! ### Confined jobs that take turns -/

/-- What is left of the job for a path is what would be left of it if it was done alone. -/
structure Remains (start : Session) (job : Path → Job Answer) (place : Path → Location) (tree : Tree)
    (path : Path) (remaining : Job Answer) : Prop where
  confined : remaining.IsConfined path
  alone : ∃ own : Session, remaining.run own = (job path).run start ∧ Finds path (place path) own.tree tree

/-- The jobs for some paths have taken turns, and nothing has changed but the files of these paths. -/
structure Follows (start : Session) (job : Path → Job Answer) (place : Path → Location)
    (paths : List Path) (pool : Pool Answer) : Prop where
  each : List.Forall₂ (Remains start job place pool.session.tree) paths pool.jobs
  elsewhere : ∀ location, (∀ path ∈ paths, place path ≠ location) →
    pool.session.tree.get? location = start.tree.get? location

/-- The files of these paths are as each of the jobs leaves its own when it is done alone, and nothing else has
changed. -/
structure Gathers (start : Session) (job : Path → Job Answer) (place : Path → Location)
    (paths : List Path) (tree : Tree) : Prop where
  each : ∀ path ∈ paths,
    tree.get? (place path) = ((job path).run start).2.tree.get? (place path)
  elsewhere : ∀ location, (∀ path ∈ paths, place path ≠ location) →
    tree.get? location = start.tree.get? location

section

variable {start : Session} {job : Path → Job Answer} {place : Path → Location} {paths : List Path}

/-- Trees in which the same has been gathered hold the same. -/
theorem Gathers.get?_eq {order : List Path} {tree other : Tree} (same : order.Perm paths)
    (gathers : Gathers start job place paths tree) (again : Gathers start job place order other) :
    other.get? = tree.get? := by
  funext location
  by_cases own : ∃ path ∈ paths, place path = location
  · obtain ⟨path, member, rfl⟩ := own
    rw [again.each path (same.mem_iff.mpr member), gathers.each path member]
  · have outside : ∀ path ∈ paths, place path ≠ location := fun path member equal =>
      own ⟨path, member, equal⟩
    rw [again.elsewhere location fun path member => outside path (same.mem_iff.mp member),
      gathers.elsewhere location outside]

/-- What is related to a list with one item in the middle has one for that item in the middle. -/
theorem forall₂_split {First Second : Type*} {relation : First → Second → Prop} {firsts : List First}
    {front back : List Second} {middle : Second}
    (each : List.Forall₂ relation firsts (front ++ middle :: back)) :
    ∃ before first behind, firsts = before ++ first :: behind ∧ List.Forall₂ relation before front ∧
      relation first middle ∧ List.Forall₂ relation behind back := by
  induction front generalizing firsts with
  | nil =>
    cases each with
    | cons here later => exact ⟨[], _, _, rfl, .nil, here, later⟩
  | cons second front inductionHypothesis =>
    cases each with
    | cons here later =>
      obtain ⟨before, first, behind, rfl, sooner, there, others⟩ := inductionHypothesis later
      exact ⟨_ :: before, first, behind, rfl, .cons here sooner, there, others⟩

/-- What is left of the other jobs stays the same while the file of one of them changes. -/
theorem Remains.of_spares {path other : Path} {remaining : Job Answer} {tree later : Tree}
    (remains : Remains start job place tree path remaining) (spares : Spares (place other) tree later)
    (apart : place path ≠ place other) : Remains start job place later path remaining := by
  obtain ⟨confined, own, ran, finds⟩ := remains
  exact ⟨confined, own, ran, finds.of_spares spares apart⟩

/-- A turn of one job is nothing to the others, because their files are different ones. -/
theorem Follows.step {pool next : Pool Answer} (apart : (paths.map place).Nodup)
    (follows : Follows start job place paths pool) (stepped : Pool.Step pool next) :
    Follows start job place paths next := by
  obtain ⟨front, back, advanced⟩ := stepped
  obtain ⟨each, elsewhere⟩ := follows
  obtain ⟨before, path, behind, rfl, sooner, ⟨confined, own, ran, finds⟩, later⟩ := forall₂_split each
  obtain ⟨confinedNext, spares, ownLater, ranLater, findsLater⟩ := advance_finds confined finds advanced
  have different : ∀ other ∈ before ++ behind, place other ≠ place path := by
    rw [List.map_append, List.map_cons, List.nodup_middle, ← List.map_append] at apart
    intro other member same
    exact (List.nodup_cons.mp apart).1 (List.mem_map.mpr ⟨other, member, same⟩)
  have others {some : List Path} {jobs : List (Job Answer)} (inside : ∀ other ∈ some, other ∈ before ++ behind)
      (each : List.Forall₂ (Remains start job place _) some jobs) :
      List.Forall₂ (Remains start job place _) some jobs :=
    ((List.forall₂_and_left some jobs).mpr ⟨fun other member => different other (inside other member), each⟩).imp
      fun other remaining ⟨apart, remains⟩ => remains.of_spares spares apart
  refine ⟨List.rel_append (others (fun other => List.mem_append_left behind) sooner) (.cons
    ⟨confinedNext, ownLater, ranLater.trans ran, findsLater⟩
    (others (fun other => List.mem_append_right before) later)), fun location outside => ?_⟩
  rw [spares.elsewhere location fun same => outside path (by simp) same.symm]
  exact elsewhere location outside

/-- Any number of turns leave every job where it would be by itself. -/
theorem Follows.runs {pool next : Pool Answer} (apart : (paths.map place).Nodup)
    (follows : Follows start job place paths pool) (ran : Pool.Runs pool next) :
    Follows start job place paths next := by
  induction ran with
  | refl => exact follows
  | tail _ stepped inductionHypothesis => exact inductionHypothesis.step apart stepped

/-- A job that has ended has done so as it would have done alone. -/
theorem Remains.ended {tree : Tree} {path : Path} {result : Except Fault Answer}
    (remains : Remains start job place tree path (ended result)) :
    result = ((job path).run start).1 ∧
      tree.get? (place path) = ((job path).run start).2.tree.get? (place path) := by
  obtain ⟨-, own, ran, finds⟩ := remains
  have halted : (Job.ended result).run own = (result, own) := by cases result <;> rfl
  rw [← ran, halted]
  exact ⟨rfl, finds.same⟩

/-- Where all jobs have ended, each has the result and the file that it would have alone. -/
theorem Follows.ended {session : Session} {results : List (Except Fault Answer)}
    (follows : Follows start job place paths ⟨session, results.map .ended⟩) :
    results = paths.map (fun path => ((job path).run start).1) ∧
      Gathers start job place paths session.tree := by
  obtain ⟨each, elsewhere⟩ := follows
  rw [List.forall₂_map_right_iff] at each
  refine ⟨?_, fun path member => ?_, elsewhere⟩
  · clear elsewhere
    induction each with
    | nil => rfl
    | cons remains _ inductionHypothesis => rw [List.map_cons, ← inductionHypothesis, remains.ended.1]
  · clear elsewhere
    induction each with
    | nil => cases member
    | cons remains _ inductionHypothesis =>
      rcases List.mem_cons.mp member with rfl | later
      · exact remains.ended.2
      · exact inductionHypothesis later

/-- The jobs have not begun, and each finds the file of its path in the tree. -/
theorem Follows.begin (each : ∀ path ∈ paths,
      (job path).IsConfined path ∧ Finds path (place path) start.tree start.tree) :
    Follows start job place paths ⟨start, paths.map job⟩ := by
  refine ⟨?_, fun _ _ => rfl⟩
  rw [List.forall₂_map_right_iff]
  exact List.forall₂_same.mpr fun path member => ⟨(each path member).1, start, rfl, (each path member).2⟩

/-- A job that has ended among the others has the result that a job for one of the paths has alone. -/
theorem Follows.exists_of_ended {pool : Pool Answer} {result : Except Fault Answer}
    (follows : Follows start job place paths pool) (member : Job.ended result ∈ pool.jobs) :
    ∃ path ∈ paths, result = ((job path).run start).1 := by
  obtain ⟨front, back, split⟩ := List.append_of_mem member
  obtain ⟨before, path, behind, rfl, -, remains, -⟩ := forall₂_split (split ▸ follows.each)
  exact ⟨path, by simp, remains.ended.1⟩

variable {answer : Path → Answer} (apart : (paths.map place).Nodup)
  (begun : Follows start job place paths ⟨start, paths.map job⟩)
  (succeeds : ∀ path ∈ paths, ((job path).run start).1 = .ok (answer path))
include apart begun succeeds

/-- However confined jobs take turns that would succeed alone, one of them can go on until all have ended, and
then each has its answer and its file. -/
theorem Pool.Runs.gathers {pool : Pool Answer} (ran : Pool.Runs ⟨start, paths.map job⟩ pool) :
    (∃ next, Pool.Step pool next) ∨
      pool.jobs = paths.map (fun path => .ended (.ok (answer path))) ∧
        Gathers start job place paths pool.session.tree := by
  rcases pool.step_or_ended with goesOn | ⟨results, halted⟩
  · exact .inl goesOn
  · right
    obtain ⟨session, jobs⟩ := pool
    obtain rfl : jobs = results.map .ended := halted
    obtain ⟨rfl, gathers⟩ := (begun.runs apart ran).ended
    refine ⟨?_, gathers⟩
    rw [List.map_map]
    exact List.map_congr_left fun path member => congrArg Job.ended (succeeds path member)

/-- Confined jobs that would succeed alone succeed one after the other. -/
theorem mapM_gathers : ∃ after : Session,
    (paths.mapM fun path => (job path).run) start = (.ok (paths.map answer), after) ∧
      Gathers start job place paths after.tree := by
  have oneByOne := @Pool.runs_mapM _ _ job paths [] start
  rcases ran : (paths.mapM fun path => (job path).run) start with ⟨fault | answers, after⟩ <;>
    simp only [ran, List.nil_append] at oneByOne
  · obtain ⟨jobs, failed, ranOn⟩ := oneByOne
    obtain ⟨path, member, fails⟩ := (begun.runs apart ranOn).exists_of_ended failed
    cases fails.trans (succeeds path member)
  · have results : answers.map (fun answer => Job.ended (.ok answer)) =
        (answers.map Except.ok).map Job.ended := by rw [List.map_map]; rfl
    rw [results] at oneByOne
    obtain ⟨same, gathers⟩ := (begun.runs apart oneByOne).ended
    have same : answers.map Except.ok = (paths.map answer).map (Except.ok : _ → Except Fault Answer) := by
      rw [same, List.map_map]
      exact List.map_congr_left succeeds
    rw [List.map_injective_iff.mpr (fun _ _ => Except.ok.inj) same]
    exact ⟨after, rfl, gathers⟩

end

end Job

end TreeBuild
