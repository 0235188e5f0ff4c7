import Mathlib.Data.List.Forall2
import TreeBuild.Build.Progress

/-!
# How computations end

A computation on a state ends with an answer or with a failure, and either way it leaves a state behind.
What is said of it has three parts: what holds before it, what its answer and the state then satisfy,
and what the state satisfies after a failure, and perhaps the fault with it. There is one law for each way
in which computations are put together, and one for each elementary action of a session.

Most computations only have to keep a property of the state, however they end.
-/
namespace TreeBuild

/-- Started where `before` holds, a computation ends with an answer and a state in the relation `after`,
or fails with a fault and a state in the relation `failed`. -/
structure Concludes {State Answer : Type} (before : State → Prop)
    (action : ExceptT Fault (StateM State) Answer) (after : Answer → State → Prop)
    (failed : Fault → State → Prop) : Prop where
  outcome : ∀ state, before state →
    match action state with
    | (.ok answer, final) => after answer final
    | (.error fault, final) => failed fault final

/-- Started where `before` holds, a computation ends with an answer and a state in the relation `after`,
or fails and leaves a state for which `failed` holds, whatever the fault is. -/
abbrev Ends {State Answer : Type} (before : State → Prop)
    (action : ExceptT Fault (StateM State) Answer) (after : Answer → State → Prop)
    (failed : State → Prop) : Prop :=
  Concludes before action after fun _ => failed

/-- A property of the state that holds after a computation if it holds before, however that ends. -/
def Keeps {State Answer : Type} (property : State → Prop)
    (action : ExceptT Fault (StateM State) Answer) : Prop :=
  Ends property action (fun _ => property) property

/-! ### Computations on any state -/

section

variable {State Answer Result : Type} {before failed property : State → Prop}
  {action : ExceptT Fault (StateM State) Answer} {after : Answer → State → Prop}

/-- What follows a computation is done with its answer, unless it has failed. -/
theorem bind_apply (action : ExceptT Fault (StateM State) Answer)
    (next : Answer → ExceptT Fault (StateM State) Result) (state : State) :
    (action >>= next) state =
      match action state with
      | (.ok answer, middle) => next answer middle
      | (.error fault, middle) => (.error fault, middle) := by
  simp only [bind, ExceptT.bind, ExceptT.mk, StateT.bind, ExceptT.bindCont]
  rcases action state with ⟨outcome, middle⟩
  cases outcome <;> rfl

namespace Concludes

variable {failed : Fault → State → Prop}

/-- An answer that is there already is the answer of a computation that changes nothing. -/
theorem pure {answer : Answer} (holds : ∀ state, before state → after answer state) :
    Concludes before (Pure.pure answer) after failed :=
  ⟨fun state start => holds state start⟩

/-- A fault that is thrown is the fault of a computation that changes nothing. -/
theorem throw {fault : Fault} (holds : ∀ state, before state → failed fault state) :
    Concludes before (MonadExcept.throw fault : ExceptT Fault (StateM State) Answer) after failed :=
  ⟨fun state start => holds state start⟩

/-- What is known of a computation that has answered. -/
theorem answered (ends : Concludes before action after failed) {state final : State} {answer : Answer}
    (start : before state) (ran : action state = (.ok answer, final)) : after answer final := by
  have known := ends.outcome state start
  rw [ran] at known
  exact known

/-- What is known of a computation that has failed. -/
theorem refused (ends : Concludes before action after failed) {state final : State} {fault : Fault}
    (start : before state) (ran : action state = (.error fault, final)) : failed fault final := by
  have known := ends.outcome state start
  rw [ran] at known
  exact known

/-- One computation after another. -/
theorem bind {next : Answer → ExceptT Fault (StateM State) Result} {final : Result → State → Prop}
    (first : Concludes before action after failed)
    (second : ∀ answer, Concludes (after answer) (next answer) final failed) :
    Concludes before (action >>= next) final failed := by
  refine ⟨fun state start => ?_⟩
  have ended := first.outcome state start
  rw [bind_apply]
  rcases run : action state with ⟨answer | answer, middle⟩
  · simpa [run] using ended
  · exact (second answer).outcome middle (by simpa [run] using ended)

/-- What holds before may be more than is needed, and what is promised may be more than is asked for. -/
theorem mono {first : State → Prop} {last : Fault → State → Prop} {final : Answer → State → Prop}
    (ends : Concludes before action after failed) (start : ∀ state, first state → before state)
    (answered : ∀ answer state, after answer state → final answer state)
    (ended : ∀ fault state, failed fault state → last fault state) :
    Concludes first action final last := by
  refine ⟨fun state begun => ?_⟩
  have known := ends.outcome state (start state begun)
  rcases run : action state with ⟨answer | answer, middle⟩
  · exact ended answer middle (by simpa [run] using known)
  · exact answered answer middle (by simpa [run] using known)

/-- Asking for the state answers with it. -/
theorem get : Concludes before (MonadState.get : ExceptT Fault (StateM State) State)
    (fun answer state => answer = state ∧ before state) failed :=
  ⟨fun _ start => ⟨rfl, start⟩⟩

/-- After the state has been changed, what holds is what was to be shown of the change. -/
theorem modify (later : State → Prop) {change : State → State}
    (holds : ∀ state, before state → later (change state)) :
    Concludes before (modify change : ExceptT Fault (StateM State) PUnit) (fun _ => later) failed :=
  ⟨fun state start => holds state start⟩

/-- What a computation may start from is given case by case. -/
theorem of_exists {Case : Type} {start : Case → State → Prop}
    (ends : ∀ given, Concludes (start given) action after failed) :
    Concludes (fun state => ∃ given, start given state) action after failed :=
  ⟨fun state ⟨given, start⟩ => (ends given).outcome state start⟩

/-- What does not depend on the state may be taken for granted. -/
theorem of_and {fact : Prop} (ends : fact → Concludes before action after failed) :
    Concludes (fun state => fact ∧ before state) action after failed :=
  ⟨fun state ⟨given, start⟩ => (ends given).outcome state start⟩

/-- The answer of a computation is left aside. -/
theorem discard {later : State → Prop} (ends : Concludes before action (fun _ => later) failed) :
    Concludes before (discard action) (fun _ => later) failed :=
  ends.bind fun _ => pure fun _ holds => holds

end Concludes

namespace Ends

/-- An answer that is there already leaves the state as it is. -/
theorem pure {answer : Answer} (holds : ∀ state, before state → after answer state) :
    Ends before (Pure.pure answer) after failed :=
  Concludes.pure holds

/-- A fault that is thrown leaves the state as it is. -/
theorem throw {fault : Fault} (holds : ∀ state, before state → failed state) :
    Ends before (MonadExcept.throw fault : ExceptT Fault (StateM State) Answer) after failed :=
  Concludes.throw holds

/-- One computation after another. -/
theorem bind {next : Answer → ExceptT Fault (StateM State) Result} {final : Result → State → Prop}
    (first : Ends before action after failed)
    (second : ∀ answer, Ends (after answer) (next answer) final failed) :
    Ends before (action >>= next) final failed :=
  Concludes.bind first second

/-- One computation after another, when it is said what holds in between. -/
theorem through (middle : Answer → State → Prop)
    {next : Answer → ExceptT Fault (StateM State) Result} {final : Result → State → Prop}
    (first : Ends before action middle failed)
    (second : ∀ answer, Ends (middle answer) (next answer) final failed) :
    Ends before (action >>= next) final failed :=
  bind first second

/-- Nothing follows a failure. -/
theorem throw_bind {fault : Fault} {next : Answer → ExceptT Fault (StateM State) Result}
    {final : Result → State → Prop} (holds : ∀ state, before state → failed state) :
    Ends before (MonadExcept.throw fault >>= next) final failed :=
  ⟨fun state start => holds state start⟩

/-- What holds before may be more than is needed, and what is promised may be more than is asked for. -/
theorem mono {first last : State → Prop} {final : Answer → State → Prop}
    (ends : Ends before action after failed) (start : ∀ state, first state → before state)
    (answered : ∀ answer state, after answer state → final answer state)
    (ended : ∀ state, failed state → last state) : Ends first action final last :=
  Concludes.mono ends start answered fun _ => ended

/-- Asking for the state leaves it as it is. -/
theorem get : Ends before (MonadState.get : ExceptT Fault (StateM State) State)
    (fun answer state => answer = state ∧ before state) failed :=
  Concludes.get

/-- Changing the state leads from one property to another if the change does. -/
theorem modify (later : State → Prop) {change : State → State}
    (holds : ∀ state, before state → later (change state)) :
    Ends before (modify change : ExceptT Fault (StateM State) PUnit) (fun _ => later) failed :=
  Concludes.modify later holds

/-- Replacing the state leads to a property of the new one. -/
theorem set (later : State → Prop) {next : State} (holds : ∀ state, before state → later next) :
    Ends before (MonadState.set next : ExceptT Fault (StateM State) PUnit) (fun _ => later) failed :=
  ⟨fun state start => holds state start⟩

/-- The answer of a computation is left aside. -/
theorem discard {later : State → Prop} (ends : Ends before action (fun _ => later) failed) :
    Ends before (discard action) (fun _ => later) failed :=
  Concludes.discard ends

/-- A computation leaves behind the state that it leaves behind. -/
theorem lands (action : ExceptT Fault (StateM State) Answer) (state : State) :
    Ends (· = state) action (fun _ final => final = (action state).2)
      (fun final => final = (action state).2) := by
  refine ⟨?_⟩
  rintro _ rfl
  split <;> simp [*]

/-- What holds however a computation ends holds of what it leaves behind. -/
theorem leaves {later : State → Prop} {state : State}
    (ends : Ends before action (fun _ => later) later) (start : before state) :
    later (action state).2 := by
  have outcome := ends.outcome state start
  split at outcome <;> rename_i ran <;> rw [ran] <;> exact outcome

/-- What is known of the state when a computation starts may be taken for granted. -/
theorem of_forall (ends : ∀ state, before state → Ends (· = state) action after failed) :
    Ends before action after failed :=
  ⟨fun state start => (ends state start).outcome state rfl⟩

/-- What a computation may start from is given case by case. -/
theorem of_exists {Case : Type} {start : Case → State → Prop}
    (ends : ∀ given, Ends (start given) action after failed) :
    Ends (fun state => ∃ given, start given state) action after failed :=
  Concludes.of_exists ends

/-- What does not depend on the state may be taken for granted. -/
theorem of_and {fact : Prop} (ends : fact → Ends before action after failed) :
    Ends (fun state => fact ∧ before state) action after failed :=
  Concludes.of_and ends

end Ends

namespace Keeps

/-- An answer that is there already keeps everything. -/
theorem pure {answer : Answer} : Keeps property (Pure.pure answer) :=
  Ends.pure fun _ holds => holds

/-- A fault that is thrown keeps everything. -/
theorem throw {fault : Fault} :
    Keeps property (MonadExcept.throw fault : ExceptT Fault (StateM State) Answer) :=
  Ends.throw fun _ holds => holds

/-- What both of two computations keep, they keep one after the other. -/
theorem bind {next : Answer → ExceptT Fault (StateM State) Result} (first : Keeps property action)
    (second : ∀ answer, Keeps property (next answer)) : Keeps property (action >>= next) :=
  Ends.bind first second

/-- Asking for the state keeps everything. -/
theorem get : Keeps property (MonadState.get : ExceptT Fault (StateM State) State) :=
  Ends.get.mono (fun _ holds => holds) (fun _ _ holds => holds.2) fun _ holds => holds

/-- Not using an answer keeps what was kept. -/
theorem discard (kept : Keeps property action) : Keeps property (discard action) :=
  Ends.discard kept

/-- An answer was given in a state with the property that is kept. -/
theorem recalls (kept : Keeps property action) :
    Ends property action
      (fun answer state => (∃ taken, property taken ∧ (action taken).1 = .ok answer) ∧ property state)
      property := by
  refine ⟨fun state holds => ?_⟩
  have ended := kept.outcome state holds
  rcases ran : action state with ⟨fault | answer, final⟩
  · rwa [ran] at ended
  · rw [ran] at ended
    exact ⟨⟨state, holds, by rw [ran]⟩, ended⟩

/-- A loop keeps what each of its rounds keeps. -/
theorem forIn {Item : Type} {items : List Item}
    {body : Item → ExceptT Fault (StateM State) PUnit}
    (kept : ∀ item ∈ items, Keeps property (body item)) :
    Keeps property (forIn items PUnit.unit fun item _ => do
      body item
      Pure.pure (ForInStep.yield PUnit.unit)) := by
  induction items with
  | nil => exact pure
  | cons item rest inductionHypothesis =>
    rw [List.forIn_cons]
    refine bind (bind (kept item List.mem_cons_self) fun _ => pure) fun step => ?_
    cases step with
    | done => exact pure
    | yield => exact inductionHypothesis fun other member => kept other (List.mem_cons_of_mem _ member)

end Keeps

end

/-! ### Actions on a session -/

section

variable {Answer : Type} {before failed property : Session → Prop} {action : Action Answer}
  {after : Answer → Session → Prop}

namespace Ends

/-- A question to the tree changes nothing. -/
theorem ask (question : Tree → Except Fault Answer) :
    Ends before (Action.ask question)
      (fun answer session => question session.tree = .ok answer ∧ before session)
      (fun session => (∃ fault, question session.tree = .error fault) ∧ before session) := by
  refine get.bind fun session => ?_
  split
  · rename_i answer told
    exact pure fun _ ⟨same, holds⟩ => ⟨same ▸ told, holds⟩
  · rename_i fault refused
    exact throw fun _ ⟨same, holds⟩ => ⟨⟨fault, same ▸ refused⟩, holds⟩

/-- A question to the tree is answered by the tree, or refused by it, and changes nothing. -/
theorem askFiles (question : Tree → Except FileFault Answer) :
    Ends before (Action.askFiles question)
      (fun answer session => question session.tree = .ok answer ∧ before session)
      (fun session => (∃ fault, question session.tree = .error fault) ∧ before session) := by
  refine (ask _).mono (fun _ holds => holds) (fun answer session told => ⟨?_, told.2⟩)
    fun session told => ⟨?_, told.2⟩
  · cases result : question session.tree with
    | ok given => simpa [result, Except.mapError] using told.1
    | error fault => simp [result, Except.mapError] at told
  · cases result : question session.tree with
    | ok given => simp [result, Except.mapError] at told
    | error fault => exact ⟨fault, rfl⟩

/-- A text is read from what a file holds. -/
theorem readText (path : Path) :
    Ends before (Action.readText path)
      (fun answer session => (∃ bytes text, session.tree.read path = .ok bytes ∧
        Text.Utf8.decode bytes = .ok text ∧
          answer = String.ofList (Text.unifyLineEnds text.toList)) ∧ before session)
      before := by
  refine ((askFiles _).mono (fun _ holds => holds) (fun _ _ told => told)
    fun _ told => told.2).bind fun bytes => ?_
  split
  · rename_i text decoded
    exact pure fun _ told => ⟨⟨bytes, text, told.1, decoded, rfl⟩, told.2⟩
  · exact throw fun _ told => told.2

/-- A change of the tree that the system may refuse. -/
theorem changeFiles {change : Tree → Except FileFault Tree} {later : Session → Prop}
    (changed : ∀ session tree, before session → change session.tree = .ok tree →
      later { session with tree })
    (refused : ∀ session fault, before session → change session.tree = .error fault →
      failed session) :
    Ends before (Action.changeFiles change) (fun _ => later) failed := by
  have asked : Ends before (Action.askFiles change)
      (fun tree session => change session.tree = .ok tree ∧ before session) failed :=
    (askFiles change).mono (fun _ holds => holds) (fun _ _ told => told)
      fun session ⟨⟨fault, told⟩, holds⟩ => refused session fault holds told
  exact asked.bind fun tree =>
    modify later fun session told => changed session tree told.2 told.1

/-- A change of the tree of which a part may be done when the system refuses the rest. -/
theorem alterFiles {change : Tree → Except FileFault Unit × Tree} {later : Session → Prop}
    (changed : ∀ session, before session → (change session.tree).1 = .ok () →
      later { session with tree := (change session.tree).2 })
    (refused : ∀ session, before session →
      failed { session with tree := (change session.tree).2 }) :
    Ends before (Action.alterFiles change) (fun _ => later) failed := by
  refine get.bind fun session => ?_
  rcases run : change session.tree with ⟨result, tree⟩
  cases result with
  | ok done =>
    refine (modify later ?_).bind fun _ => pure fun _ holds => holds
    rintro _ ⟨rfl, start⟩
    simpa [run] using changed session start (by rw [run])
  | error fault =>
    refine (modify failed ?_).bind fun _ => throw fun _ holds => holds
    rintro _ ⟨rfl, start⟩
    simpa [run] using refused session start

/-- A call of a tool does to the tree what the tool does. -/
theorem call {tools : Toolchain} {invocation : Invocation} {later : ToolOutcome → Session → Prop}
    (done : ∀ session, before session → later (tools.run invocation session.tree).1
      { session with
        tree := (tools.run invocation session.tree).2
        invocations := session.invocations ++ [(invocation, session.tree)] }) :
    Ends before (Action.call tools invocation) later failed := by
  refine get.bind fun session => ?_
  rcases run : tools.run invocation session.tree with ⟨outcome, tree⟩
  refine (set (later outcome) ?_).bind fun _ => pure fun _ holds => holds
  rintro _ ⟨rfl, start⟩
  simpa [run] using done session start

/-- A failure that is told of is none. -/
theorem attempt {told : Except Fault Answer → Session → Prop}
    (ends : Ends before action (fun answer => told (.ok answer)) fun session =>
      ∀ fault, told (.error fault) session) :
    Ends before (Action.attempt action) told failed := by
  refine ⟨fun session start => ?_⟩
  have known := ends.outcome session start
  unfold Action.attempt
  rcases run : action session with ⟨answer | answer, middle⟩
  · simp only [run] at known
    exact known answer
  · simpa [run] using known

end Ends

namespace Keeps

/-- A question keeps everything. -/
theorem ask (question : Tree → Except Fault Answer) : Keeps property (Action.ask question) :=
  (Ends.ask question).mono (fun _ holds => holds) (fun _ _ told => told.2) fun _ told => told.2

/-- A question whose refusal is a fault of a file keeps everything. -/
theorem askFiles (question : Tree → Except FileFault Answer) :
    Keeps property (Action.askFiles question) :=
  (Ends.askFiles question).mono (fun _ holds => holds) (fun _ _ told => told.2) fun _ told => told.2

/-- What a computation keeps is kept if its fault becomes an answer. -/
theorem attempt (kept : Keeps property action) : Keeps property (Action.attempt action) :=
  Ends.attempt (Ends.mono kept (fun _ holds => holds) (fun _ _ holds => holds) fun _ holds _ => holds)

/-- Reading a text keeps everything. -/
theorem readText (path : Path) : Keeps property (Action.readText path) :=
  (Ends.readText path).mono (fun _ holds => holds) (fun _ _ told => told.2) fun _ holds => holds

end Keeps

/-- A property of a session that does not depend on its log. -/
def Silent (property : Session → Prop) : Prop :=
  ∀ session journal, property session → property { session with journal }

/-- A record of the log keeps what does not depend on the log. -/
theorem Keeps.record (silent : Silent property) (source : String) (level : Level)
    (message : String) : Keeps property (Action.record source level message) :=
  Ends.modify _ fun session holds => silent session _ holds

/-- Several computations keep what each of them keeps, and what holds of the answer of each holds of
every answer among the results. -/
theorem Ends.settle {actions : List (Action Answer)} (good : Answer → Prop)
    (each : ∀ action ∈ actions,
      Ends property action (fun answer session => good answer ∧ property session) property) :
    Ends property (Action.settle actions)
      (fun results session => (∀ answer, .ok answer ∈ results → good answer) ∧ property session)
      property := by
  induction actions with
  | nil => exact pure fun _ holds => ⟨by simp, holds⟩
  | cons action rest inductionHypothesis =>
    have first : Ends property (Action.attempt action)
        (fun result session => (∀ answer, result = .ok answer → good answer) ∧ property session)
        property := by
      refine attempt ((each action List.mem_cons_self).mono (fun _ holds => holds) ?_ ?_)
      · rintro answer session ⟨isGood, holds⟩
        exact ⟨fun other same => Except.ok.inj same ▸ isGood, holds⟩
      · intro session holds fault
        exact ⟨fun _ impossible => (nomatch impossible), holds⟩
    unfold Action.settle
    refine first.bind fun result => ?_
    split
    · exact throw fun _ holds => holds.2
    · refine Ends.of_forall fun state ⟨isGood, holds⟩ => ?_
      have others := inductionHypothesis fun other member => each other (List.mem_cons_of_mem _ member)
      refine (others.mono ?_ (fun _ _ known => known)
        fun _ known => known).bind fun results => ?_
      · rintro _ rfl
        exact holds
      · refine pure fun session ⟨allGood, kept⟩ => ⟨fun answer member => ?_, kept⟩
        rcases List.mem_cons.mp member with here | later
        · exact isGood answer here.symm
        · exact allGood answer later

/-- One computation by itself either answers or is known to have failed. -/
theorem Ends.settle_singleton {before : Session → Prop} {action : Action Answer}
    {after : Answer → Session → Prop} (ends : Ends before action after fun _ => True) :
    Ends before (Action.settle [action])
      (fun results session => (∃ answer, results = [.ok answer] ∧ after answer session) ∨
        ∃ fault, results = [.error fault])
      fun _ => True := by
  have told : Ends before (Action.attempt action)
      (fun result session => (∃ answer, result = .ok answer ∧ after answer session) ∨
        ∃ fault, result = .error fault) fun _ => True := by
    refine attempt (ends.mono (fun _ start => start) (fun answer session known => ?_)
      fun _ _ fault => .inr ⟨fault, rfl⟩)
    exact .inl ⟨answer, rfl, known⟩
  unfold Action.settle
  refine told.bind fun result => ?_
  split
  · exact throw fun _ _ => trivial
  · refine through (fun results session => results = [] ∧
      ((∃ answer, result = .ok answer ∧ after answer session) ∨ ∃ fault, result = .error fault))
      (pure fun _ known => ⟨rfl, known⟩) fun results => ?_
    refine pure fun session ⟨empty, known⟩ => ?_
    subst empty
    rcases known with ⟨answer, rfl, holds⟩ | ⟨fault, rfl⟩
    · exact .inl ⟨answer, rfl, holds⟩
    · exact .inr ⟨fault, rfl⟩

/-- One computation whose answer is wanted. -/
theorem Ends.all_singleton {before : Session → Prop} {action : Action Answer}
    {after : Answer → Session → Prop} (ends : Ends before action after fun _ => True) :
    Ends before (Action.all [action])
      (fun answers session => ∃ answer, answers = [answer] ∧ after answer session)
      fun _ => True := by
  refine (settle_singleton ends).bind fun results => ?_
  split
  · rename_i answers told
    refine pure fun session known => ?_
    rcases known with ⟨answer, rfl, holds⟩ | ⟨fault, rfl⟩
    · cases told
      exact ⟨answer, rfl, holds⟩
    · cases told
  · exact throw fun _ _ => trivial

/-- The answers that are given when all results are answers are those of the results. -/
theorem Action.mem_of_allOrFirst {results : List (Except Fault Answer)} {answers : List Answer}
    (told : Action.allOrFirst results = .ok answers) :
    ∀ answer ∈ answers, .ok answer ∈ results := by
  induction results generalizing answers with
  | nil =>
    cases told
    simp
  | cons result rest inductionHypothesis =>
    cases result with
    | error fault => cases told
    | ok first =>
      cases others : Action.allOrFirst rest with
      | error fault => simp [Action.allOrFirst, others, Except.map] at told
      | ok more =>
        simp only [Action.allOrFirst, others, Except.map, Except.ok.injEq] at told
        subst told
        intro answer member
        rcases List.mem_cons.mp member with rfl | later
        · exact List.mem_cons_self
        · exact List.mem_cons_of_mem _ (inductionHypothesis others answer later)

/-- Computations all of whose answers are wanted. -/
theorem Ends.all {actions : List (Action Answer)} (good : Answer → Prop)
    (each : ∀ action ∈ actions,
      Ends property action (fun answer session => good answer ∧ property session) property) :
    Ends property (Action.all actions)
      (fun answers session => (∀ answer ∈ answers, good answer) ∧ property session) property := by
  refine (settle good each).bind fun results => ?_
  split
  · rename_i answers told
    exact pure fun session ⟨isGood, holds⟩ =>
      ⟨fun answer member => isGood answer (Action.mem_of_allOrFirst told answer member), holds⟩
  · exact throw fun _ holds => holds.2

/-- Of a computation that is not relied on nothing has to be known. -/
theorem Ends.any {before : Session → Prop} (action : Action Answer) :
    Ends before action (fun _ _ => True) fun _ => True := by
  refine ⟨fun session _ => ?_⟩
  rcases action session with ⟨fault | answer, final⟩ <;> trivial

/-- Computations for the items of a list go through it in its order: what holds behind the items that are
done is handed on from one to the next, as long as none of them fails. -/
theorem Ends.settle_list {Item : Type} {items : List Item} {action : Item → Action Answer}
    {holds : List Item → Session → Prop} {good : Item → Answer → Prop}
    (each : ∀ front item back, items = front ++ item :: back → Ends (holds front) (action item)
      (fun answer session => good item answer ∧ holds (front ++ [item]) session) fun _ => True) :
    Ends (holds []) (Action.settle (items.map action))
      (fun results session => ∀ answers, Action.allOrFirst results = .ok answers →
        List.Forall₂ good items answers ∧ holds items session) fun _ => True := by
  induction items generalizing holds with
  | nil =>
    refine pure fun session start answers told => ?_
    cases told
    exact ⟨.nil, start⟩
  | cons item rest inductionHypothesis =>
    have first : Ends (holds []) (Action.attempt (action item))
        (fun result session => ∀ answer, result = .ok answer →
          good item answer ∧ holds [item] session) fun _ => True := by
      refine attempt ((each [] item rest rfl).mono (fun _ start => start) ?_ ?_)
      · intro answer session known other same
        exact Except.ok.inj same ▸ known
      · intro _ _ fault other impossible
        cases impossible
    have others := @inductionHypothesis (fun front => holds (item :: front))
      fun front next back split => each (item :: front) next back (by rw [split, List.cons_append])
    rw [List.map_cons]
    unfold Action.settle
    refine first.bind fun result => ?_
    split
    · exact throw fun _ _ => trivial
    · cases result with
      | error fault =>
        refine bind (any _) fun results => pure fun session _ answers told => ?_
        cases told
      | ok answer =>
        refine Ends.of_forall fun state known => ?_
        obtain ⟨isGood, start⟩ := known answer rfl
        refine bind (others.mono (fun session same => same ▸ start) (fun _ _ told => told)
          fun _ _ => trivial) fun results => pure fun session told answers all => ?_
        cases later : Action.allOrFirst results with
        | error fault => simp [Action.allOrFirst, later, Except.map] at all
        | ok more =>
          simp only [Action.allOrFirst, later, Except.map, Except.ok.injEq] at all
          subst all
          obtain ⟨goodRest, final⟩ := told more later
          exact ⟨.cons isGood goodRest, final⟩

/-- Computations for the items of a list, all of whose answers are wanted. -/
theorem Ends.all_list {Item : Type} {items : List Item} {action : Item → Action Answer}
    {holds : List Item → Session → Prop} {good : Item → Answer → Prop}
    (each : ∀ front item back, items = front ++ item :: back → Ends (holds front) (action item)
      (fun answer session => good item answer ∧ holds (front ++ [item]) session) fun _ => True) :
    Ends (holds []) (Action.all (items.map action))
      (fun answers session => List.Forall₂ good items answers ∧ holds items session)
      fun _ => True := by
  refine (settle_list each).bind fun results => ?_
  split
  · rename_i answers told
    exact pure fun session known => known answers told
  · exact throw fun _ _ => trivial

/-- What each of several computations keeps, they keep together. -/
theorem Keeps.all {actions : List (Action Answer)} (each : ∀ action ∈ actions, Keeps property action) :
    Keeps property (Action.all actions) := by
  have ends := @Ends.all _ property actions (fun _ => True) fun action member =>
    (each action member).mono (fun _ holds => holds) (fun _ _ holds => ⟨trivial, holds⟩)
      fun _ holds => holds
  exact ends.mono (fun _ holds => holds) (fun _ _ told => told.2) fun _ holds => holds

end

/-! ### Parts of a build -/

/-- A property of the session, which may depend on the modules that the report lists. -/
def Amid (property : List Path → Session → Prop) (state : BuildState) : Prop :=
  property state.report.compiled state.session

section

variable {Answer : Type} {before failed property : List Path → Session → Prop}
  {after : Answer → List Path → Session → Prop}

/-- A record of a build keeps what does not depend on the log. -/
theorem Keeps.log (silent : ∀ modules, Silent (property modules)) (context own : List (String × Json))
    (level : Level) (message : String) :
    Keeps (Amid property) (Pass.log context level message own) :=
  Ends.modify _ fun state holds => silent _ state.session _ holds

/-- An action does in a build what it does by itself, and leaves the report alone. -/
theorem Ends.ofAction {action : Action Answer}
    (ends : ∀ modules, Ends (before modules) action (fun answer => after answer modules)
      (failed modules)) :
    Ends (Amid before) (Pass.ofAction action) (fun answer => Amid (after answer)) (Amid failed) := by
  refine ⟨fun state start => ?_⟩
  have known := (ends state.report.compiled).outcome state.session start
  unfold Pass.ofAction
  rcases run : action state.session with ⟨answer | answer, session⟩
  · simpa [run, Amid] using known
  · simpa [run, Amid] using known

/-- What is done last is done after an answer and after a failure, and its own failure counts more. -/
theorem Concludes.closingPass {start : BuildState → Prop} {final : Answer → BuildState → Prop}
    {lost : Fault → BuildState → Prop} {last : Action Unit} {body : Pass Answer}
    (given : Answer → BuildState → Prop) (broken : Fault → BuildState → Prop)
    (ends : Concludes start body given broken)
    (answered : ∀ answer, Concludes (given answer) (Pass.ofAction last) (fun _ => final answer) lost)
    (ended : ∀ fault, Concludes (broken fault) (Pass.ofAction last) (fun _ => lost fault) lost) :
    Concludes start (Pass.closing last body) final lost := by
  refine ⟨fun state begun => ?_⟩
  have known := ends.outcome state begun
  unfold Pass.closing
  rcases run : body state with ⟨fault | answer, middle⟩
  · simp only [run] at known
    have closed := (ended fault).outcome middle known
    rcases again : Pass.ofAction last middle with ⟨done | done, final⟩ <;>
      simpa [again] using closed
  · simp only [run] at known
    have closed := (answered answer).outcome middle known
    rcases again : Pass.ofAction last middle with ⟨done | done, final⟩ <;>
      simpa [again] using closed

/-- What is done last is done after an answer and after a failure. -/
theorem Ends.closingPass {last : Action Unit} {body : Pass Answer}
    {broken final : List Path → Session → Prop}
    (ends : Ends (Amid before) body (fun answer => Amid (after answer)) (Amid broken))
    (answered : ∀ answer modules,
      Ends (after answer modules) last (fun _ => final modules) (failed modules))
    (ended : ∀ modules, Ends (broken modules) last (fun _ => failed modules) (failed modules)) :
    Ends (Amid before) (Pass.closing last body) (fun _ => Amid final) (Amid failed) :=
  Concludes.closingPass _ _ ends (fun answer => Ends.ofAction (answered answer)) fun _ => Ends.ofAction ended

/-- A stage is noted when it starts and when it ends. The failure of a stage that has to succeed, and an
interruption, are passed on; another failure is not. -/
theorem Concludes.stage {start begun : BuildState → Prop} {given : Answer → BuildState → Prop}
    {broken lost : Fault → BuildState → Prop} {final : Option Answer → BuildState → Prop}
    {body : Pass Answer} {context : List (String × Json)} {stage : Stage} {texts : StageTexts}
    (ends : Concludes begun body given broken)
    (starts : ∀ state, start state → begun (Pass.noted context .info texts.start
      [("stage", Json.ofString stage.name)] { state with report := state.report.start stage }))
    (succeeds : ∀ answer state, given answer state → final (some answer)
      (Pass.noted context .info texts.success [("stage", Json.ofString stage.name)]
        { state with report := state.report.succeed stage }))
    (interrupts : ∀ fault state, broken fault state → fault.isInterruption → lost fault state)
    (fails : ∀ fault state journal, broken fault state → fault.isInterruption = false →
      let marked : BuildState :=
        { session := { state.session with journal }, report := state.report.fail stage fault.message }
      if stage.isRequired then lost fault marked else final none marked) :
    Concludes start (Pass.stage context stage texts body) final lost := by
  refine ⟨fun state holds => ?_⟩
  have known := ends.outcome _ (starts state holds)
  unfold Pass.stage
  dsimp only
  generalize body (Pass.noted context .info texts.start [("stage", Json.ofString stage.name)]
    { state with report := state.report.start stage }) = result at known ⊢
  rcases result with ⟨fault | answer, middle⟩
  · dsimp only at known ⊢
    by_cases interrupted : fault.isInterruption
    · simpa only [interrupted, if_true] using interrupts fault middle known interrupted
    · have marked := fails fault middle
        (Pass.noted context .error s!"{texts.failure} {fault.message}"
          [("stage", Json.ofString stage.name)] middle).session.journal known (by simpa using interrupted)
      by_cases required : stage.isRequired
      · simpa [interrupted, required, Pass.noted] using marked
      · simpa [interrupted, required, Pass.noted] using marked
  · exact succeeds answer middle known

/-- A stage that has to succeed ends as its body does. -/
theorem Ends.stage {body : Pass Answer} {stage : Stage} (required : stage.isRequired)
    (silentBefore : ∀ modules, Silent (before modules))
    (silentAfter : ∀ answer modules, Silent (after answer modules))
    (silentFailed : ∀ modules, Silent (failed modules))
    (ends : Ends (Amid before) body (fun answer => Amid (after answer)) (Amid failed))
    (context : List (String × Json)) (texts : StageTexts) :
    Ends (Amid before) (Pass.stage context stage texts body)
      (fun answer state => ∃ given, answer = some given ∧ Amid (after given) state)
      (Amid failed) := by
  refine Concludes.stage ends (fun state holds => silentBefore _ state.session _ holds)
    (fun answer state holds => ⟨answer, rfl, silentAfter answer _ state.session _ holds⟩)
    (fun _ _ holds _ => holds) fun fault state journal holds _ => ?_
  have modules : (state.report.fail stage fault.message).compiled = state.report.compiled := by
    unfold Report.fail
    dsimp only
    split <;> rfl
  simpa only [required, if_true, Amid, modules] using silentFailed _ state.session journal holds

end

end TreeBuild
