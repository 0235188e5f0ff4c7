import Mathlib.Algebra.GroupWithZero.Nat
import Mathlib.Data.List.Count
import Mathlib.Data.List.Perm.Basic
import Mathlib.Logic.Relation
import TreeBuild.Proofs.Build.Disturbance

/-!
# Compiling side by side

Every source with markup has a task of its own: its text is read, and the compiler is called for it. The
plain sources have one task together, with a single call. No task waits for another. When the tasks of the
sources with markup have all ended, the first failure among them in the order of the sources counts; when
that is known and the plain sources are done too, there is a verdict.

The tasks may end in any order. What the verdict is and which calls are made depends on how the single
readings and calls end, and on nothing else. The law behind it is that a step moves calls: those that have
been made and those that are still to be made are together the same from the start to the end, and so are
those that have ended and those that are going on, compared with those that have been made.
-/
namespace TreeBuild

/-! ### The first failure of a list -/

namespace Action

variable {Answer : Type} {results : List (Except Fault Answer)}

/-- There are answers together if each of the results is an answer. -/
theorem allOrFirst_eq_ok_iff {answers : List Answer} :
    allOrFirst results = .ok answers ↔ results = answers.map .ok := by
  induction results generalizing answers with
  | nil => cases answers <;> simp [allOrFirst]
  | cons result rest inductionHypothesis =>
    cases result with
    | error fault => cases answers <;> simp [allOrFirst]
    | ok answer =>
      cases told : allOrFirst rest with
      | error fault =>
        cases answers with
        | nil => simp [allOrFirst, told, Except.map]
        | cons first others =>
          have never : rest ≠ others.map .ok := fun same => by
            cases (inductionHypothesis.mpr same).symm.trans told
          simp [allOrFirst, told, Except.map, never]
      | ok later =>
        obtain rfl := inductionHypothesis.mp told
        cases answers with
        | nil => simp [allOrFirst, told, Except.map]
        | cons first others =>
          simp [allOrFirst, told, Except.map, List.map_inj_right]

/-- The failure of a list of results is the first one in it: everything before it is an answer. -/
theorem allOrFirst_eq_error_iff {fault : Fault} :
    allOrFirst results = .error fault ↔ ∃ front back, results = front ++ .error fault :: back ∧
      ∀ result ∈ front, ∃ answer, result = .ok answer := by
  induction results with
  | nil => simp [allOrFirst]
  | cons result rest inductionHypothesis =>
    cases result with
    | error other =>
      constructor
      · rintro same
        cases same
        exact ⟨[], rest, rfl, by simp⟩
      · rintro ⟨front, back, split, succeed⟩
        cases front with
        | nil =>
          cases split
          rfl
        | cons first others =>
          cases split
          obtain ⟨answer, impossible⟩ := succeed _ List.mem_cons_self
          cases impossible
    | ok answer =>
      have mapped : allOrFirst (.ok answer :: rest) = .error fault ↔ allOrFirst rest = .error fault := by
        cases told : allOrFirst rest <;> simp [allOrFirst, told, Except.map]
      rw [mapped, inductionHypothesis]
      constructor
      · rintro ⟨front, back, rfl, succeed⟩
        refine ⟨.ok answer :: front, back, rfl, fun result member => ?_⟩
        rcases List.mem_cons.mp member with rfl | later
        · exact ⟨answer, rfl⟩
        · exact succeed result later
      · rintro ⟨front, back, split, succeed⟩
        cases front with
        | nil => cases split
        | cons first others =>
          cases split
          exact ⟨others, back, rfl, fun result member => succeed result (List.mem_cons_of_mem _ member)⟩

end Action

/-- What follows an action that fails is not done. -/
theorem Action.bind_error {Answer Result : Type} {action : Action Answer} {next : Answer → Action Result}
    {session : Session} {fault : Fault} (failed : (action session).1 = .error fault) :
    ((action >>= next) session).1 = .error fault := by
  rw [bind_apply]
  rcases ran : action session with ⟨outcome, after⟩
  rw [ran] at failed
  cases failed
  rfl

/-- An interruption of one of several actions is an interruption of them all. -/
theorem Action.settle_interrupted {Answer : Type} {action : Action Answer} {rest : List (Action Answer)}
    {session : Session} (first : (action session).1 = .error .interrupted) :
    (settle (action :: rest) session).1 = .error .interrupted := by
  rw [settle, bind_apply, attempt]
  rcases ran : action session with ⟨result, middle⟩
  rw [ran] at first
  cases first
  rfl

/-- So is an interruption of a later one. -/
theorem Action.settle_interrupted_later {Answer : Type} {action : Action Answer}
    {rest : List (Action Answer)} {session : Session} (calm : (action session).1 ≠ .error .interrupted)
    (others : (settle rest (action session).2).1 = .error .interrupted) :
    (settle (action :: rest) session).1 = .error .interrupted := by
  rcases ran : action session with ⟨result, middle⟩
  rw [ran] at calm others
  have goesOn : ((settle rest >>= fun later => pure (result :: later)) middle).1 = .error .interrupted := by
    rw [bind_apply]
    rcases later : settle rest middle with ⟨outcome, after⟩
    rw [later] at others
    cases others
    rfl
  rw [settle, bind_apply, attempt, ran]
  cases result with
  | ok answer => exact goesOn
  | error fault =>
    cases fault with
    | interrupted => exact absurd rfl calm
    | _ => exact goesOn

namespace Build

/-! ### Tasks and their phases -/

/-- A call of the compiler that a build makes. -/
inductive CompilerCall where
  /-- A text that stands for a file is compiled to an output. -/
  | buffer (source : String) (file output : Path)
  /-- Files are compiled to the output tree. -/
  | entryPoints (paths : List Path)
  deriving DecidableEq, Repr

/-- What is done to compile some sources, and how it ends: what is prepared may fail or lead to a call. -/
structure Errand (Answer : Type) where
  prepared : Except Fault (Option CompilerCall)
  called : Except Fault Unit
  answer : Answer

/-- How far an errand has come. -/
inductive Phase (Answer : Type) where
  | waiting
  | preparing
  | calling (call : CompilerCall)
  | ended (result : Except Fault Answer)

namespace Errand

variable {Answer : Type} (errand : Errand Answer)

/-- How the call ends, with the answer if it succeeds. -/
def afterCall : Except Fault Answer := errand.called.map fun _ => errand.answer

/-- How the errand ends. -/
def outcome : Except Fault Answer :=
  match errand.prepared with
  | .error fault => .error fault
  | .ok none => .ok errand.answer
  | .ok (some _) => errand.afterCall

/-- The calls that are made on the errand. -/
def calls : List CompilerCall :=
  match errand.prepared with
  | .ok (some call) => [call]
  | _ => []

/-- What follows a phase of the errand. -/
def next? : Phase Answer → Option (Phase Answer)
  | .waiting => some .preparing
  | .preparing =>
    match errand.prepared with
    | .error fault => some (.ended (.error fault))
    | .ok none => some (.ended (.ok errand.answer))
    | .ok (some call) => some (.calling call)
  | .calling _ => some (.ended errand.afterCall)
  | .ended _ => none

/-- How the errand ends from a phase on. -/
def outcomeFrom : Phase Answer → Except Fault Answer
  | .waiting | .preparing => errand.outcome
  | .calling _ => errand.afterCall
  | .ended result => result

/-- The calls that are still to be made from a phase on. -/
def callsFrom : Phase Answer → List CompilerCall
  | .waiting | .preparing => errand.calls
  | .calling _ | .ended _ => []

end Errand

namespace Phase

variable {Answer : Type}

/-- The call that goes on in a phase. -/
def calls : Phase Answer → List CompilerCall
  | .calling call => [call]
  | _ => []

/-- How many steps are left. -/
def left : Phase Answer → Nat
  | .waiting => 3
  | .preparing => 2
  | .calling _ => 1
  | .ended _ => 0

end Phase

section

variable {Answer : Type} {errand : Errand Answer} {phase later : Phase Answer}

/-- A step of an errand decides nothing: it was decided before. -/
theorem Errand.outcomeFrom_next? (goesOn : errand.next? phase = some later) :
    errand.outcomeFrom later = errand.outcomeFrom phase := by
  cases phase with
  | waiting => cases goesOn; rfl
  | preparing =>
    rw [next?] at goesOn
    split at goesOn <;> rename_i prepared <;> cases goesOn <;> simp [outcomeFrom, outcome, prepared]
  | calling call => cases goesOn; rfl
  | ended result => cases goesOn

/-- A call that is made was to be made. -/
theorem Errand.callsFrom_next? (goesOn : errand.next? phase = some later) :
    later.calls ++ errand.callsFrom later = errand.callsFrom phase := by
  cases phase with
  | waiting => cases goesOn; rfl
  | preparing =>
    rw [next?] at goesOn
    split at goesOn <;> rename_i prepared <;> cases goesOn <;>
      simp [callsFrom, calls, Phase.calls, prepared]
  | calling call => cases goesOn; rfl
  | ended result => cases goesOn

/-- A step of an errand brings it nearer to its end. -/
theorem Errand.left_next? (goesOn : errand.next? phase = some later) : later.left < phase.left := by
  cases phase with
  | waiting => cases goesOn; simp [Phase.left]
  | preparing =>
    rw [next?] at goesOn
    split at goesOn <;> cases goesOn <;> simp [Phase.left]
  | calling call => cases goesOn; simp [Phase.left]
  | ended result => cases goesOn

/-- An errand that has not ended goes on. -/
theorem Errand.next?_or_ended (errand : Errand Answer) (phase : Phase Answer) :
    (∃ later, errand.next? phase = some later) ∨ ∃ result, phase = .ended result := by
  cases phase with
  | waiting => exact .inl ⟨_, rfl⟩
  | preparing =>
    rw [next?]
    split <;> exact .inl ⟨_, rfl⟩
  | calling call => exact .inl ⟨_, rfl⟩
  | ended result => exact .inr ⟨result, rfl⟩

end

/-! ### All tasks together -/

/-- A task: an errand and how far it has come. -/
structure Strand (Answer : Type) where
  errand : Errand Answer
  phase : Phase Answer := .waiting

namespace Strand

variable {Answer : Type} (strand : Strand Answer)

/-- How the task ends. -/
def outcome : Except Fault Answer := strand.errand.outcomeFrom strand.phase

/-- The calls that are still to be made in the task. -/
def toMake : List CompilerCall := strand.errand.callsFrom strand.phase

/-- The call of the task that goes on. -/
def goingOn : List CompilerCall := strand.phase.calls

end Strand

/-- The state of a compilation: its tasks, the calls that have been made and those that have ended. -/
structure Compilation where
  markup : List (Strand Path)
  plain : Strand (List Path)
  made : List CompilerCall := []
  completed : List CompilerCall := []
  /-- What the sources with markup come to, once all of them are done. -/
  gathered : Option (Except Fault (List Path)) := none
  /-- What all sources come to. -/
  verdict : Option (Except Fault (List Path)) := none

namespace Compilation

/-- The calls that are still to be made. -/
def toMake (state : Compilation) : List CompilerCall :=
  state.markup.flatMap Strand.toMake ++ state.plain.toMake

/-- The calls that go on. -/
def goingOn (state : Compilation) : List CompilerCall :=
  state.markup.flatMap Strand.goingOn ++ state.plain.goingOn

/-- One step of a compilation: a task goes on, or what has ended is brought together. -/
inductive Step : Compilation → Compilation → Prop where
  | markup {state : Compilation} {front back : List (Strand Path)} {errand : Errand Path}
      {phase later : Phase Path} (place : state.markup = front ++ ⟨errand, phase⟩ :: back)
      (goesOn : errand.next? phase = some later) :
      Step state { state with
        markup := front ++ ⟨errand, later⟩ :: back
        made := state.made ++ later.calls
        completed := state.completed ++ phase.calls }
  | plain {state : Compilation} {errand : Errand (List Path)} {phase later : Phase (List Path)}
      (place : state.plain = ⟨errand, phase⟩) (goesOn : errand.next? phase = some later) :
      Step state { state with
        plain := ⟨errand, later⟩
        made := state.made ++ later.calls
        completed := state.completed ++ phase.calls }
  | gather {state : Compilation} {results : List (Except Fault Path)} (waits : state.gathered = none)
      (ended : state.markup.map Strand.phase = results.map .ended) :
      Step state { state with gathered := some (Action.allOrFirst results) }
  | conclude {state : Compilation} {markup plain : Except Fault (List Path)} (waits : state.verdict = none)
      (gathered : state.gathered = some markup) (ended : state.plain.phase = .ended plain) :
      Step state { state with
        verdict := some (do
          let markup ← markup
          let plain ← plain
          return markup ++ plain) }

/-- How many steps are left. -/
def left (state : Compilation) : Nat :=
  (state.markup.map fun strand => strand.phase.left).sum + state.plain.phase.left +
    (if state.gathered.isNone then 1 else 0) + if state.verdict.isNone then 1 else 0

variable {state next : Compilation}

/-- A step of a compilation brings it nearer to its end. -/
theorem Step.left_lt (step : Step state next) : next.left < state.left := by
  cases step with
  | markup place goesOn =>
    have fewer := Errand.left_next? goesOn
    simp only [left, place, List.map_append, List.map_cons, List.sum_append, List.sum_cons]
    omega
  | plain place goesOn =>
    have fewer := Errand.left_next? goesOn
    simp only [left, place]
    omega
  | gather waits ended => simp [left, waits]
  | conclude waits gathered ended => simp [left, waits]

/-- However the tasks take turns, they come to an end. -/
theorem acc_step (state : Compilation) : Acc (fun later earlier => Step earlier later) state :=
  Subrelation.accessible (fun step => step.left_lt) ((measure left).wf.apply state)

/-- All tasks have ended, or one can go on. -/
theorem step_or_ended (strands : List (Strand Path)) :
    (∃ front errand phase back later, strands = front ++ ⟨errand, phase⟩ :: back ∧
      errand.next? phase = some later) ∨
    ∃ results : List (Except Fault Path), strands.map Strand.phase = results.map .ended := by
  induction strands with
  | nil => exact .inr ⟨[], rfl⟩
  | cons strand rest inductionHypothesis =>
    rcases strand.errand.next?_or_ended strand.phase with ⟨later, goesOn⟩ | ⟨result, ended⟩
    · exact .inl ⟨[], _, _, rest, later, rfl, goesOn⟩
    · rcases inductionHypothesis with ⟨front, errand, phase, back, later, rfl, goesOn⟩ | ⟨results, all⟩
      · exact .inl ⟨strand :: front, errand, phase, back, later, rfl, goesOn⟩
      · exact .inr ⟨result :: results, by simp [ended, all]⟩

/-- A compilation goes on until there is a verdict. -/
theorem exists_step (open_ : state.verdict = none) : ∃ next, Step state next := by
  rcases step_or_ended state.markup with ⟨front, errand, phase, back, later, place, goesOn⟩ | ⟨results, all⟩
  · exact ⟨_, .markup place goesOn⟩
  · cases gathered : state.gathered with
    | none => exact ⟨_, .gather gathered all⟩
    | some markup =>
      rcases state.plain.errand.next?_or_ended state.plain.phase with ⟨later, goesOn⟩ | ⟨plain, ended⟩
      · exact ⟨_, .plain rfl goesOn⟩
      · exact ⟨_, .conclude open_ gathered ended⟩

/-- Whether all tasks of the sources with markup have ended. -/
def IsGathered (state : Compilation) : Prop :=
  ∃ results : List (Except Fault Path), state.markup.map Strand.phase = results.map .ended

/-- Ended tasks have the outcomes that they ended with. -/
theorem outcomes_of_ended {strands : List (Strand Path)} {results : List (Except Fault Path)}
    (ended : strands.map Strand.phase = results.map .ended) : strands.map Strand.outcome = results := by
  induction strands generalizing results with
  | nil => cases results <;> simp_all
  | cons strand rest inductionHypothesis =>
    cases results with
    | nil => cases ended
    | cons result others =>
      obtain ⟨first, later⟩ := List.cons.inj ended
      have here : strand.outcome = result := by rw [Strand.outcome, first]; rfl
      rw [List.map_cons, here, inductionHypothesis later]

/-- No call is to be made or goes on in an ended task. -/
theorem calls_of_ended {strands : List (Strand Path)} {results : List (Except Fault Path)}
    (ended : strands.map Strand.phase = results.map .ended) :
    strands.flatMap Strand.toMake = [] ∧ strands.flatMap Strand.goingOn = [] := by
  induction strands generalizing results with
  | nil => exact ⟨rfl, rfl⟩
  | cons strand rest inductionHypothesis =>
    cases results with
    | nil => cases ended
    | cons result others =>
      obtain ⟨first, later⟩ := List.cons.inj ended
      obtain ⟨none, still⟩ := inductionHypothesis later
      have noCall : strand.toMake = [] ∧ strand.goingOn = [] := by
        rw [Strand.toMake, Strand.goingOn, first]
        exact ⟨rfl, rfl⟩
      simp [none, still, noCall]

/-- What is kept from the start of a compilation on. -/
structure Keeps (start state : Compilation) : Prop where
  markup : state.markup.map Strand.outcome = start.markup.map Strand.outcome
  plain : state.plain.outcome = start.plain.outcome
  /-- What has been made and what is to be made is always the same together. -/
  made : (state.made ++ state.toMake).Perm (start.made ++ start.toMake)
  /-- What has been made has ended or goes on. -/
  completed : (state.completed ++ state.goingOn).Perm state.made
  gathered : ∀ result, state.gathered = some result →
    state.IsGathered ∧ result = Action.allOrFirst (start.markup.map Strand.outcome)
  verdict : ∀ verdict, state.verdict = some verdict → state.gathered.isSome ∧
    (∃ result, state.plain.phase = .ended result) ∧
      verdict = Build.verdict (start.markup.map Strand.outcome) start.plain.outcome

/-- Where all tasks have ended, none goes on. -/
theorem IsGathered.next?_eq_none {front back : List (Strand Path)} {errand : Errand Path}
    {phase : Phase Path} (gathered : state.IsGathered)
    (place : state.markup = front ++ ⟨errand, phase⟩ :: back) : errand.next? phase = none := by
  obtain ⟨results, ended⟩ := gathered
  have member : phase ∈ results.map Phase.ended := by simp [← ended, place]
  obtain ⟨result, -, rfl⟩ := List.mem_map.mp member
  rfl

/-- A step of a compilation keeps what is known from its start. -/
theorem Keeps.step {start : Compilation} (keeps : Keeps start state) (step : Step state next) :
    Keeps start next := by
  have made := List.perm_iff_count.mp keeps.made
  have completed := List.perm_iff_count.mp keeps.completed
  cases step with
  | @markup front back errand phase later place goesOn =>
    have same := Errand.outcomeFrom_next? goesOn
    have moved := Errand.callsFrom_next? goesOn
    simp only [toMake, goingOn, place, List.flatMap_append, List.flatMap_cons, Strand.toMake, Strand.goingOn,
      List.count_append, ← moved] at made completed
    refine ⟨?_, keeps.plain, ?_, ?_, ?_, keeps.verdict⟩
    · rw [← keeps.markup, place]
      simp [Strand.outcome, same]
    · refine List.perm_iff_count.mpr fun call => ?_
      have known := made call
      simp only [toMake, List.flatMap_append, List.flatMap_cons, Strand.toMake, List.count_append]
      omega
    · refine List.perm_iff_count.mpr fun call => ?_
      have known := completed call
      simp only [goingOn, List.flatMap_append, List.flatMap_cons, Strand.goingOn, List.count_append]
      omega
    · intro result gathered
      have stays := (keeps.gathered result gathered).1.next?_eq_none place
      cases stays.symm.trans goesOn
  | @plain errand phase later place goesOn =>
    have same := Errand.outcomeFrom_next? goesOn
    have moved := Errand.callsFrom_next? goesOn
    simp only [toMake, goingOn, place, Strand.toMake, Strand.goingOn, List.count_append, ← moved] at made completed
    refine ⟨keeps.markup, ?_, ?_, ?_, keeps.gathered, ?_⟩
    · rw [← keeps.plain, place]
      exact same
    · refine List.perm_iff_count.mpr fun call => ?_
      have known := made call
      simp only [toMake, Strand.toMake, List.count_append]
      omega
    · refine List.perm_iff_count.mpr fun call => ?_
      have known := completed call
      simp only [goingOn, Strand.goingOn, List.count_append]
      omega
    · intro verdict decided
      obtain ⟨-, ⟨result, ended⟩, -⟩ := keeps.verdict verdict decided
      rw [place] at ended
      cases ended
      cases goesOn
  | @gather results waits ended =>
    refine { keeps with gathered := ?_, verdict := ?_ }
    · intro result same
      cases same
      rw [← keeps.markup, outcomes_of_ended ended]
      exact ⟨⟨results, ended⟩, rfl⟩
    · intro verdict decided
      have gathered := (keeps.verdict verdict decided).1
      rw [waits] at gathered
      cases gathered
  | @conclude markup plain waits gathered ended =>
    refine { keeps with verdict := ?_ }
    intro verdict same
    cases same
    have outcome : state.plain.outcome = plain := by rw [Strand.outcome, ended]; rfl
    refine ⟨by simp [gathered], ⟨plain, ended⟩, ?_⟩
    rw [(keeps.gathered markup gathered).2, ← keeps.plain, outcome]
    rfl

/-- A compilation in which nothing has been done yet. -/
def start (markup : List (Errand Path)) (plain : Errand (List Path)) : Compilation where
  markup := markup.map fun errand => { errand }
  plain := { errand := plain }

/-- At the start of a compilation nothing has been made and nothing is decided. -/
theorem Keeps.start (markup : List (Errand Path)) (plain : Errand (List Path)) :
    Keeps (Compilation.start markup plain) (Compilation.start markup plain) where
  markup := rfl
  plain := rfl
  made := .refl _
  completed := by
    have none : (markup.map fun errand => ({ errand } : Strand Path)).flatMap Strand.goingOn = [] := by
      simp [List.flatMap_map, Strand.goingOn, Phase.calls]
    simp only [goingOn, Compilation.start, none]
    exact .refl _
  gathered _ impossible := by cases impossible
  verdict _ impossible := by cases impossible

/-- Any number of steps. -/
abbrev Runs : Compilation → Compilation → Prop := Relation.ReflTransGen Step

/-- Some course of a compilation leads to a verdict. -/
theorem exists_verdict (state : Compilation) : ∃ last verdict, Runs state last ∧ last.verdict = some verdict := by
  induction acc_step state with
  | intro state _ inductionHypothesis =>
    cases decided : state.verdict with
    | some verdict => exact ⟨state, verdict, .refl, decided⟩
    | none =>
      obtain ⟨next, step⟩ := exists_step decided
      obtain ⟨last, verdict, ran, decided⟩ := inductionHypothesis next step
      exact ⟨last, verdict, .head step ran, decided⟩

/-- Any number of steps keep what is known from the start. -/
theorem keeps_of_runs {markup : List (Errand Path)} {plain : Errand (List Path)}
    (ran : Runs (.start markup plain) state) : Keeps (.start markup plain) state := by
  induction ran with
  | refl => exact .start markup plain
  | tail _ step inductionHypothesis => exact inductionHypothesis.step step

/-- Once there is a verdict, nothing goes on: every call that was to be made has been made and has ended, and
the verdict is the one on the outcomes of the errands. -/
theorem settled_of_runs {markup : List (Errand Path)} {plain : Errand (List Path)}
    (ran : Runs (.start markup plain) state) {verdict : Except Fault (List Path)}
    (decided : state.verdict = some verdict) :
    (∃ results : List (Except Fault Path), state.markup.map Strand.phase = results.map .ended) ∧
      (∃ result, state.plain.phase = .ended result) ∧ state.completed.Perm state.made ∧
      state.made.Perm (markup.flatMap Errand.calls ++ plain.calls) ∧
      verdict = Build.verdict (markup.map Errand.outcome) plain.outcome := by
  have keeps := keeps_of_runs ran
  obtain ⟨gathered, ⟨result, ended⟩, same⟩ := keeps.verdict verdict decided
  obtain ⟨inner, gathered⟩ := Option.isSome_iff_exists.mp gathered
  obtain ⟨results, all⟩ := (keeps.gathered inner gathered).1
  obtain ⟨none, still⟩ := calls_of_ended all
  have made := keeps.made
  have completed := keeps.completed
  have noCall : state.plain.toMake = [] ∧ state.plain.goingOn = [] := by
    rw [Strand.toMake, Strand.goingOn, ended]
    exact ⟨rfl, rfl⟩
  simp only [toMake, goingOn, none, still, noCall, List.append_nil] at made completed
  refine ⟨⟨results, all⟩, ⟨result, ended⟩, completed, ?_, ?_⟩
  · simpa [Compilation.start, List.flatMap_map, Strand.toMake, Errand.callsFrom] using made
  · simpa [Compilation.start, Function.comp_def, Strand.outcome, Errand.outcomeFrom] using same

end Compilation

/-! ### Sources and how their compilation ends -/

/-- A source with markup, with how it is read and how the call for it ends. Neither is interrupted. -/
structure Assignment where
  file : SourceFile
  text : Except Fault String
  called : Except Fault Unit
  heard : text ≠ .error .interrupted
  finished : called ≠ .error .interrupted

namespace Assignment

/-- The errand for a source with markup: once its text is read, the compiler is called for it. -/
def errand (layout : Layout) (assignment : Assignment) : Errand Path where
  prepared := assignment.text.map fun source =>
    some (.buffer (Compiler.withPreamble source) assignment.file.path
      (layout.destination assignment.file.path))
  called := assignment.called
  answer := layout.destination assignment.file.path

/-- Whether neither the reading nor the call fails. -/
def Succeeds (assignment : Assignment) : Prop :=
  (∃ source, assignment.text = .ok source) ∧ assignment.called = .ok ()

/-- Whether the reading fails, or else the call. -/
def Fails (assignment : Assignment) (fault : Fault) : Prop :=
  assignment.text = .error fault ∨ (∃ source, assignment.text = .ok source) ∧ assignment.called = .error fault

/-- A source with markup succeeds or fails. -/
theorem succeeds_or_fails (assignment : Assignment) :
    assignment.Succeeds ∨ ∃ fault, assignment.Fails fault := by
  unfold Succeeds Fails
  cases assignment.text with
  | error fault => exact .inr ⟨fault, .inl rfl⟩
  | ok source =>
    cases assignment.called with
    | error fault => exact .inr ⟨fault, .inr ⟨⟨source, rfl⟩, rfl⟩⟩
    | ok done => exact .inl ⟨⟨source, rfl⟩, rfl⟩

/-- The errand for a source that succeeds ends with its destination. -/
theorem outcome_of_succeeds {layout : Layout} {assignment : Assignment} (succeeds : assignment.Succeeds) :
    (assignment.errand layout).outcome = .ok (layout.destination assignment.file.path) := by
  obtain ⟨⟨source, read⟩, called⟩ := succeeds
  simp [errand, Errand.outcome, Errand.afterCall, read, called, Except.map]

/-- The errand for a source that fails ends with its failure. -/
theorem outcome_of_fails {layout : Layout} {assignment : Assignment} {fault : Fault}
    (fails : assignment.Fails fault) : (assignment.errand layout).outcome = .error fault := by
  rcases fails with read | ⟨⟨source, read⟩, called⟩
  · simp [errand, Errand.outcome, read, Except.map]
  · simp [errand, Errand.outcome, Errand.afterCall, read, called, Except.map]

/-- The errand is not interrupted, because neither the reading nor the call is. -/
theorem outcome_ne_interrupted {layout : Layout} (assignment : Assignment) :
    (assignment.errand layout).outcome ≠ .error .interrupted := by
  rcases assignment.succeeds_or_fails with succeeds | ⟨fault, fails⟩
  · rw [outcome_of_succeeds succeeds]
    exact fun impossible => by cases impossible
  · rw [outcome_of_fails fails]
    intro same
    cases same
    rcases fails with read | ⟨-, called⟩
    · exact assignment.heard read
    · exact assignment.finished called

end Assignment

/-- The sources that are compiled, with how every reading and every call ends. -/
structure Plan where
  layout : Layout
  markup : List Assignment
  plain : List SourceFile
  /-- How the call for the plain sources ends, if it is made. -/
  called : Except Fault Unit
  finished : called ≠ .error .interrupted

namespace Plan

variable (plan : Plan)

/-- The errand for the plain sources: without any there is no call. -/
def plainErrand : Errand (List Path) where
  prepared := .ok (if plan.plain = [] then none else some (.entryPoints (plan.plain.map SourceFile.path)))
  called := plan.called
  answer := plan.plain.map fun file => plan.layout.destination file.path

/-- The compilation before anything is done. -/
def begin : Compilation := .start (plan.markup.map (Assignment.errand plan.layout)) plan.plainErrand

/-- The calls that are made: one for the plain sources together, and one for every source with markup that
can be read. -/
def calls : List CompilerCall :=
  plan.plainErrand.calls ++ plan.markup.flatMap fun assignment => (assignment.errand plan.layout).calls

/-- Whether the call for the plain sources is made and fails. -/
def PlainFails (fault : Fault) : Prop := plan.plain ≠ [] ∧ plan.called = .error fault

/-- What the sources come to by how their readings and calls end. -/
structure IsVerdict (verdict : Except Fault (List Path)) : Prop where
  fails_iff : (∃ fault, verdict = .error fault) ↔
    (∃ assignment ∈ plan.markup, ∃ fault, assignment.Fails fault) ∨ ∃ fault, plan.PlainFails fault
  first {front back : List Assignment} {assignment : Assignment} {fault : Fault}
    (place : plan.markup = front ++ assignment :: back) (before : ∀ other ∈ front, other.Succeeds)
    (fails : assignment.Fails fault) : verdict = .error fault
  plain (succeed : ∀ assignment ∈ plan.markup, assignment.Succeeds) {fault : Fault}
    (fails : plan.PlainFails fault) : verdict = .error fault
  outputs (succeed : ∀ assignment ∈ plan.markup, assignment.Succeeds)
    (done : ∀ fault, ¬ plan.PlainFails fault) :
    verdict = .ok ((plan.markup.map fun assignment => plan.layout.destination assignment.file.path) ++
      plan.plain.map fun file => plan.layout.destination file.path)

/-- What the running build makes of the outcomes of its tasks. -/
def verdict : Except Fault (List Path) :=
  Build.verdict (plan.markup.map fun assignment => (assignment.errand plan.layout).outcome)
    plan.plainErrand.outcome

variable {plan}

/-- The failure of the first source that fails is the verdict, whatever comes behind it. -/
theorem verdict_of_first {front back : List Assignment} {assignment : Assignment} {fault : Fault}
    (place : plan.markup = front ++ assignment :: back) (before : ∀ other ∈ front, other.Succeeds)
    (fails : assignment.Fails fault) : plan.verdict = .error fault := by
  have split : (plan.markup.map fun one => (one.errand plan.layout).outcome) =
      (front.map fun one => (one.errand plan.layout).outcome) ++ .error fault ::
        back.map fun one => (one.errand plan.layout).outcome := by
    rw [place, List.map_append, List.map_cons, Assignment.outcome_of_fails fails]
  have first := Action.allOrFirst_eq_error_iff.mpr ⟨_, _, split, fun result member => by
    obtain ⟨other, inside, rfl⟩ := List.mem_map.mp member
    exact ⟨_, Assignment.outcome_of_succeeds (before other inside)⟩⟩
  rw [verdict, Build.verdict, first]
  rfl

/-- If no source with markup fails, the plain sources decide. -/
theorem verdict_of_succeed (succeed : ∀ assignment ∈ plan.markup, assignment.Succeeds) :
    plan.verdict = plan.plainErrand.outcome.map fun outputs =>
      (plan.markup.map fun assignment => plan.layout.destination assignment.file.path) ++ outputs := by
  have all : Action.allOrFirst (plan.markup.map fun one => (one.errand plan.layout).outcome) =
      .ok (plan.markup.map fun one => plan.layout.destination one.file.path) := by
    rw [Action.allOrFirst_eq_ok_iff, List.map_map]
    exact List.map_congr_left fun one member => Assignment.outcome_of_succeeds (succeed one member)
  rw [verdict, Build.verdict, all]
  cases plan.plainErrand.outcome <;> rfl

/-- The errand for the plain sources fails if their call does. -/
theorem plainOutcome_of_fails {fault : Fault} (fails : plan.PlainFails fault) :
    plan.plainErrand.outcome = .error fault := by
  obtain ⟨nonempty, called⟩ := fails
  simp [plainErrand, Errand.outcome, Errand.afterCall, nonempty, called, Except.map]

/-- The errand for the plain sources ends with their destinations if no call for them fails. -/
theorem plainOutcome_of_done (done : ∀ fault, ¬ plan.PlainFails fault) :
    plan.plainErrand.outcome = .ok (plan.plain.map fun file => plan.layout.destination file.path) := by
  by_cases empty : plan.plain = []
  · simp [plainErrand, Errand.outcome, empty]
  · cases called : plan.called with
    | error fault => exact absurd ⟨empty, called⟩ (done fault)
    | ok finished => simp [plainErrand, Errand.outcome, Errand.afterCall, empty, called, Except.map]

/-- The errand for the plain sources is not interrupted, because their call is not. -/
theorem plainOutcome_ne_interrupted (plan : Plan) : plan.plainErrand.outcome ≠ .error .interrupted := by
  by_cases fails : ∃ fault, plan.PlainFails fault
  · obtain ⟨fault, fails⟩ := fails
    rw [plainOutcome_of_fails fails]
    intro same
    cases same
    exact plan.finished fails.2
  · rw [plainOutcome_of_done fun fault known => fails ⟨fault, known⟩]
    exact fun impossible => by cases impossible

/-- All sources with markup succeed, or one is the first of them that fails. -/
theorem succeed_or_first (markup : List Assignment) :
    (∀ assignment ∈ markup, assignment.Succeeds) ∨
      ∃ front assignment back fault, markup = front ++ assignment :: back ∧
        (∀ other ∈ front, other.Succeeds) ∧ assignment.Fails fault := by
  induction markup with
  | nil => exact .inl (by simp)
  | cons assignment rest inductionHypothesis =>
    rcases assignment.succeeds_or_fails with succeeds | ⟨fault, fails⟩
    · rcases inductionHypothesis with all | ⟨front, first, back, fault, rfl, before, fails⟩
      · exact .inl (List.forall_mem_cons.mpr ⟨succeeds, all⟩)
      · refine .inr ⟨assignment :: front, first, back, fault, rfl, ?_, fails⟩
        exact List.forall_mem_cons.mpr ⟨succeeds, before⟩
    · exact .inr ⟨[], assignment, rest, fault, rfl, by simp, fails⟩

/-- The verdict of the running build is a verdict on its plan. -/
theorem isVerdict_verdict (plan : Plan) : plan.IsVerdict plan.verdict where
  first place before fails := verdict_of_first place before fails
  plain succeed _ fails := by rw [verdict_of_succeed succeed, plainOutcome_of_fails fails]; rfl
  outputs succeed done := by rw [verdict_of_succeed succeed, plainOutcome_of_done done]; rfl
  fails_iff := by
    rcases succeed_or_first plan.markup with succeed | ⟨front, first, back, fault, place, before, fails⟩
    · have never : ¬ ∃ assignment ∈ plan.markup, ∃ fault, assignment.Fails fault := by
        rintro ⟨assignment, member, fault, fails⟩
        cases (Assignment.outcome_of_succeeds (succeed assignment member)).symm.trans
          (@Assignment.outcome_of_fails plan.layout _ _ fails)
      by_cases plainFails : ∃ fault, plan.PlainFails fault
      · obtain ⟨fault, fails⟩ := plainFails
        rw [verdict_of_succeed succeed, plainOutcome_of_fails fails]
        exact ⟨fun _ => .inr ⟨fault, fails⟩, fun _ => ⟨fault, rfl⟩⟩
      · rw [verdict_of_succeed succeed, plainOutcome_of_done fun fault fails => plainFails ⟨fault, fails⟩]
        refine ⟨fun ⟨fault, impossible⟩ => (by cases impossible), fun fails => ?_⟩
        exact absurd fails (not_or.mpr ⟨never, plainFails⟩)
    · rw [verdict_of_first place before fails]
      refine ⟨fun _ => .inl ⟨first, ?_, fault, fails⟩, fun _ => ⟨fault, rfl⟩⟩
      simp [place]

/-- A plan has one verdict. -/
theorem IsVerdict.eq_verdict {verdict : Except Fault (List Path)} (settled : plan.IsVerdict verdict) :
    verdict = plan.verdict := by
  rcases succeed_or_first plan.markup with succeed | ⟨front, first, back, fault, place, before, fails⟩
  · by_cases plainFails : ∃ fault, plan.PlainFails fault
    · obtain ⟨fault, fails⟩ := plainFails
      rw [settled.plain succeed fails, plan.isVerdict_verdict.plain succeed fails]
    · have done : ∀ fault, ¬ plan.PlainFails fault := fun fault fails => plainFails ⟨fault, fails⟩
      rw [settled.outputs succeed done, plan.isVerdict_verdict.outputs succeed done]
  · rw [settled.first place before fails, plan.isVerdict_verdict.first place before fails]

end Plan

/-! ### One task after the other -/

section

variable (compiler : Compiler) (options : CompilerOptions) (layout : Layout)

/-- A call of the compiler as an action. -/
def CompilerCall.act : CompilerCall → Action Unit
  | buffer source file output => compiler.buildBuffer source file output options
  | entryPoints paths => compiler.buildEntryPoints paths options layout

/-- The session after calls that are made one after the other, however they end. -/
def performed (calls : List CompilerCall) (session : Session) : Session :=
  calls.foldl (fun session call => (call.act compiler options layout session).2) session

/-- The calls of an errand end as they do in a session. -/
def Errand.Ends {Answer : Type} (errand : Errand Answer) (session : Session) : Prop :=
  ∀ call ∈ errand.calls, errand.called = (call.act compiler options layout session).1

/-- Sources with markup are read and compiled one after the other with these outcomes. -/
def EndInTurn : List Assignment → Session → Prop
  | [], _ => True
  | assignment :: rest, session =>
    assignment.text = Session.textAt session.tree assignment.file.path ∧
      (assignment.errand layout).Ends compiler options layout session ∧
      EndInTurn rest (performed compiler options layout (assignment.errand layout).calls session)

variable {compiler options layout}

/-- Calls that are made in two parts are made one after the other. -/
theorem performed_append (front back : List CompilerCall) (session : Session) :
    performed compiler options layout (front ++ back) session =
      performed compiler options layout back (performed compiler options layout front session) :=
  List.foldl_append

/-- Compiling one source with markup carries out its errand. -/
theorem compileMarkup_apply {assignment : Assignment} {session : Session}
    (read : assignment.text = Session.textAt session.tree assignment.file.path)
    (ends : (assignment.errand layout).Ends compiler options layout session) :
    compileMarkup compiler options layout assignment.file session =
      ((assignment.errand layout).outcome,
        performed compiler options layout (assignment.errand layout).calls session) := by
  unfold compileMarkup
  rw [bind_apply, Action.readText_apply, ← read]
  cases text : assignment.text with
  | error fault => simp [Assignment.errand, Errand.outcome, Errand.calls, text, Except.map, performed]
  | ok source =>
    have called : assignment.called = (compiler.buildBuffer (Compiler.withPreamble source)
        assignment.file.path (layout.destination assignment.file.path) options session).1 :=
      ends (.buffer _ _ _) (by simp [Errand.calls, Assignment.errand, text, Except.map])
    simp only [Assignment.errand, Errand.outcome, Errand.afterCall, Errand.calls, text, Except.map, performed,
      List.foldl_cons, List.foldl_nil, CompilerCall.act, called, bind_apply]
    rcases compiler.buildBuffer (Compiler.withPreamble source) assignment.file.path
      (layout.destination assignment.file.path) options session with ⟨fault | done, after⟩ <;> rfl

/-- Compiling the plain sources carries out their errand. -/
theorem compilePlain_apply {plan : Plan} {session : Session}
    (ends : plan.plainErrand.Ends compiler options plan.layout session) :
    compilePlain compiler options plan.layout plan.plain session =
      (plan.plainErrand.outcome, performed compiler options plan.layout plan.plainErrand.calls session) := by
  unfold compilePlain
  by_cases empty : plan.plain = []
  · have noCall : compiler.buildEntryPoints [] options plan.layout session = (.ok (), session) := rfl
    simp only [empty, List.map_nil, bind_apply, noCall, Plan.plainErrand, if_true, Errand.outcome, Errand.calls]
    rfl
  · have called : plan.called = (compiler.buildEntryPoints (plan.plain.map SourceFile.path) options
        plan.layout session).1 := ends (.entryPoints _) (by simp [Errand.calls, Plan.plainErrand, empty])
    simp only [Plan.plainErrand, empty, if_false, Errand.outcome, Errand.afterCall, Errand.calls, performed,
      List.foldl_cons, List.foldl_nil, CompilerCall.act, called, bind_apply]
    rcases compiler.buildEntryPoints (plan.plain.map SourceFile.path) options plan.layout session with
      ⟨fault | done, after⟩ <;> rfl

/-- The errands for the sources with markup are carried out one after the other. -/
theorem settle_compileMarkup {markup : List Assignment} {session : Session}
    (ending : EndInTurn compiler options layout markup session) :
    Action.settle ((markup.map Assignment.file).map (compileMarkup compiler options layout)) session =
      (.ok (markup.map fun assignment => (assignment.errand layout).outcome),
        performed compiler options layout (markup.flatMap fun one => (one.errand layout).calls) session) := by
  induction markup generalizing session with
  | nil => rfl
  | cons assignment rest inductionHypothesis =>
    obtain ⟨read, ends, later⟩ := ending
    rw [List.flatMap_cons, performed_append]
    exact Action.settle_cons (compileMarkup_apply read ends) assignment.outcome_ne_interrupted
      (inductionHypothesis later)

end

/-- Everything is read and compiled one after the other with the outcomes of a plan, the plain sources first. -/
structure Plan.Ends (plan : Plan) (compiler : Compiler) (options : CompilerOptions) (session : Session) :
    Prop where
  plain : plan.plainErrand.Ends compiler options plan.layout session
  markup : EndInTurn compiler options plan.layout plan.markup
    (performed compiler options plan.layout plan.plainErrand.calls session)

/-- The running build makes the calls of a plan one after the other and comes to its verdict. -/
theorem compile_apply {plan : Plan} {compiler : Compiler} {options : CompilerOptions} {session : Session}
    (ends : plan.Ends compiler options session) {files : List SourceFile}
    (markup : Sources.ofDialect .templatedUi files = plan.markup.map Assignment.file)
    (plain : Sources.ofDialect .plain files = plan.plain) :
    compile compiler options plan.layout files session =
      (plan.verdict, performed compiler options plan.layout plan.calls session) := by
  have first : Action.settle [compilePlain compiler options plan.layout plan.plain] session =
      (.ok [plan.plainErrand.outcome],
        performed compiler options plan.layout plan.plainErrand.calls session) :=
    Action.settle_cons (compilePlain_apply ends.plain) plan.plainOutcome_ne_interrupted rfl
  have single : (Action.allOrFirst [plan.plainErrand.outcome]).map List.flatten = plan.plainErrand.outcome := by
    cases plan.plainErrand.outcome <;> simp [Action.allOrFirst, Except.map]
  unfold compile
  rw [plain, markup, bind_apply, first]
  dsimp only
  rw [bind_apply, settle_compileMarkup ends.markup]
  dsimp only
  rw [single, Plan.calls, performed_append, Plan.verdict]
  cases Build.verdict _ _ <;> rfl

/-- Reading a text is never interrupted. -/
theorem textAt_ne_interrupted (tree : Tree) (path : Path) : Session.textAt tree path ≠ .error .interrupted := by
  unfold Session.textAt
  intro interrupted
  split at interrupted
  · cases interrupted
  · split at interrupted <;> cases interrupted

/-- Sources with markup are read and compiled with some outcomes, unless a call is interrupted. -/
theorem exists_ending (compiler : Compiler) (options : CompilerOptions) (layout : Layout)
    (files : List SourceFile) (session : Session) :
    (∃ markup, markup.map Assignment.file = files ∧ EndInTurn compiler options layout markup session) ∨
      (Action.settle (files.map (compileMarkup compiler options layout)) session).1 =
        .error .interrupted := by
  induction files generalizing session with
  | nil => exact .inl ⟨[], rfl, trivial⟩
  | cons file rest inductionHypothesis =>
    have goesOn (assignment : Assignment) (same : assignment.file = file)
        (read : assignment.text = Session.textAt session.tree assignment.file.path)
        (ends : (assignment.errand layout).Ends compiler options layout session) :
        (∃ markup, markup.map Assignment.file = file :: rest ∧
          EndInTurn compiler options layout markup session) ∨
        (Action.settle ((file :: rest).map (compileMarkup compiler options layout)) session).1 =
          .error .interrupted := by
      have first := compileMarkup_apply read ends
      rw [same] at first
      rcases inductionHypothesis (performed compiler options layout (assignment.errand layout).calls session)
        with ⟨markup, files, ending⟩ | interrupted
      · exact .inl ⟨assignment :: markup, by rw [List.map_cons, same, files], read, ends, ending⟩
      · refine .inr (Action.settle_interrupted_later ?_ ?_)
        · rw [first]
          exact assignment.outcome_ne_interrupted
        · rwa [first]
    have heard := textAt_ne_interrupted session.tree file.path
    cases text : Session.textAt session.tree file.path with
    | error fault =>
      rw [text] at heard
      refine goesOn ⟨file, .error fault, .ok (), heard, fun impossible => by cases impossible⟩ rfl text.symm ?_
      intro call made
      cases made
    | ok source =>
      by_cases finished : (compiler.buildBuffer (Compiler.withPreamble source) file.path
          (layout.destination file.path) options session).1 = .error .interrupted
      · refine .inr (Action.settle_interrupted ?_)
        unfold compileMarkup
        rw [bind_apply, Action.readText_apply, text]
        exact Action.bind_error finished
      · rw [text] at heard
        refine goesOn ⟨file, .ok source, _, heard, finished⟩ rfl text.symm fun call made => ?_
        obtain rfl := List.mem_singleton.mp made
        rfl

/-- Every run of the build that is not interrupted follows a plan. -/
theorem exists_plan (compiler : Compiler) (options : CompilerOptions) (layout : Layout)
    (files : List SourceFile) (session : Session) :
    (compile compiler options layout files session).1 = .error .interrupted ∨
      ∃ plan : Plan, plan.layout = layout ∧
        plan.markup.map Assignment.file = Sources.ofDialect .templatedUi files ∧
        plan.plain = Sources.ofDialect .plain files ∧ plan.Ends compiler options session := by
  by_cases finished : (compiler.buildEntryPoints ((Sources.ofDialect .plain files).map SourceFile.path) options
      layout session).1 = .error .interrupted
  · exact .inl (Action.bind_error (Action.settle_interrupted (Action.bind_error finished)))
  · let plan (markup : List Assignment) : Plan :=
      { layout, markup, plain := Sources.ofDialect .plain files, called := _, finished }
    have ends : (plan []).plainErrand.Ends compiler options layout session := by
      intro call made
      by_cases empty : Sources.ofDialect .plain files = []
      · simp [Errand.calls, Plan.plainErrand, plan, empty] at made
      · obtain rfl : call = .entryPoints ((Sources.ofDialect .plain files).map SourceFile.path) := by
          simpa [Errand.calls, Plan.plainErrand, plan, empty] using made
        rfl
    have first := @compilePlain_apply compiler options (plan []) session ends
    rcases exists_ending compiler options layout (Sources.ofDialect .templatedUi files)
      (performed compiler options layout (plan []).plainErrand.calls session) with
      ⟨markup, same, ending⟩ | interrupted
    · exact .inr ⟨plan markup, rfl, same, rfl, ends, ending⟩
    · have settled : Action.settle [compilePlain compiler options layout (Sources.ofDialect .plain files)]
          session = (.ok _, _) :=
        Action.settle_cons first (plan []).plainOutcome_ne_interrupted rfl
      unfold compile
      rw [bind_apply, settled]
      exact .inl (Action.bind_error interrupted)

/-- Compiling settles before it reports, whichever order the readings and calls end in. No order keeps it from
coming to a verdict. Then every task has ended, the calls that were made have ended and are those of the plan,
and the verdict is the one that the outcomes of the plan determine: the failure of the first source with markup
that fails, that of the plain sources if no other fails, and otherwise all destinations. The build that is run
here follows one of the orders: with tools that are not interrupted, however else their calls end, it does one
task after the other, makes the calls of a plan and comes to its verdict. -/
theorem compile_settles :
    (∀ plan : Plan, Acc (fun later earlier => Compilation.Step earlier later) plan.begin ∧
      ∀ state, Compilation.Runs plan.begin state →
        (state.verdict = none → ∃ next, Compilation.Step state next) ∧
        ∀ verdict, state.verdict = some verdict →
          (∀ strand ∈ state.markup, ∃ result, strand.phase = .ended result) ∧
          (∃ result, state.plain.phase = .ended result) ∧
          state.completed.Perm state.made ∧ state.made.Perm plan.calls ∧ plan.IsVerdict verdict) ∧
    ∀ (compiler : Compiler) options layout files session, compiler.tools.IsCalm →
      ∃ (plan : Plan) (verdict : Except Fault (List Path)), plan.layout = layout ∧
        plan.markup.map Assignment.file = Sources.ofDialect .templatedUi files ∧
        plan.plain = Sources.ofDialect .plain files ∧ plan.Ends compiler options session ∧
        plan.IsVerdict verdict ∧ compile compiler options layout files session =
          (verdict, performed compiler options layout plan.calls session) := by
  refine ⟨fun plan => ⟨Compilation.acc_step _, fun state ran => ⟨Compilation.exists_step, fun verdict decided => ?_⟩⟩,
    fun compiler options layout files session calm => ?_⟩
  · obtain ⟨⟨results, all⟩, ended, completed, made, same⟩ := Compilation.settled_of_runs ran decided
    refine ⟨fun strand member => ?_, ended, completed, made.trans ?_, ?_⟩
    · have phase : strand.phase ∈ results.map Phase.ended := all ▸ List.mem_map_of_mem member
      obtain ⟨result, -, here⟩ := List.mem_map.mp phase
      exact ⟨result, here.symm⟩
    · rw [List.flatMap_map]
      exact List.perm_append_comm
    · rw [same, List.map_map]
      exact plan.isVerdict_verdict
  · rcases exists_plan compiler options layout files session with interrupted | ⟨plan, rfl, markup, plain, ends⟩
    · cases Calm.compile calm options layout files session .interrupted interrupted
    · exact ⟨plan, plan.verdict, rfl, markup, plain, ends, plan.isVerdict_verdict,
        compile_apply ends markup.symm plain.symm⟩

/-! ### A compilation in which two of three calls fail -/

/-- A compiler that refuses one text and whatever comes without a text. -/
def refusingCompiler : Compiler where
  tools.run invocation tree :=
    match invocation.input with
    | none => (.finished 2 "" "no module", tree)
    | some text =>
      if text = Compiler.withPreamble "let bar" then (.finished 1 "" "no bar", tree)
      else (.finished 0 "" "", tree)
  layout := .ofRoot ⟨.root, ["p"]⟩
  program := "esbuild"

/-- The options that it is called with. -/
def refusingOptions : CompilerOptions where
  target := "es2020"
  format := .esm
  minify := false
  bundle := false
  splitting := false
  define := []
  external := []
  platform := "node"
  tsconfig := none
  banner := none
  plugins := []
  logLevel := "warning"

/-- A project with two modules with markup and a plain one. -/
def threeSession : Session where
  tree := ⟨[(["p"], .directory), (["p", "src"], .directory),
    (["p", "src", "axis.tsx"], .file (Text.Utf8.encode "let axis") false),
    (["p", "src", "bar.tsx"], .file (Text.Utf8.encode "let bar") false),
    (["p", "src", "m.ts"], .file (Text.Utf8.encode "let m") false)]⟩
  environment := []
  directory := ⟨.root, ["p"]⟩
  temporary := ⟨.root, ["t"]⟩
  clock := 1

/-- The sources of that project, the plain one first. -/
def threeSources : List SourceFile :=
  [⟨⟨.root, ["p", "src", "m.ts"]⟩, .plain, "src/m.ts"⟩,
    ⟨⟨.root, ["p", "src", "axis.tsx"]⟩, .templatedUi, "src/axis.tsx"⟩,
    ⟨⟨.root, ["p", "src", "bar.tsx"]⟩, .templatedUi, "src/bar.tsx"⟩]

/-- How these sources are compiled. -/
def threeCompiled : Except Fault (List Path) × Session :=
  compile refusingCompiler refusingOptions refusingCompiler.layout threeSources threeSession

/-- The plain sources fail and so does the second one with markup: its failure counts, although the plain ones
were called for first, and all three calls have been made. There are courses of the same plan that come to a
verdict, and it is the same one. -/
theorem compile_settles_of_refusals : refusingCompiler.tools.IsCalm ∧ ∃ plan : Plan,
    plan.markup.map Assignment.file = threeSources.drop 1 ∧ plan.plain = threeSources.take 1 ∧
    threeCompiled = (.error (.compile "esbuild exited with status 1" "no bar"),
      performed refusingCompiler refusingOptions refusingCompiler.layout plan.calls threeSession) ∧
    threeCompiled.2.invocations.map (fun call => call.1.input) =
      [none, some (Compiler.withPreamble "let axis"), some (Compiler.withPreamble "let bar")] ∧
    ∃ last, Compilation.Runs plan.begin last ∧
      last.verdict = some (.error (.compile "esbuild exited with status 1" "no bar")) ∧
      last.made.Perm plan.calls ∧ last.completed.Perm last.made := by
  have calm : refusingCompiler.tools.IsCalm := Toolchain.isCalm_of_finished fun invocation tree => by
    unfold refusingCompiler
    dsimp only
    split
    · exact ⟨_, _, _, rfl⟩
    · split <;> exact ⟨_, _, _, rfl⟩
  obtain ⟨plan, verdict, -, markup, plain, -, settled, ran⟩ :=
    compile_settles.2 refusingCompiler refusingOptions refusingCompiler.layout threeSources threeSession calm
  obtain ⟨told, called⟩ : threeCompiled.1 = .error (.compile "esbuild exited with status 1" "no bar") ∧
      threeCompiled.2.invocations.map (fun call => call.1.input) =
        [none, some (Compiler.withPreamble "let axis"), some (Compiler.withPreamble "let bar")] := by
    decide +kernel
  change threeCompiled = _ at ran
  rw [ran] at told
  obtain rfl : verdict = .error (.compile "esbuild exited with status 1" "no bar") := told
  obtain ⟨last, other, course, decided⟩ := Compilation.exists_verdict plan.begin
  obtain ⟨-, -, completed, made, same⟩ := ((compile_settles.1 plan).2 last course).2 other decided
  rw [same.eq_verdict, ← settled.eq_verdict] at decided
  exact ⟨calm, plan, markup, plain, ran, called, last, course, decided, made, completed⟩

end Build

end TreeBuild
