import TreeBuild.Watch.Watcher
import TreeBuild.Proofs.Build.Disturbance
import TreeBuild.Proofs.Build.Steps
import TreeBuild.Proofs.Coordinator.Progress
import TreeBuild.Proofs.Watch.Effect

/-!
# Watching goes on after failures

A rebuild never ends the watching: a failure that a build foresees is logged where the event is handled, and
any other is noted by the coordinator, whose task goes on with the next event of its path. Either way the
rebuild has ended, and each move and each end of a rebuild leaves less to be done. So only finitely much can
happen until the next event comes, and by then every event has been handed over.

The full build that comes first is less well guarded. Its failure is logged and watching begins only if a
build foresees it; a failure of another kind, such as a source that is not UTF-8, ends the watching before
it has begun.
-/
namespace TreeBuild.Watch

open TreeBuild.Coordinator TreeBuild.Build

/-! ### What a rebuild comes to -/

/-- Handling an event is interrupted only where the call of a tool is. -/
theorem handle_calm {tools : Toolchain} (calm : tools.IsCalm) (event : WatchEvent) (request : Request)
    (layout : Layout) : Calm (handle tools event request layout) := by
  have removes : Calm (removeDestination event layout) := by
    refine .either .pure ?_
    refine .either ((Calm.removeCounterpart _ _).bind fun _ => ?_) ((Calm.invalidate _).bind fun _ => ?_) <;>
      exact .either ((Calm.record _ _ _).bind fun _ => .pure) .pure
  have builds : Calm (rebuild tools event request layout) := by
    refine (Calm.askFiles _).bind fun _ => .either .pure (.either .pure ((Calm.record _ _ _).bind fun _ => ?_))
    refine Calm.attempt_bind ((Calm.ask fun tree => ?_).bind fun _ => (Calm.run calm _ _).discard)
      fun result known => ?_
    · exact (CalmResult.resolvePath tree _).bind fun _ => .ok
    · split
      · exact .pure
      · exact .either (Calm.record _ _ _) (.throw (known _ rfl))
  exact .either removes.discard builds

/-- The failure that a rebuild is noted with. -/
def failureOf : Except Fault Unit → Option String
  | .ok () => none
  | .error fault => some fault.message

/-- The session after a failure has been logged. -/
def complaining (session : Session) (complaint : String → String) : Except Fault Unit → Session
  | .ok () => session
  | .error fault => noting session .error (complaint fault.message)

/-- However the handling of an event ends, the rebuild tells of it and is over. -/
theorem rebuild_ends (watcher : Watcher) {tools : Toolchain} {event : WatchEvent} {session after : Session}
    {result : Except Fault Unit} (handled : handle tools event watcher.request watcher.layout session =
      (result, after)) (uninterrupted : CalmResult result) :
    watcher.rebuild tools event session =
      (.ok (failureOf result), complaining after (failureText event) result) := by
  have attempted : Action.attempt (handle tools event watcher.request watcher.layout) session =
      (.ok result, after) := by
    rw [Action.attempt, handled]
  unfold Watcher.rebuild
  rw [bind_apply, attempted]
  cases result with
  | ok done => rfl
  | error fault =>
    have other := uninterrupted fault rfl
    dsimp only
    rw [if_neg (by simp [other])]
    rfl

/-! ### The course of a watching -/

/-- A project that is watched, with the coordinator of its rebuilds. -/
structure Vigil where
  session : Session
  coordinator : Coordinator

namespace Vigil

variable {watcher : Watcher} {start vigil next : Vigil} {occurrence : Occurrence} {past : List Occurrence}

/-- What happens by itself: a move in its turn, or a rebuild that is under way is made and ends. Each rebuild
may find other tools, which may do whatever they like. -/
inductive Proceeds (watcher : Watcher) : Vigil → Occurrence → Vigil → Prop where
  | move (session : Session) {state next : Coordinator} {mover : Mover} (turn : Turn state (.moved mover) next) :
      Proceeds watcher ⟨session, state⟩ (.moved mover) ⟨session, next⟩
  | rebuild {session after : Session} {state next : Coordinator} {path : Path} {number : Nat}
      {event : WatchEvent} {failure : Option String} {tools : Toolchain} (calm : tools.IsCalm)
      (underWay : state.runningOn? path = some (number, event))
      (made : watcher.rebuild tools event session = (.ok failure, after))
      (ended : state.finish? path failure = some next) :
      Proceeds watcher ⟨session, state⟩ (.ended path failure) ⟨after, next⟩

/-- What has happened to a project that is watched: besides what happens by itself, events are submitted and
the project changes in any way. -/
inductive Course (watcher : Watcher) (start : Vigil) : List Occurrence → Vigil → Prop where
  | rest : Course watcher start [] start
  | proceed {past : List Occurrence} {occurrence : Occurrence} {vigil next : Vigil}
      (before : Course watcher start past vigil) (step : Proceeds watcher vigil occurrence next) :
      Course watcher start (past ++ [occurrence]) next
  | submit {past : List Occurrence} {vigil : Vigil} (before : Course watcher start past vigil)
      (event : WatchEvent) :
      Course watcher start (past ++ [.submitted event])
        { vigil with coordinator := vigil.coordinator.submit event }
  | change {past : List Occurrence} {vigil : Vigil} (before : Course watcher start past vigil)
      (session : Session) : Course watcher start past { vigil with session }

/-- Any number of things that happen by themselves, one after another. -/
inductive Goes (watcher : Watcher) : Vigil → List Occurrence → Vigil → Prop where
  | rest (vigil : Vigil) : Goes watcher vigil [] vigil
  | proceed {vigil middle final : Vigil} {past : List Occurrence} {occurrence : Occurrence}
      (before : Goes watcher vigil past middle) (step : Proceeds watcher middle occurrence final) :
      Goes watcher vigil (past ++ [occurrence]) final

/-- Nothing is queued, in flight or kept, every rebuild that was started has ended, and of the events of each
path that have been submitted only such have not been handed over as a later one made pointless. -/
structure IsSettled (state : Coordinator) (past : List Occurrence) : Prop where
  queue : state.queue = []
  inFlight : state.inFlight = []
  pending : state.pending = []
  ended : state.started.Perm state.concluded
  handed : ∀ path, KeepsLatest (state.startedOn path) (submittedOn path past)

/-- What proceeds takes a turn of the coordinator, and does not stop it. -/
theorem Proceeds.turn (step : Proceeds watcher vigil occurrence next) :
    Turn vigil.coordinator occurrence next.coordinator ∧ occurrence ≠ .stopped := by
  cases step with
  | move session turn => exact ⟨turn, nofun⟩
  | rebuild calm underWay made ended => exact ⟨.still _ _ _ (.finish _ _ _ _ ended) nofun, nofun⟩

/-- The coordinator takes turns, and nobody tells it to stop. -/
theorem Course.turns (course : Course watcher start past vigil) :
    Turns start.coordinator past vigil.coordinator ∧ .stopped ∉ past := by
  induction course with
  | rest => exact ⟨.rest _, List.not_mem_nil⟩
  | proceed _ step inductionHypothesis =>
    obtain ⟨turn, unasked⟩ := step.turn
    exact ⟨.turn inductionHypothesis.1 turn, by simp [inductionHypothesis.2, unasked.symm]⟩
  | submit _ event inductionHypothesis =>
    exact ⟨.turn inductionHypothesis.1 (.still _ _ _ (.submit _ event) nofun), by simp [inductionHypothesis.2]⟩
  | change _ _ inductionHypothesis => exact inductionHypothesis

/-- A course goes on with whatever happens next. -/
theorem Course.goes (course : Course watcher start past vigil) {future : List Occurrence} {final : Vigil}
    (goes : Goes watcher vigil future final) : Course watcher start (past ++ future) final := by
  induction goes with
  | rest => simpa using course
  | proceed _ step inductionHypothesis =>
    rw [← List.append_assoc]
    exact .proceed inductionHypothesis step

/-- A rebuild that is under way ends, however the handling of its event does. -/
theorem proceeds_of_handled {tools : Toolchain} (calm : tools.IsCalm) {path : Path} {number : Nat}
    {event : WatchEvent} (underWay : vigil.coordinator.runningOn? path = some (number, event))
    {result : Except Fault Unit} {after : Session}
    (handled : handle tools event watcher.request watcher.layout vigil.session = (result, after)) :
    ∃ next, Proceeds watcher vigil (.ended path (failureOf result))
      ⟨complaining after (failureText event) result, next⟩ := by
  have uninterrupted : CalmResult result := by
    have known := handle_calm calm event watcher.request watcher.layout vigil.session
    rwa [handled] at known
  obtain ⟨next, ended⟩ := Option.isSome_iff_exists.mp (finish?_isSome underWay (failureOf result))
  exact ⟨next, .rebuild calm underWay (rebuild_ends watcher handled uninterrupted) ended⟩

section

variable {limit : Int} (begins : start.coordinator = ofLimit limit) (course : Course watcher start past vigil)

include begins course

/-- Whatever happens by itself leaves less to be done. -/
theorem Course.remaining_lt (step : Proceeds watcher vigil occurrence next) :
    next.coordinator.remaining < vigil.coordinator.remaining := by
  obtain ⟨turns, unasked⟩ := course.turns
  rw [begins] at turns
  have consistent := turns.run.sound.1
  cases step with
  | move session turn => exact remaining_move consistent (turns.run.unstopped unasked) turn.step
  | rebuild calm underWay made ended => exact remaining_finish consistent ended

/-- No more can happen by itself than is left to be done. -/
theorem Course.length_le {future : List Occurrence} {final : Vigil} (goes : Goes watcher vigil future final) :
    future.length + final.coordinator.remaining ≤ vigil.coordinator.remaining := by
  induction goes with
  | rest => simp
  | proceed before step inductionHypothesis =>
    have less := (course.goes before).remaining_lt begins step
    simp only [List.length_append, List.length_singleton]
    omega

/-- Where nothing can happen by itself, everything has been dealt with. -/
theorem Course.settled (stuck : ∀ occurrence next, ¬ Proceeds watcher vigil occurrence next) :
    IsSettled vigil.coordinator past := by
  obtain ⟨turns, unasked⟩ := course.turns
  rw [begins] at turns
  have quiet : vigil.coordinator.ready = [] := by
    by_contra busy
    obtain ⟨mover, rest, able⟩ := List.exists_cons_of_ne_nil busy
    exact stuck _ _ (.move vigil.session (.first _ mover rest able))
  have unoccupied (path : Path) : vigil.coordinator.runningOn? path = none := by
    by_contra running
    obtain ⟨⟨number, event⟩, underWay⟩ := Option.ne_none_iff_exists'.mp running
    -- Some tools are never interrupted, and with these the rebuild would end.
    have calm : Toolchain.IsCalm ⟨fun _ tree => (.finished 0 "" "", tree)⟩ :=
      Toolchain.isCalm_of_finished fun _ _ => ⟨_, _, _, rfl⟩
    rcases handled : handle ⟨fun _ tree => (.finished 0 "" "", tree)⟩ event watcher.request watcher.layout
      vigil.session with ⟨result, after⟩
    obtain ⟨next, step⟩ := proceeds_of_handled calm underWay handled
    exact stuck _ _ step
  obtain ⟨queue, inFlight, pending, ended⟩ := turns.idle_of_quiet unasked quiet unoccupied
  refine ⟨queue, inFlight, pending, ended, fun path => ?_⟩
  have consistent := ofLimit_consistent limit
  obtain ⟨handed, started, account⟩ := turns.run.account consistent path
  rw [turns.run.sound.1.outstandingOn_idle queue inFlight, consistent.outstandingOn_idle rfl rfl,
    List.append_nil, List.nil_append] at account
  rw [started]
  exact account

end

end Vigil

/-! ### The beginning -/

/-- What is logged when the full build that comes first fails as foreseen. -/
def initialFailureText (message : String) : String := s!"Initial build failed: {message}"

/-- If the full build succeeds or fails as foreseen, watching begins. -/
theorem begins_of_foreseen (watcher : Watcher) {tools : Toolchain} {session after : Session}
    {result : Except Fault Unit} {scope : WatchEvent.Scope}
    (sources : session.tree.isDirectory watcher.layout.sources = .ok true)
    (built : watcher.buildAll tools session = (result, after))
    (foreseen : ∀ fault, result = .error fault → fault.isExpected)
    (resolves : WatchEvent.Scope.ofLayout after.tree watcher.layout = .ok scope) :
    (watcher.prepare tools >>= fun _ => watcher.beginWatching) session =
      (.ok scope, noting (complaining after initialFailureText result) .info
        s!"Watching {watcher.layout.sources} for changes") := by
  have asked : Action.askFiles (·.isDirectory watcher.layout.sources) session = (.ok true, session) := by
    rw [Action.askFiles, Action.ask_apply, sources]
    rfl
  have attempted : Action.attempt (watcher.buildAll tools) session = (.ok result, after) := by
    rw [Action.attempt, built]
  have prepared : watcher.prepare tools session = (.ok (), complaining after initialFailureText result) := by
    unfold Watcher.prepare
    rw [bind_apply, asked]
    simp only [Bool.not_true, Bool.false_eq_true, if_false]
    rw [bind_apply, attempted]
    cases result with
    | ok done => rfl
    | error fault =>
      simp only [foreseen fault rfl, if_true]
      rfl
  have same : (complaining after initialFailureText result).tree = after.tree := by
    cases result <;> rfl
  rw [bind_apply, prepared]
  dsimp only
  rw [Watcher.beginWatching, bind_apply, Action.ask_apply, same, resolves]
  rfl

/-- If the sources are a directory and the full build that comes first succeeds, or fails in a way that a
build foresees, then its failure is logged and watching begins, provided that the directories can be
resolved. From then on, whatever the tools do short of being interrupted, whatever events are submitted and
however the project changes: every rebuild that is under way ends, and what the handling of its event fails
with is logged; no more can happen by itself than the coordinator has left to do; and where nothing can
happen by itself, every event has been handed over, unless a later one of its path made it pointless, and
every rebuild has ended. -/
theorem watching_goes_on (watcher : Watcher) (limit : Int) (idle : watcher.coordinator = ofLimit limit)
    {tools : Toolchain} {session after : Session} {result : Except Fault Unit} {scope : WatchEvent.Scope}
    (sources : session.tree.isDirectory watcher.layout.sources = .ok true)
    (built : watcher.buildAll tools session = (result, after))
    (foreseen : ∀ fault, result = .error fault → fault.isExpected)
    (resolves : WatchEvent.Scope.ofLayout after.tree watcher.layout = .ok scope) :
    ∃ begun, (watcher.prepare tools >>= fun _ => watcher.beginWatching) session = (.ok scope, begun) ∧
      begun = noting (complaining after initialFailureText result) .info
        s!"Watching {watcher.layout.sources} for changes" ∧
      ∀ past vigil, Vigil.Course watcher ⟨begun, watcher.coordinator⟩ past vigil →
        (∀ others : Toolchain, others.IsCalm → ∀ path number event,
          vigil.coordinator.runningOn? path = some (number, event) →
          ∀ ended later, handle others event watcher.request watcher.layout vigil.session = (ended, later) →
            ∃ next, Vigil.Proceeds watcher vigil (.ended path (failureOf ended))
              ⟨complaining later (failureText event) ended, next⟩) ∧
        (∀ future final, Vigil.Goes watcher vigil future final →
          future.length ≤ vigil.coordinator.remaining) ∧
        ((∀ occurrence next, ¬ Vigil.Proceeds watcher vigil occurrence next) →
          Vigil.IsSettled vigil.coordinator past) := by
  refine ⟨_, begins_of_foreseen watcher sources built foreseen resolves, rfl, fun past vigil course => ?_⟩
  refine ⟨fun others calm path number event underWay ended later handled =>
    Vigil.proceeds_of_handled calm underWay handled, fun future final goes => ?_, course.settled idle⟩
  exact le_trans (Nat.le_add_right _ _) (course.length_le idle goes)

/-! ### A project of one source with markup -/

/-- A project with one source, which holds these bytes. -/
def markupSession (bytes : Text.Bytes) : Session where
  tree := ⟨[(["p"], .directory), (["p", "src"], .directory), (["p", "src", "a.tsx"], .file bytes false),
    (["t"], .directory)]⟩
  environment := []
  directory := ⟨.root, ["p"]⟩
  temporary := ⟨.root, ["t"]⟩
  clock := 1

/-- The watching of the project. -/
def markupWatcher : Watcher where
  layout := .ofRoot ⟨.root, ["p"]⟩
  request := { mode := .development }
  usesPolling := false
  coordinator := ofLimit 1

/-- How the source of the project changes. -/
def markupEvent : WatchEvent := { path := ⟨.root, ["p", "src", "a.tsx"]⟩, kind := .modified }

/-- The coordinator when the rebuild for this event is under way. -/
def markupBegun : Coordinator := ((ofLimit 1).submit markupEvent).advanceFor 2

/-- The event of the module with markup is submitted, dispatched and taken up. -/
theorem markup_course (begun : Session) : Vigil.Course markupWatcher ⟨begun, ofLimit 1⟩
    [.submitted markupEvent, .moved .dispatcher, .moved (.task 0)] ⟨begun, markupBegun⟩ :=
  .proceed (.proceed (.submit .rest markupEvent) (.move begun (.first _ .dispatcher [] rfl)))
    (.move begun (.first _ (.task 0) [] rfl))

/-- How the full build that comes first fails as foreseen, with the scope of the events that follow. -/
def rejection? (bytes : Text.Bytes) : Option (Fault × Session × WatchEvent.Scope) :=
  match markupWatcher.buildAll brokenTools (markupSession bytes) with
  | (.error fault, after) =>
    if fault.isExpected then
      (WatchEvent.Scope.ofLayout after.tree markupWatcher.layout).toOption.map fun scope => (fault, after, scope)
    else none
  | (.ok (), _) => none

/-- The compiler rejects the source. This is logged, watching begins, and when the source changes it is built
again, whether or not the compiler accepts it then. -/
theorem watching_goes_on_of_rejected : ∃ scope begun,
    (markupWatcher.prepare brokenTools >>= fun _ => markupWatcher.beginWatching) (markupSession []) =
      (.ok scope, begun) ∧
    (begun.journal.any fun record => record.message = "Initial build failed: esbuild exited with status 1") ∧
    Vigil.Course markupWatcher ⟨begun, ofLimit 1⟩
      [.submitted markupEvent, .moved .dispatcher, .moved (.task 0)] ⟨begun, markupBegun⟩ ∧
    ∃ failure next, Vigil.Proceeds markupWatcher ⟨begun, markupBegun⟩ (.ended markupEvent.path failure) next := by
  have sources : ((markupSession []).tree.isDirectory markupWatcher.layout.sources).toOption = some true := by
    decide +kernel
  have told : (rejection? []).map (·.1.message) = some "esbuild exited with status 1" := by decide +kernel
  obtain ⟨⟨fault, after, scope⟩, rejected, message⟩ := Option.map_eq_some_iff.mp told
  unfold rejection? at rejected
  split at rejected
  · rename_i other middle built
    split at rejected
    · rename_i expected
      obtain ⟨found, resolved, same⟩ := Option.map_eq_some_iff.mp rejected
      cases same
      have foreseen : ∀ other, (.error fault : Except Fault Unit) = .error other → other.isExpected := by
        rintro _ ⟨rfl⟩
        exact expected
      obtain ⟨begun, begins, shape, goesOn⟩ := watching_goes_on markupWatcher 1 rfl
        (ok_of_toOption sources) built foreseen (ok_of_toOption resolved)
      have calm : brokenTools.IsCalm := Toolchain.isCalm_of_finished fun _ _ => ⟨_, _, _, rfl⟩
      have underWay : markupBegun.runningOn? markupEvent.path = some (0, markupEvent) := by decide +kernel
      rcases handled : handle brokenTools markupEvent markupWatcher.request markupWatcher.layout begun with
        ⟨ended, later⟩
      obtain ⟨next, proceeds⟩ := (goesOn _ _ (markup_course begun)).1 brokenTools calm _ _ _ underWay _ _ handled
      refine ⟨scope, begun, begins, ?_, markup_course begun, _, _, proceeds⟩
      have text : initialFailureText fault.message = "Initial build failed: esbuild exited with status 1" :=
        congrArg initialFailureText message
      rw [shape]
      refine List.any_eq_true.mpr ⟨⟨logSource, .error, initialFailureText fault.message, []⟩, ?_, ?_⟩
      · exact List.mem_append_left _ (List.mem_append_right _ (List.mem_singleton.mpr rfl))
      · exact decide_eq_true text
    · cases rejected
  · cases rejected

/-- Whether watching the project is ended by a source that is not UTF-8 before it has begun. -/
def endsUndecoded (bytes : Text.Bytes) : Bool :=
  match (markupWatcher.prepare brokenTools >>= fun _ => markupWatcher.beginWatching) (markupSession bytes) with
  | (.error (.undecodable _), _) => true
  | _ => false

/-- A source that is not UTF-8 makes the full build that comes first fail in a way that no build foresees.
This is no interruption, and yet it ends the watching before it has begun. -/
theorem undecodable_source_ends_watching :
    (markupSession [255]).tree.isDirectory markupWatcher.layout.sources = .ok true ∧ ∃ error after,
      (markupWatcher.prepare brokenTools >>= fun _ => markupWatcher.beginWatching) (markupSession [255]) =
        (.error (.undecodable error), after) ∧
      (Fault.undecodable error).isInterruption = false := by
  have sources : ((markupSession [255]).tree.isDirectory markupWatcher.layout.sources).toOption = some true := by
    decide +kernel
  have told : endsUndecoded [255] = true := by decide +kernel
  refine ⟨ok_of_toOption sources, ?_⟩
  unfold endsUndecoded at told
  split at told
  · rename_i error after ended
    exact ⟨error, after, ended, rfl⟩
  · cases told

end TreeBuild.Watch
