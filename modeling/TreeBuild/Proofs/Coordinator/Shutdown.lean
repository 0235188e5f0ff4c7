import TreeBuild.Proofs.Coordinator.Delivery

/-!
# What has happened once the waiting is over

The dispatcher deals with orders in the order in which they were queued and looks at none behind the
first that says to stop. From then on it only waits for tasks. Three accounts are kept of a run, each
of them by a law for single steps: the orders that were dealt with and those still queued are together
all that were queued, and the events among the former are those that tasks hold or have handed over;
a dispatcher that has returned has seen the list of tasks empty, and nothing is added to it any more;
and a rebuild that was started has its end noted, or a task that has still to note it.

Whoever waits for the coordinator to be idle is told so by a look at the state itself, so that nothing
is queued or in flight at this moment, whatever is submitted afterwards.
-/
namespace TreeBuild

/-- The event of a rebuild that was started and whose end is not noted yet. -/
def Phase.handed : Phase → List WatchEvent
  | .running event | .ending event _ => [event]
  | .fresh _ | .waiting _ | .granted _ | .ended => []

/-- Whether the dispatcher was told to stop. -/
def Dispatcher.isClosing : Dispatcher → Bool
  | .closing _ => true
  | .listening | .called => false

namespace Coordinator

/-! ### Orders that are dealt with -/

/-- The orders that were queued in the course of what happened. -/
def ordersOf (past : List Occurrence) : List Order :=
  past.filterMap fun occurrence =>
    match occurrence with
    | .submitted event => some (.rebuild event)
    | .stopped => some .stop
    | _ => none

/-- What happened before the first order to stop. -/
def beforeStop (past : List Occurrence) : List Occurrence :=
  past.takeWhile (· ≠ .stopped)

/-- What happened behind the first order to stop. -/
def afterStop (past : List Occurrence) : List Occurrence :=
  (past.dropWhile (· ≠ .stopped)).drop 1

/-- How the orders that were queued are divided: events that the dispatcher has dealt with, then the
order to stop if it has come to one, then all that is still queued. Of the events that were dealt with,
tasks hold or have handed over all but some that a later one made pointless. -/
def Served (orders : List Order) (state : Coordinator) : Prop :=
  ∃ events rest, orders = events.map Order.rebuild ++ rest ∧
    rest = (if state.dispatcher.isClosing then .stop :: state.queue else state.queue) ∧
    ∀ path, KeepsLatest (state.startedOn path ++ state.heldOn path) (eventsOn path events)

/-- A step that deals with no order divides the orders as before. -/
theorem Served.of_hands {orders : List Order} {state final : Coordinator}
    (served : Served orders state) (hands : ∀ path, Hands path state final)
    (dispatcher : final.dispatcher.isClosing = state.dispatcher.isClosing) :
    Served orders final := by
  obtain ⟨events, rest, cut, queued, account⟩ := served
  obtain ⟨-, -, -, queue⟩ := hands default
  refine ⟨events, rest, cut, by rw [dispatcher, queue, queued], fun path => ?_⟩
  obtain ⟨handed, started, held, -⟩ := hands path
  rw [started, List.append_assoc, held]
  exact account path

/-- Dealing with queued orders goes up to the first that says to stop. -/
theorem dispatchAll_serves {state : Coordinator} (consistent : Consistent state)
    (orders : List Order) :
    ∃ events rest, orders = events.map Order.rebuild ++ rest ∧
      rest = (if (state.dispatchAll orders).dispatcher.isClosing
        then .stop :: (state.dispatchAll orders).queue else (state.dispatchAll orders).queue) ∧
      ∀ path, KeepsLatest
        ((state.dispatchAll orders).startedOn path ++ (state.dispatchAll orders).heldOn path)
        (state.startedOn path ++ state.heldOn path ++ eventsOn path events) := by
  induction orders generalizing state with
  | nil => exact ⟨[], [], rfl, rfl, fun path => by simpa [eventsOn] using .refl _⟩
  | cons order others inductionHypothesis =>
    cases order with
    | rebuild event =>
      obtain ⟨events, rest, cut, queued, account⟩ := inductionHypothesis (consistent.dispatch event)
      refine ⟨event :: events, rest, by rw [cut]; rfl, queued, fun path => ?_⟩
      obtain ⟨started, first⟩ := dispatch_account consistent event path
      refine (account path).trans ?_
      rw [started, ← List.singleton_append, eventsOn_append, List.append_assoc, List.append_assoc]
      refine (KeepsLatest.refl (state.startedOn path)).append ?_
      rw [← List.append_assoc]
      exact first.append (.refl _)
    | stop => exact ⟨[], .stop :: others, rfl, rfl, fun path => by simpa [eventsOn] using .refl _⟩

/-- A move of a task concerns neither the dispatcher nor those that wait for the coordinator to be
idle. -/
theorem waits_grant (state : Coordinator) :
    state.grant.dispatcher = state.dispatcher ∧ state.grant.idleWaits = state.idleWaits := by
  unfold grant
  split <;> exact ⟨rfl, rfl⟩

/-- Asking for a slot concerns neither the dispatcher nor those that wait for the end. -/
theorem waits_acquire (state : Coordinator) (number : Nat) (event : WatchEvent) :
    (state.acquire number event).dispatcher = state.dispatcher ∧
      (state.acquire number event).idleWaits = state.idleWaits := by
  unfold acquire
  split <;> exact ⟨rfl, rfl⟩

/-- Neither does a task that is resumed. -/
theorem waits_resume (state : Coordinator) (number : Nat) :
    (state.resume number).dispatcher = state.dispatcher ∧
      (state.resume number).idleWaits = state.idleWaits := by
  unfold resume
  split
  · exact ⟨rfl, rfl⟩
  · split
    · exact waits_acquire state number _
    · dsimp only
      split
      · exact waits_grant _
      · exact ⟨rfl, rfl⟩
    · rename_i event failure phase
      obtain ⟨dispatcher, idleWaits⟩ : (state.note event failure).release.dispatcher =
          state.dispatcher ∧ (state.note event failure).release.idleWaits = state.idleWaits :=
        waits_grant _
      unfold goOn
      split
      · obtain ⟨dispatcherNext, idleWaitsNext⟩ := waits_acquire _ _ _
        exact ⟨dispatcherNext.trans dispatcher, idleWaitsNext.trans idleWaits⟩
      · exact ⟨dispatcher, idleWaits⟩
    all_goals exact ⟨rfl, rfl⟩

/-- A task that is taken away does not open the dispatcher again. -/
theorem isClosing_collect (state : Coordinator) (number : Nat) :
    (state.collect number).dispatcher.isClosing = state.dispatcher.isClosing := by
  unfold collect
  split
  · rename_i barrier closing
    simp [closing, Dispatcher.isClosing]
  · rfl

/-- An order that is queued comes behind all others, whatever the dispatcher does. -/
theorem Served.put {orders : List Order} {state : Coordinator} (served : Served orders state)
    (order : Order) : Served (orders ++ [order]) (state.put order) := by
  obtain ⟨events, rest, cut, queued, account⟩ := served
  have parts : (state.put order).dispatcher.isClosing = state.dispatcher.isClosing ∧
      (state.put order).queue = state.queue ++ [order] ∧ ∀ path,
        (state.put order).startedOn path ++ (state.put order).heldOn path =
          state.startedOn path ++ state.heldOn path := by
    unfold Coordinator.put
    dsimp only
    split
    · rename_i listening
      exact ⟨by simp [listening, Dispatcher.isClosing], rfl, fun _ => rfl⟩
    · exact ⟨rfl, rfl, fun _ => rfl⟩
  obtain ⟨dispatcher, queue, held⟩ := parts
  refine ⟨events, rest ++ [order], by rw [cut, List.append_assoc], ?_, fun path => ?_⟩
  · rw [dispatcher, queue, queued]
    split <;> rfl
  · rw [held]
    exact account path

/-- Every step leaves the orders divided, with the one that it queues among them. -/
theorem Served.step {orders : List Order} {state final : Coordinator} {occurrence : Occurrence}
    (served : Served orders state) (consistent : Consistent state)
    (step : Step state occurrence final) : Served (orders ++ ordersOf [occurrence]) final := by
  cases step with
  | submit event => exact served.put (.rebuild event)
  | stop => exact served.put .stop
  | move earlier later mover able =>
    have without := consistent.takeOff able
    rw [ordersOf, List.filterMap_cons, List.filterMap_nil, List.append_nil]
    cases mover with
    | task number =>
      refine served.of_hands (fun path => Hands.resume without number path) ?_
      simp only [perform, (waits_resume _ number).1]
    | collector number =>
      refine served.of_hands (fun path =>
        Hands.collect { state with ready := earlier ++ later } number ?_ path) ?_
      · rintro task member rfl
        exact consistent.collected task member (by simp [able])
      · simp only [perform, isClosing_collect]
    | dispatcher =>
      simp only [perform, serve]
      split
      · rename_i called
        obtain ⟨events, rest, cut, queued, account⟩ := served
        have called : state.dispatcher = .called := called
        rw [called] at queued
        obtain ⟨more, left, cutNext, queuedNext, accountNext⟩ :=
          dispatchAll_serves without state.queue
        refine ⟨events ++ more, left, ?_, queuedNext, fun path => ?_⟩
        · rw [cut, queued, List.map_append, List.append_assoc, ← cutNext]
          rfl
        · refine (accountNext path).trans ?_
          rw [eventsOn_append]
          exact (account path).append (.refl _)
      · rename_i looking
        obtain ⟨events, rest, cut, queued, account⟩ := served
        have looking : state.dispatcher = .closing .looking := looking
        rw [looking] at queued
        exact ⟨events, rest, cut, queued, account⟩
      all_goals exact served
  | finish _ place failure finished =>
    obtain ⟨task, event, member, -, phase, rfl⟩ := finish?_cases finished
    have found := task?_of_mem state task consistent.distinct member
    rw [ordersOf, List.filterMap_cons, List.filterMap_nil, List.append_nil]
    exact served.of_hands (fun path => .of_phase consistent found
      (by simp [phase, Phase.isUnfinished]) (.ending event failure)
      (by simp [phase, Phase.carried]) rfl rfl rfl rfl path) rfl
  | await => exact (List.append_nil orders).symm ▸ served
  | look place => exact (List.append_nil orders).symm ▸ served

/-! ### What the first order to stop divides -/

/-- What was submitted for a path is what was ordered for it. -/
theorem submittedOn_eq (path : Path) (past : List Occurrence) :
    submittedOn path past = eventsOn path (ordered (ordersOf past)) := by
  rw [submittedOn, ordered, ordersOf, List.filterMap_filterMap]
  congr 2
  funext occurrence
  cases occurrence <;> rfl

/-- Orders to rebuild order their events. -/
theorem ordered_map (events : List WatchEvent) : ordered (events.map Order.rebuild) = events := by
  simp [ordered, List.filterMap_map]

/-- The orders before the call to stop are those up to the order to stop. -/
theorem ordersOf_beforeStop (past : List Occurrence) :
    ordersOf (beforeStop past) = (ordersOf past).takeWhile (· ≠ .stop) := by
  induction past with
  | nil => rfl
  | cons occurrence rest inductionHypothesis =>
    cases occurrence <;> simp_all [ordersOf, beforeStop]

/-- The orders after the call to stop are those behind the order to stop. -/
theorem ordersOf_afterStop (past : List Occurrence) :
    ordersOf (afterStop past) = ((ordersOf past).dropWhile (· ≠ .stop)).drop 1 := by
  induction past with
  | nil => rfl
  | cons occurrence rest inductionHypothesis =>
    cases occurrence <;> simp_all [ordersOf, afterStop]

/-- Events at the head of the orders were all submitted before the first order to stop. -/
theorem submittedOn_beforeStop (path : Path) {past : List Occurrence} {events : List WatchEvent}
    {rest : List Order} (cut : ordersOf past = events.map Order.rebuild ++ rest) :
    submittedOn path (beforeStop past) =
      eventsOn path events ++ eventsOn path (ordered (rest.takeWhile (· ≠ .stop))) := by
  have events_pass : ∀ order ∈ events.map Order.rebuild, (decide (order ≠ Order.stop)) = true := by
    simp
  rw [submittedOn_eq, ordersOf_beforeStop, cut, List.takeWhile_append_of_pos events_pass,
    ordered, List.filterMap_append, eventsOn_append]
  congr 2
  exact ordered_map events

/-! ### Tasks that are waited for -/

/-- A dispatcher that has returned has left no task. -/
def Joined (state : Coordinator) : Prop :=
  state.dispatcher = .closing .passed → state.tasks = []

/-- Only who finds no task passes at once. -/
theorem passed_of_look {numbers : List Nat} (passed : Barrier.look numbers = .passed) :
    numbers = [] := by
  unfold Barrier.look at passed
  split at passed
  · rename_i none
    exact List.isEmpty_iff.mp none
  · cases passed

/-- A barrier is passed only when the last of its tasks has ended, or was passed before. -/
theorem passed_of_without {number : Nat} {barrier : Barrier}
    (passed : barrier.without number = .passed) : barrier = .passed := by
  cases barrier with
  | passed => rfl
  | looking => cases passed
  | joining numbers =>
    unfold Barrier.without at passed
    dsimp only at passed
    split at passed <;> cases passed

/-- Without a number there is no task. -/
theorem tasks_of_numbers {state : Coordinator} (none : state.numbers = []) : state.tasks = [] :=
  List.map_eq_nil_iff.mp none

/-- Dealing with orders only returns at once if there is no task. -/
theorem dispatchAll_joined (state : Coordinator) (orders : List Order) :
    Joined (state.dispatchAll orders) := by
  induction orders generalizing state with
  | nil => exact nofun
  | cons order rest inductionHypothesis =>
    cases order with
    | rebuild event => exact inductionHypothesis (state.dispatch event)
    | stop =>
      intro passed
      exact tasks_of_numbers (passed_of_look (Dispatcher.closing.inj passed))

/-- Without tasks, the move of a task is none. -/
theorem resume_of_none {state : Coordinator} (none : state.tasks = []) (number : Nat) :
    state.resume number = state := by
  simp [resume, task?, none]

/-- No step makes a dispatcher return before there is no task left, and none adds a task then. -/
theorem Joined.step {state final : Coordinator} {occurrence : Occurrence} (joined : Joined state)
    (step : Step state occurrence final) : Joined final := by
  have queued (order : Order) : Joined (state.put order) := by
    unfold put
    dsimp only
    split
    · exact nofun
    · exact joined
  cases step with
  | submit event => exact queued (.rebuild event)
  | stop => exact queued .stop
  | move earlier later mover able =>
    cases mover with
    | dispatcher =>
      simp only [perform, serve]
      split
      · exact dispatchAll_joined _ _
      · intro passed
        exact tasks_of_numbers (passed_of_look (Dispatcher.closing.inj passed))
      all_goals exact joined
    | task number =>
      intro passed
      have none : state.tasks = [] := joined (by
        simpa only [perform, (waits_resume _ number).1] using passed)
      have still : ({ state with ready := earlier ++ later } : Coordinator).tasks = [] := none
      simpa [perform, resume_of_none still] using none
    | collector number =>
      simp only [perform, collect]
      split
      · rename_i barrier closing
        have closing : state.dispatcher = .closing barrier := closing
        intro passed
        have before := passed_of_without (Dispatcher.closing.inj passed)
        simp [joined (before ▸ closing)]
      · rename_i open_
        intro passed
        exact absurd passed (open_ .passed)
  | finish _ path failure finished =>
    obtain ⟨task, event, member, -, -, rfl⟩ := finish?_cases finished
    intro passed
    rw [joined passed] at member
    cases member
  | await => exact joined
  | look place => exact joined

/-- Where no path is in flight, nothing is kept for later. -/
theorem Consistent.pending_of_idle {state : Coordinator} (consistent : Consistent state)
    (inFlight : state.inFlight = []) : state.pending = [] := by
  refine List.eq_nil_iff_forall_not_mem.mpr fun entry member => ?_
  have impossible := (consistent.gated entry member).1
  rw [inFlight] at impossible
  cases impossible

/-- Without tasks, no path is in flight and nothing is kept for later. -/
theorem Consistent.nothing_left {state : Coordinator} (consistent : Consistent state)
    (none : state.tasks = []) : state.inFlight = [] ∧ state.pending = [] := by
  have inFlight : state.inFlight = [] := by simp [consistent.tracked, unfinished, none]
  exact ⟨inFlight, consistent.pending_of_idle inFlight⟩

/-! ### Rebuilds whose end is noted -/

/-- The events whose rebuilds have ended, well or with a failure, in the order of their ends. -/
def concluded (state : Coordinator) : List WatchEvent :=
  state.history.filterMap fun happening =>
    match happening with
    | .finished event | .failed event _ => some event
    | .started _ => none

/-- How many rebuilds of an event have been started, less those whose end is noted and those whose end
a task has still to note. -/
def unaccounted (state : Coordinator) (event : WatchEvent) : Int :=
  state.started.count event - state.concluded.count event -
    (state.tasks.map (·.phase.handed.count event)).sum

section Accounts

variable {state : Coordinator} (consistent : Consistent state) {number : Nat} {task : Task}
  (found : state.task? number = some task) (event : WatchEvent)
include consistent found

/-- Another phase changes the account by what its task has to note. -/
theorem unaccounted_setPhase (phase : Phase) :
    (state.setPhase number phase).unaccounted event + phase.handed.count event =
      state.unaccounted event + task.phase.handed.count event := by
  have sum := sum_setPhase (·.handed.count event) state number task phase consistent.distinct found
  change (state.started.count event : Int) - state.concluded.count event - _ + _ = _
  rw [unaccounted]
  omega

/-- In a phase that has no end to note, the task has nothing to note any more. -/
theorem unaccounted_setPhase_of_nil (phase : Phase) (nothing : phase.handed = []) :
    (state.setPhase number phase).unaccounted event =
      state.unaccounted event + task.phase.handed.count event := by
  have moved := unaccounted_setPhase consistent found event phase
  rw [nothing, List.count_nil] at moved
  exact (Int.add_zero _).symm.trans moved

/-- A rebuild that starts is one that its task has to note the end of. -/
theorem unaccounted_start (current : WatchEvent) :
    (state.start number current).unaccounted event =
      state.unaccounted event + task.phase.handed.count event := by
  have moved := unaccounted_setPhase consistent found event (.running current)
  have started : (state.start number current).started = state.started ++ [current] := by
    simp [Coordinator.started, start, Coordinator.setPhase]
  have concluded : (state.start number current).concluded = state.concluded := by
    simp [Coordinator.concluded, start, Coordinator.setPhase]
  have tasks : (state.start number current).tasks =
    (state.setPhase number (.running current)).tasks := rfl
  rw [unaccounted, started, concluded, tasks, List.count_append]
  change (state.started.count event : Int) - state.concluded.count event - _ +
    List.count event [current] = _ at moved
  omega

/-- A task that asks for a slot has nothing to note any more, or a new start. -/
theorem unaccounted_acquire (current : WatchEvent) :
    (state.acquire number current).unaccounted event =
      state.unaccounted event + task.phase.handed.count event := by
  unfold acquire
  split
  · have fewer := consistent.free (state.free - 1)
    exact unaccounted_start fewer found event current
  · exact unaccounted_setPhase_of_nil consistent found event (.waiting current) rfl

/-- A task that goes on or ends has nothing to note any more, or a new start. -/
theorem unaccounted_goOn (own : task.number = number) :
    (state.goOn task).unaccounted event =
      state.unaccounted event + task.phase.handed.count event := by
  subst own
  unfold Coordinator.goOn
  split
  · rename_i current kept
    exact unaccounted_acquire (consistent.forget task.path) found event current
  · exact unaccounted_setPhase_of_nil consistent found event .ended rfl

end Accounts

/-- Giving a slot away starts nothing. -/
theorem unaccounted_grant {state : Coordinator} (consistent : Consistent state)
    (event : WatchEvent) : state.grant.unaccounted event = state.unaccounted event := by
  rcases grant_cases state with same | ⟨number, current, task, found, waits, given⟩
  · rw [same]
  · have moved : (state.setPhase number (.granted current)).unaccounted event =
        state.unaccounted event + task.phase.handed.count event :=
      unaccounted_setPhase_of_nil consistent found event _ rfl
    rw [waits] at moved
    rw [given]
    exact moved.trans (Int.add_zero _)

/-- An end that is noted leaves the account open until its task moves on. -/
theorem unaccounted_note (state : Coordinator) (current : WatchEvent) (failure : Option String)
    (event : WatchEvent) :
    (state.note current failure).unaccounted event + [current].count event =
      state.unaccounted event := by
  have started : (state.note current failure).started = state.started := by
    cases failure <;> simp [Coordinator.started, note]
  have concluded : (state.note current failure).concluded = state.concluded ++ [current] := by
    cases failure <;> simp [Coordinator.concluded, note]
  rw [unaccounted, unaccounted, started, concluded, List.count_append]
  change (_ : Int) - _ - (state.tasks.map (·.phase.handed.count event)).sum + _ = _
  omega

/-- The move of a task notes the end of the rebuild that it has to note, and no other. -/
theorem unaccounted_resume {state : Coordinator} (consistent : Consistent state) (number : Nat)
    (event : WatchEvent) : (state.resume number).unaccounted event = state.unaccounted event := by
  unfold Coordinator.resume
  split
  · rfl
  · rename_i task found
    split
    · rename_i current phase
      simpa [phase, Phase.handed] using unaccounted_acquire consistent found event current
    · rename_i current phase
      have left := consistent.leave number
      dsimp only
      split
      · rw [unaccounted_start left.grant (task?_grant _ found (by simp [phase])) event current,
          unaccounted_grant left, phase]
        exact Int.add_zero _
      · rw [unaccounted_start left found event current, phase]
        exact Int.add_zero _
    · rename_i current failure phase
      have noted := consistent.note current failure
      have more := noted.free (state.free + 1)
      have present : (state.note current failure).release.task? number = some task :=
        task?_release (state.note current failure) found (by simp [phase])
      have released : (state.note current failure).release.unaccounted event =
          (state.note current failure).unaccounted event := unaccounted_grant more event
      rw [unaccounted_goOn noted.release present event (task?_mem state number task found).2,
        released, phase]
      exact unaccounted_note state current failure event
    all_goals rfl

/-- Taking a task off the list that has ended loses no end that is still to be noted. -/
theorem unaccounted_collect (state : Coordinator) (number : Nat)
    (ended : ∀ task ∈ state.tasks, task.number = number → task.phase = .ended)
    (event : WatchEvent) : (state.collect number).unaccounted event = state.unaccounted event := by
  have parts : (state.collect number).history = state.history ∧
      (state.collect number).tasks = state.tasks.filter fun task => task.number ≠ number := by
    unfold Coordinator.collect
    split <;> exact ⟨rfl, rfl⟩
  obtain ⟨history, tasks⟩ := parts
  simp only [unaccounted, started, concluded, history, tasks,
    sum_without (·.handed.count event) rfl number state.tasks ended]

/-- Dispatching starts no rebuild and ends none. -/
theorem unaccounted_dispatchAll (state : Coordinator) (orders : List Order) (event : WatchEvent) :
    (state.dispatchAll orders).unaccounted event = state.unaccounted event := by
  induction orders generalizing state with
  | nil => rfl
  | cons order rest inductionHypothesis =>
    cases order with
    | rebuild current =>
      refine (inductionHypothesis (state.dispatch current)).trans ?_
      unfold dispatch
      split
      · rfl
      · simp [unaccounted, started, concluded, Phase.handed]
    | stop => rfl

/-- Every step keeps the account of rebuilds. -/
theorem Step.unaccounted {state final : Coordinator} {occurrence : Occurrence}
    (step : Step state occurrence final) (consistent : Consistent state) (event : WatchEvent) :
    final.unaccounted event = state.unaccounted event := by
  cases step with
  | submit current =>
    unfold Coordinator.submit put
    dsimp only
    split <;> rfl
  | stop =>
    unfold Coordinator.stop put
    dsimp only
    split <;> rfl
  | move earlier later mover able =>
    cases mover with
    | dispatcher =>
      simp only [perform, serve]
      split
      · exact unaccounted_dispatchAll { state with ready := earlier ++ later } state.queue event
      all_goals rfl
    | task number => exact unaccounted_resume (consistent.takeOff able) number event
    | collector number =>
      apply unaccounted_collect { state with ready := earlier ++ later }
      rintro task member rfl
      exact consistent.collected task member (by simp [able])
  | finish _ path failure finished =>
    obtain ⟨task, current, member, -, phase, rfl⟩ := finish?_cases finished
    have found := task?_of_mem state task consistent.distinct member
    have moved := unaccounted_setPhase consistent found event (.ending current failure)
    rw [phase] at moved
    exact (Int.add_left_inj _).mp moved
  | await => rfl
  | look place => rfl

/-! ### Looking whether the coordinator is idle -/

/-- Dispatching orders wakes nobody that waits for the end. -/
theorem idleWaits_dispatchAll (state : Coordinator) (orders : List Order) :
    (state.dispatchAll orders).idleWaits = state.idleWaits := by
  induction orders generalizing state with
  | nil => rfl
  | cons order rest inductionHypothesis =>
    cases order with
    | rebuild event =>
      refine (inductionHypothesis (state.dispatch event)).trans ?_
      unfold dispatch
      split <;> rfl
    | stop => rfl

/-- One that looks is told that the coordinator is idle only if there is nothing to wait for. -/
theorem passed_of_idleLook {state : Coordinator} {barrier : Barrier}
    (passed : state.idleLook barrier = .passed) (before : barrier ≠ .passed) :
    state.tasks = [] ∧ state.queue = [] := by
  unfold idleLook at passed
  split at passed
  · split at passed
    · cases passed
    · rename_i settled
      have none := tasks_of_numbers (passed_of_look passed)
      exact ⟨none, by simpa [none] using settled⟩
  · exact absurd passed before

/-- Whoever is told that the coordinator is idle has just looked, and found no task and no order. -/
theorem Step.idle_of_passed {state final : Coordinator} {occurrence : Occurrence}
    (step : Step state occurrence final) {place : Nat}
    (passed : final.idleWaits[place]? = some .passed)
    (before : state.idleWaits[place]? ≠ some .passed) :
    occurrence = .looked place ∧ final.tasks = [] ∧ final.queue = [] := by
  have unchanged (same : final.idleWaits = state.idleWaits) :
      occurrence = .looked place ∧ final.tasks = [] ∧ final.queue = [] :=
    absurd (same ▸ passed) before
  cases step with
  | submit event =>
    refine unchanged ?_
    unfold Coordinator.submit put
    dsimp only
    split <;> rfl
  | stop =>
    refine unchanged ?_
    unfold Coordinator.stop put
    dsimp only
    split <;> rfl
  | move earlier later mover able =>
    cases mover with
    | dispatcher =>
      refine unchanged ?_
      simp only [perform, serve]
      split
      · exact idleWaits_dispatchAll _ _
      all_goals rfl
    | task number => exact unchanged (waits_resume _ number).2
    | collector number =>
      have told : (state.idleWaits.map (Barrier.without number))[place]? = some .passed := by
        simp only [perform, collect] at passed
        split at passed <;> exact passed
      rw [List.getElem?_map, Option.map_eq_some_iff] at told
      obtain ⟨barrier, here, same⟩ := told
      exact absurd (passed_of_without same ▸ here) before
  | finish _ path failure finished =>
    obtain ⟨task, event, -, -, -, rfl⟩ := finish?_cases finished
    exact unchanged rfl
  | await =>
    change (state.idleWaits ++ [.looking])[place]? = some .passed at passed
    rcases Nat.lt_or_ge place state.idleWaits.length with inside | outside
    · rw [List.getElem?_append_left inside] at passed
      exact absurd passed before
    · rw [List.getElem?_append_right outside] at passed
      have looking := List.mem_of_getElem? passed
      simp at looking
  | look other =>
    change (state.idleWaits.modify other state.idleLook)[place]? = some .passed at passed
    rw [List.getElem?_modify] at passed
    obtain ⟨barrier, here, told⟩ := Option.map_eq_some_iff.mp passed
    by_cases same : other = place
    · rw [if_pos same] at told
      have fresh : barrier ≠ .passed := by
        rintro rfl
        exact before here
      exact ⟨same ▸ rfl, passed_of_idleLook told fresh⟩
    · rw [if_neg same] at told
      exact absurd (told ▸ here) before

/-! ### Runs -/

/-- After any run the orders that were queued are divided, a dispatcher that has returned has left no
task, and the account of rebuilds is even. -/
theorem Run.served {limit : Int} {past : List Occurrence} {state : Coordinator}
    (run : Run (ofLimit limit) past state) :
    Consistent state ∧ Served (ordersOf past) state ∧ Joined state ∧
      ∀ event, state.unaccounted event = 0 := by
  generalize start : ofLimit limit = first at run
  induction run with
  | rest =>
    subst start
    exact ⟨ofLimit_consistent limit, ⟨[], [], rfl, rfl, fun _ => .none⟩, nofun, fun _ => rfl⟩
  | step before next inductionHypothesis =>
    obtain ⟨consistent, served, joined, even⟩ := inductionHypothesis
    refine ⟨consistent.step next, ?_, joined.step next, fun event => ?_⟩
    · rw [ordersOf, List.filterMap_append]
      exact served.step consistent next
    · rw [next.unaccounted consistent event]
      exact even event

/-- Whatever the limit and the order of moves, and whether rebuilds end well or fail: no event is handed
over that was submitted behind the first order to stop. Once the dispatcher has returned, it has dealt
with everything up to that order, which is what was submitted before it and nothing else; each of these
events was handed over, or left out in favour of a later one of its path that was submitted before the
order to stop and handed over; every rebuild that was started has ended; and no path is in flight, no
event is kept and no task is left. One that waits for the coordinator to be idle goes on only by
looking, and at that moment nothing is queued, in flight or kept. -/
theorem run_settles_before_returning (limit : Int) (past : List Occurrence) (state : Coordinator)
    (run : Run (ofLimit limit) past state) :
    (∀ path, (state.startedOn path).Sublist (submittedOn path (beforeStop past))) ∧
    (state.hasReturned →
      .stopped ∈ past ∧ state.queue = ordersOf (afterStop past) ∧
      (∀ path, KeepsLatest (state.startedOn path) (submittedOn path (beforeStop past))) ∧
      (∀ path before event after, submittedOn path (beforeStop past) = before ++ event :: after →
        ∃ keptBefore keptAfter, keptBefore.Sublist before ∧ keptAfter.Sublist after ∧
          (state.startedOn path = keptBefore ++ event :: keptAfter ∨
            state.startedOn path = keptBefore ++ keptAfter ∧ keptAfter ≠ [])) ∧
      state.started.Perm state.concluded ∧
      state.inFlight = [] ∧ state.pending = [] ∧ state.tasks = []) ∧
    ∀ occurrence final place, Step state occurrence final →
      final.idleWaits[place]? = some .passed → state.idleWaits[place]? ≠ some .passed →
        occurrence = .looked place ∧
          final.queue = [] ∧ final.inFlight = [] ∧ final.pending = [] ∧ final.tasks = [] := by
  obtain ⟨consistent, ⟨events, rest, cut, queued, account⟩, joined, even⟩ := run.served
  refine ⟨fun path => ?_, fun returned => ?_, fun occurrence final place step passed before => ?_⟩
  · rw [submittedOn_beforeStop path cut]
    exact (List.sublist_append_left _ _).trans
      ((account path).sublist.trans (List.sublist_append_left _ _))
  · have returned : state.dispatcher = .closing .passed := of_decide_eq_true returned
    have none := joined returned
    have nothing := consistent.nothing_left none
    have stopped : ordersOf past = events.map Order.rebuild ++ .stop :: state.queue := by
      rw [cut, queued, returned]
      rfl
    have passes : ∀ order ∈ events.map Order.rebuild, (decide (order ≠ Order.stop)) = true := by
      simp
    have keeps (path : Path) : KeepsLatest (state.startedOn path)
        (submittedOn path (beforeStop past)) := by
      have held : state.heldOn path = [] := by
        simp [heldOn, carriedOn, keptOn, keptFor, none, nothing.2]
      have kept := account path
      rw [held, List.append_nil] at kept
      rw [submittedOn_beforeStop path stopped]
      simpa [ordered, eventsOn] using kept
    refine ⟨?_, ?_, keeps, fun path before event after submitted => ?_, ?_, nothing.1, nothing.2,
      none⟩
    · have ordered : Order.stop ∈ ordersOf past := by simp [stopped]
      obtain ⟨occurrence, member, same⟩ := List.mem_filterMap.mp ordered
      cases occurrence <;> cases same
      exact member
    · rw [ordersOf_afterStop, stopped, List.dropWhile_append_of_pos passes]
      simp
    · obtain ⟨keptBefore, keptAfter, within, following, kind⟩ := (submitted ▸ keeps path).at_event
      exact ⟨keptBefore, keptAfter, within, following.sublist, kind⟩
    · refine List.perm_iff_count.mpr fun event => ?_
      have zero := even event
      simp only [unaccounted, none, List.map_nil, List.sum_nil] at zero
      omega
  · obtain ⟨looked, tasks, queue⟩ := step.idle_of_passed passed before
    obtain ⟨inFlight, pending⟩ := (consistent.step step).nothing_left tasks
    exact ⟨looked, queue, inFlight, pending, tasks⟩

/-- A file is built while someone waits for the coordinator to be idle. Afterwards it is changed, the
dispatcher is told to stop, and the file is removed: the change is handed over, and the dispatcher returns
once its rebuild has failed; the removal stays in the queue. -/
theorem run_settles_before_returning_of_late :
    let path : Path := ⟨.root, ["a"]⟩
    let event (kind : EventKind) : WatchEvent := { path, kind }
    let early : List Occurrence :=
      [.awaited, .submitted (event .added), .moved .dispatcher, .moved (.task 0), .looked 0,
       .ended path none, .moved (.task 0), .moved (.collector 0)]
    let late : List Occurrence :=
      [.looked 0, .submitted (event .modified), .stopped, .submitted (event .removed),
       .moved .dispatcher, .moved (.task 1), .ended path (some "failed"), .moved (.task 1),
       .moved (.collector 1), .moved .dispatcher]
    (∃ state final, Run (ofLimit 1) early state ∧ Step state (.looked 0) final ∧
      final.idleWaits = [.passed] ∧ state.idleWaits = [.looking] ∧ final.inFlight = []) ∧
    ∃ state, Run (ofLimit 1) (early ++ late) state ∧ state.hasReturned ∧
      state.queue = [.rebuild (event .removed)] ∧
      submittedOn path (beforeStop (early ++ late)) = [event .added, event .modified] ∧
      state.startedOn path = [event .added, event .modified] ∧
      state.started.Perm state.concluded ∧ state.tasks = [] := by
  intro path event early late
  refine ⟨?_, ?_⟩
  · have possible : ((ofLimit 1).replay? early).isSome := by decide +kernel
    obtain ⟨state, computed⟩ := Option.isSome_iff_exists.mp possible
    have run : Run (ofLimit 1) early state := .of_replay? computed
    have waits : ∀ state ∈ (ofLimit 1).replay? early, state.idleWaits = [.looking] ∧
        state.idleWaits.modify 0 state.idleLook = [.passed] := by decide +kernel
    obtain ⟨before, passed⟩ := waits state computed
    have idle := (run_settles_before_returning 1 early state run).2.2 _ _ 0 (.look state 0)
      (by simp [passed]) (by simp [before])
    exact ⟨state, _, run, .look state 0, passed, before, idle.2.2.1⟩
  · have possible : ((ofLimit 1).replay? (early ++ late)).isSome := by decide +kernel
    obtain ⟨state, computed⟩ := Option.isSome_iff_exists.mp possible
    have run : Run (ofLimit 1) (early ++ late) state := .of_replay? computed
    have reached : ∀ state ∈ (ofLimit 1).replay? (early ++ late), state.hasReturned ∧
        state.startedOn path = [event .added, event .modified] := by decide +kernel
    obtain ⟨returned, handed⟩ := reached state computed
    obtain ⟨-, queue, -, -, even, -, -, tasks⟩ :=
      (run_settles_before_returning 1 (early ++ late) state run).2.1 returned
    exact ⟨state, run, returned, queue, by decide +kernel, handed, even, tasks⟩

end Coordinator

end TreeBuild
