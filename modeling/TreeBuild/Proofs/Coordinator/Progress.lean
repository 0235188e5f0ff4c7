import TreeBuild.Proofs.Coordinator.Fairness
import TreeBuild.Proofs.Coordinator.Shutdown

/-!
# Whatever is submitted is dealt with

Every order in the queue, every event that is kept, everything that is able to move and every phase of a
task stand for a number of moves and ends of rebuilds that they can still lead to. Each move and each end of
a rebuild, whether it has succeeded or failed, makes the sum of these numbers smaller, so that only so much
can happen until the next event is submitted.

As long as there is no order to stop, the dispatcher listens only if nothing is queued, and is able to move
otherwise. So when nothing is able to move and no rebuild is under way, nothing is left, and every rebuild
that was started has ended.
-/
namespace TreeBuild

/-- How many moves and ends of rebuilds a task in this phase can still lead to. One that is given a slot
becomes able to move by that. -/
def Phase.burden : Phase → Nat
  | .fresh _ | .waiting _ => 5
  | .granted _ | .running _ => 3
  | .ending _ _ => 1
  | .ended => 0

namespace Coordinator

/-- How many moves and ends of rebuilds are still possible if no order in the queue is dealt with. -/
def load (state : Coordinator) : Nat :=
  state.ready.length + 4 * state.pending.length + (state.tasks.map (·.phase.burden)).sum

/-- How many moves and ends of rebuilds are still possible. -/
def remaining (state : Coordinator) : Nat := 6 * state.queue.length + state.load

section

variable {state final : Coordinator} {occurrence : Occurrence} {past : List Occurrence} {number : Nat}
  {task : Task} {event : WatchEvent}

/-! ### Operations make the load no greater -/

/-- What becomes able to move counts, besides the tasks and what is kept. -/
theorem load_of_same {other : Coordinator} {count : Nat} (tasks : other.tasks = state.tasks)
    (pending : other.pending = state.pending) (ready : other.ready.length = state.ready.length + count) :
    other.load = state.load + count := by
  rw [load, load, tasks, pending, ready]
  omega

/-- A change of phase changes the load by what it changes for that task. -/
theorem load_setPhase (consistent : Consistent state) (found : state.task? number = some task)
    (phase : Phase) : (state.setPhase number phase).load + task.phase.burden = state.load + phase.burden := by
  have sum := sum_setPhase Phase.burden state number task phase consistent.distinct found
  change state.ready.length + 4 * state.pending.length + _ + _ = _
  unfold load
  omega

/-- A slot that is given to a task makes it able to move, but brings it nearer to its end. -/
theorem load_grant (consistent : Consistent state) : state.grant.load ≤ state.load := by
  rcases grant_cases state with same | ⟨number, event, task, found, waits, given⟩
  · rw [same]
  · have moved := load_setPhase consistent found (.granted event)
    have more : state.grant.load = (state.setPhase number (.granted event)).load + 1 := by
      rw [given]
      exact load_of_same rfl rfl List.length_append
    rw [waits] at moved
    simp only [Phase.burden] at moved
    omega

/-- A task that asks for a slot can lead to five moves and ends at most, in place of what it could lead to. -/
theorem load_acquire (consistent : Consistent state) (found : state.task? number = some task)
    (event : WatchEvent) : (state.acquire number event).load + task.phase.burden ≤ state.load + 5 := by
  have running := load_setPhase consistent found (.running event)
  have waiting := load_setPhase consistent found (.waiting event)
  simp only [Phase.burden] at running waiting
  unfold Coordinator.acquire
  split
  · exact running.le.trans (Nat.add_le_add_left (by decide) _)
  · exact waiting.le

/-- A task that goes on takes up an event that was kept, and one that ends has yet to be collected. -/
theorem load_goOn {failure : Option String} (consistent : Consistent state)
    (found : state.task? task.number = some task) (ending : task.phase = .ending event failure) :
    (state.goOn task).load ≤ state.load := by
  unfold Coordinator.goOn
  split
  · rename_i kept held
    obtain ⟨before, after, cut, -⟩ := List.lookup_eq_some_iff.mp held
    have fewer : (state.pending.filter fun entry => entry.1 ≠ task.path).length < state.pending.length :=
      List.length_filter_lt_length_iff_exists.mpr ⟨(task.path, kept), by simp [cut], by simp⟩
    have asked := load_acquire (consistent.forget task.path) found kept
    have forgotten : ({ state with
        pending := state.pending.filter fun entry => entry.1 ≠ task.path } : Coordinator).load + 4 ≤
          state.load := by
      simp only [load]
      omega
    rw [ending] at asked
    simp only [Phase.burden] at asked
    omega
  · have ended := load_setPhase consistent found .ended
    rw [ending] at ended
    simp only [Phase.burden] at ended
    refine le_of_eq_of_le (b := (state.setPhase task.number .ended).load + 1) ?_ (by omega)
    exact load_of_same rfl rfl List.length_append

/-- A task that goes on has not more to do than before. -/
theorem load_resume (consistent : Consistent state) (number : Nat) :
    (state.resume number).load ≤ state.load := by
  unfold Coordinator.resume
  split
  · exact Nat.le_refl _
  · rename_i task found
    split
    · rename_i event phase
      have asked := load_acquire consistent found event
      rw [phase] at asked
      simp only [Phase.burden] at asked
      omega
    · rename_i event phase
      have left := consistent.leave number
      have started {other : Coordinator} (sound : Consistent other)
          (present : other.task? number = some task) (lighter : other.load ≤ state.load) :
          (other.start number event).load ≤ state.load := by
        have moved := load_setPhase sound present (.running event)
        rw [phase] at moved
        change (other.setPhase number (.running event)).load ≤ _
        simp only [Phase.burden] at moved
        omega
      dsimp only
      split
      · exact started left.grant (task?_grant _ found (by simp [phase])) (load_grant left)
      · exact started left found (Nat.le_refl _)
    · rename_i event failure phase
      have noted := consistent.note event failure
      obtain rfl : task.number = number := (task?_mem state number task found).2
      have present : (state.note event failure).release.task? task.number = some task :=
        task?_release (state.note event failure) found (by simp [phase])
      have more := noted.free (state.free + 1)
      exact (load_goOn noted.release present phase).trans (load_grant more)
    all_goals exact Nat.le_refl _

/-- Dispatching an event adds a task that can move, or keeps the event. -/
theorem load_dispatch (state : Coordinator) (event : WatchEvent) :
    (state.dispatch event).load ≤ state.load + 6 := by
  unfold dispatch
  split
  · have fewer := List.length_filter_le (fun entry : Path × WatchEvent => decide (entry.1 ≠ event.path))
      state.pending
    simp only [load, List.length_append, List.length_singleton]
    omega
  · simp only [load, List.length_append, List.length_singleton, List.map_append, List.map_cons, List.map_nil,
      List.sum_append, List.sum_cons, List.sum_nil, Phase.burden]
    omega

/-- Dealing with events empties the queue. -/
theorem dispatchAll_events (state : Coordinator) {orders : List Order} (events : .stop ∉ orders) :
    (state.dispatchAll orders).load ≤ state.load + 6 * orders.length ∧
      (state.dispatchAll orders).queue = [] := by
  induction orders generalizing state with
  | nil => exact ⟨Nat.le_refl _, rfl⟩
  | cons order rest inductionHypothesis =>
    cases order with
    | stop => simp at events
    | rebuild event =>
      obtain ⟨load, queue⟩ := inductionHypothesis (state.dispatch event) (by simpa using events)
      have first := load_dispatch state event
      refine ⟨?_, queue⟩
      rw [List.length_cons]
      change ((state.dispatch event).dispatchAll rest).load ≤ _
      omega

/-! ### The dispatcher heeds what is queued -/

/-- A dispatcher that listens has an empty queue, and one that was called is able to move. -/
structure Heeds (state : Coordinator) : Prop where
  listening : state.dispatcher = .listening → state.queue = []
  called : state.dispatcher = .called → .dispatcher ∈ state.ready

/-- What is able to move stays so, when others become able to move behind it. -/
theorem ready_grant (state : Coordinator) : state.ready <+: state.grant.ready := by
  rcases grant_cases state with same | ⟨number, event, task, -, -, given⟩
  · exact same.symm ▸ List.prefix_rfl
  · rw [given]
    exact List.prefix_append _ _

/-- Asking for a slot makes nobody able to move. -/
theorem ready_acquire (state : Coordinator) (number : Nat) (event : WatchEvent) :
    (state.acquire number event).ready = state.ready := by
  unfold Coordinator.acquire
  split <;> rfl

/-- A task that goes on takes its place behind those that are able to move. -/
theorem ready_goOn (state : Coordinator) (task : Task) : state.ready <+: (state.goOn task).ready := by
  unfold Coordinator.goOn
  split
  · exact (ready_acquire ..).symm ▸ List.prefix_rfl
  · exact List.prefix_append _ _

/-- So does one that is resumed. -/
theorem ready_resume (state : Coordinator) (number : Nat) : state.ready <+: (state.resume number).ready := by
  unfold Coordinator.resume
  split
  · exact List.prefix_rfl
  · split
    · exact (ready_acquire ..).symm ▸ List.prefix_rfl
    · dsimp only
      split
      · exact ready_grant { state with line := state.line.erase number }
      · exact List.prefix_rfl
    · rename_i event failure phase
      have released : state.ready <+: (state.note event failure).release.ready :=
        ready_grant { state.note event failure with free := (state.note event failure).free + 1 }
      exact released.trans (ready_goOn _ _)
    all_goals exact List.prefix_rfl

/-- A dispatcher that has dealt with orders listens to an empty queue, or has come to an order to stop. -/
theorem dispatchAll_heeds (state : Coordinator) (orders : List Order) :
    (state.dispatchAll orders).dispatcher = .listening ∧ (state.dispatchAll orders).queue = [] ∨
      ∃ barrier, (state.dispatchAll orders).dispatcher = .closing barrier := by
  induction orders generalizing state with
  | nil => exact .inl ⟨rfl, rfl⟩
  | cons order rest inductionHypothesis =>
    cases order with
    | rebuild event => exact inductionHypothesis (state.dispatch event)
    | stop => exact .inr ⟨_, rfl⟩

/-- An order is heeded: it wakes a dispatcher that listens. -/
theorem Heeds.put (heeds : Heeds state) (order : Order) : Heeds (state.put order) := by
  unfold Coordinator.put
  dsimp only
  split
  · exact ⟨nofun, fun _ => List.mem_append_right _ (List.mem_singleton.mpr rfl)⟩
  · rename_i busy
    exact ⟨fun listening => absurd listening busy, heeds.called⟩

/-- Every step leaves the dispatcher heeding what is queued. -/
theorem Heeds.step (heeds : Heeds state) (consistent : Consistent state) (step : Step state occurrence final) :
    Heeds final := by
  cases step with
  | submit event => exact heeds.put _
  | stop => exact heeds.put _
  | move earlier later mover able =>
    have still (other : mover ≠ .dispatcher) (called : state.dispatcher = .called) :
        .dispatcher ∈ earlier ++ later := by
      have listed := heeds.called called
      rw [able] at listed
      simpa [other.symm] using listed
    cases mover with
    | dispatcher =>
      simp only [perform, serve]
      split
      · rcases dispatchAll_heeds { state with ready := earlier ++ later } state.queue with
          ⟨listens, queue⟩ | ⟨barrier, closing⟩
        · exact ⟨fun _ => queue, fun called => by simp [listens] at called⟩
        · exact ⟨fun listens => by simp [closing] at listens, fun called => by simp [closing] at called⟩
      · exact ⟨fun listens => (by cases listens), fun called => (by cases called)⟩
      · exact ⟨heeds.listening, fun called => by simp_all⟩
      · rename_i closing
        exact ⟨fun listens => by simp_all, fun called => by simp_all⟩
    | task number =>
      have without := consistent.takeOff able
      obtain ⟨-, -, -, queue⟩ := Hands.resume without number default
      have dispatcher := (waits_resume { state with ready := earlier ++ later } number).1
      refine ⟨fun listens => queue.trans (heeds.listening (dispatcher.symm.trans listens)), fun called => ?_⟩
      exact (ready_resume _ number).subset (still (by simp) (dispatcher.symm.trans called))
    | collector number =>
      simp only [perform, collect]
      split
      · exact ⟨fun listens => (by cases listens), fun called => (by cases called)⟩
      · exact ⟨heeds.listening, still (by simp)⟩
  | finish _ path failure finished =>
    obtain ⟨task, event, -, -, -, rfl⟩ := finish?_cases finished
    exact ⟨heeds.listening, fun called => List.mem_append_left _ (heeds.called called)⟩
  | await => exact ⟨heeds.listening, heeds.called⟩
  | look place => exact ⟨heeds.listening, heeds.called⟩

/-! ### Only so much can happen -/

/-- Nobody has told the dispatcher to stop. -/
structure Unstopped (state : Coordinator) : Prop where
  queue : .stop ∉ state.queue
  dispatcher : state.dispatcher.isClosing = false

/-- Taking a task off the list of a dispatcher that has not been stopped touches nothing that counts. -/
theorem remaining_collect (dispatcher : state.dispatcher.isClosing = false)
    (ended : ∀ task ∈ state.tasks, task.number = number → task.phase = .ended) :
    (state.collect number).remaining = state.remaining := by
  have sum := sum_without Phase.burden rfl number state.tasks ended
  unfold collect
  split
  · rename_i barrier closing
    simp [closing, Dispatcher.isClosing] at dispatcher
  · simp only [remaining, load, sum]

/-- As long as there is no order to stop, a move leaves less to be done. -/
theorem remaining_move {mover : Mover} (consistent : Consistent state) (unstopped : Unstopped state)
    (step : Step state (.moved mover) final) : final.remaining < state.remaining := by
  cases step with
  | move earlier later _ able =>
    generalize taken : ({ state with ready := earlier ++ later } : Coordinator) = rest
    have without : Consistent rest := taken ▸ consistent.takeOff able
    have queue : rest.queue = state.queue := by rw [← taken]
    have dispatcher : rest.dispatcher = state.dispatcher := by rw [← taken]
    have tasks : rest.tasks = state.tasks := by rw [← taken]
    have lighter : rest.remaining + 1 = state.remaining := by
      have shorter : state.ready.length = rest.ready.length + 1 := by
        rw [← taken, able]
        simp only [List.length_append, List.length_cons]
        omega
      rw [remaining, remaining, queue, @load_of_same rest state 1 tasks.symm (by rw [← taken]) shorter]
      omega
    have unmoved : rest.remaining < state.remaining := by omega
    cases mover with
    | dispatcher =>
      simp only [perform, serve]
      split
      · obtain ⟨load, empty⟩ := dispatchAll_events rest (queue ▸ unstopped.queue)
        refine lt_of_le_of_lt ?_ unmoved
        rw [remaining, remaining, empty, List.length_nil]
        omega
      · rename_i closing
        have going := unstopped.dispatcher
        simp [← dispatcher, closing, Dispatcher.isClosing] at going
      all_goals exact unmoved
    | task number =>
      obtain ⟨-, -, -, same⟩ := Hands.resume without number default
      have load := load_resume without number
      refine lt_of_le_of_lt ?_ unmoved
      change (rest.resume number).remaining ≤ _
      rw [remaining, remaining, same]
      omega
    | collector number =>
      refine lt_of_eq_of_lt (remaining_collect ?_ fun task member same => ?_) unmoved
      · rw [dispatcher]
        exact unstopped.dispatcher
      · exact consistent.collected task (tasks ▸ member) (by simp [able, same])

/-- The end of a rebuild leaves less to be done, whether or not it is a failure. -/
theorem remaining_finish {path : Path} {failure : Option String} (consistent : Consistent state)
    (finished : state.finish? path failure = some final) : final.remaining < state.remaining := by
  obtain ⟨task, event, member, -, phase, rfl⟩ := finish?_cases finished
  have found := task?_of_mem state task consistent.distinct member
  have moved := load_setPhase consistent found (.ending event failure)
  rw [phase] at moved
  simp only [Phase.burden] at moved
  have more : ({ state.setPhase task.number (.ending event failure) with
      ready := state.ready ++ [.task task.number] } : Coordinator).load =
        (state.setPhase task.number (.ending event failure)).load + 1 :=
    load_of_same rfl rfl List.length_append
  change 6 * state.queue.length + ({ state.setPhase task.number (.ending event failure) with
    ready := state.ready ++ [.task task.number] } : Coordinator).load < _
  rw [remaining, more]
  omega

/-! ### Nothing is left when nothing can happen -/

/-- In every run a dispatcher that listens has an empty queue. -/
theorem Run.heeds {limit : Int} (run : Run (ofLimit limit) past state) : Heeds state :=
  (@Run.preserves (fun state => Consistent state ∧ Heeds state)
    (fun _ _ _ step kept => ⟨kept.1.step step, kept.2.step kept.1 step⟩) _ _ _ run
    ⟨ofLimit_consistent limit, fun _ => rfl, nofun⟩).2

/-- Without an order to stop none is queued, and the dispatcher has come to none. -/
theorem Run.unstopped {limit : Int} (run : Run (ofLimit limit) past state) (unasked : .stopped ∉ past) :
    Unstopped state := by
  obtain ⟨-, ⟨events, rest, cut, queued, -⟩, -, -⟩ := run.served
  have absent : Order.stop ∉ ordersOf past := by
    intro ordered
    obtain ⟨occurrence, member, same⟩ := List.mem_filterMap.mp ordered
    cases occurrence <;> cases same
    exact unasked member
  rw [cut, List.mem_append, not_or] at absent
  have dispatcher : state.dispatcher.isClosing = false := by
    by_contra closing
    rw [if_pos (by simpa using closing)] at queued
    exact absent.2 (queued ▸ List.mem_cons_self)
  have left : rest = state.queue := by simpa [dispatcher] using queued
  exact ⟨left ▸ absent.2, dispatcher⟩

/-- A task whose rebuild is under way is found by its path. -/
theorem runningOn?_isSome (member : task ∈ state.tasks) (running : task.phase = .running event) :
    (state.runningOn? task.path).isSome := by
  unfold runningOn?
  rw [List.findSome?_isSome_iff]
  exact ⟨task, member, by simp [running]⟩

/-- The rebuild that is found under way on a path can end. -/
theorem finish?_isSome {path : Path} {pair : Nat × WatchEvent} (underWay : state.runningOn? path = some pair)
    (failure : Option String) : (state.finish? path failure).isSome := by
  unfold finish?
  rw [underWay]
  rfl

/-- If nothing is able to move, no rebuild is under way and nobody has asked for a stop, then nothing is
queued, in flight or kept, and every rebuild that was started has ended. -/
theorem Turns.idle_of_quiet {limit : Int} (turns : Turns (ofLimit limit) past state)
    (unasked : .stopped ∉ past) (quiet : state.ready = []) (unoccupied : ∀ path, state.runningOn? path = none) :
    state.queue = [] ∧ state.inFlight = [] ∧ state.pending = [] ∧ state.started.Perm state.concluded := by
  obtain ⟨consistent, balanced⟩ := turns.run.sound
  obtain ⟨-, -, -, even⟩ := turns.run.served
  have heeds := turns.run.heeds
  have unstopped := turns.run.unstopped unasked
  have resting : ∀ task ∈ state.tasks, task.phase.isRunning = false := by
    intro task member
    cases phase : task.phase with
    | running event =>
      have found := runningOn?_isSome member phase
      rw [unoccupied] at found
      cases found
    | _ => rfl
  have inFlight : state.inFlight = [] := by
    have few := turns.inLine.running_of_quiet consistent balanced quiet
    have none : state.tasks.countP (·.phase.isRunning) = 0 :=
      List.countP_eq_zero.mpr fun task member => by simp [resting task member]
    have slots := turns.run.slots
    rw [none] at few
    refine List.eq_nil_of_length_eq_zero ?_
    omega
  refine ⟨?_, inFlight, consistent.pending_of_idle inFlight, List.perm_iff_count.mpr fun event => ?_⟩
  · cases dispatcher : state.dispatcher with
    | listening => exact heeds.listening dispatcher
    | called =>
      have able := heeds.called dispatcher
      rw [quiet] at able
      cases able
    | closing barrier =>
      have going := unstopped.dispatcher
      simp [dispatcher, Dispatcher.isClosing] at going
  · have nothing : (state.tasks.map (·.phase.handed.count event)).sum = 0 := by
      refine List.sum_eq_zero_iff_forall_eq_nat.mpr fun count member => ?_
      obtain ⟨task, inside, rfl⟩ := List.mem_map.mp member
      have ended := consistent.finished_of_idle inFlight inside
      cases phase : task.phase <;> simp_all [Phase.isUnfinished, Phase.handed]
    have zero := even event
    simp only [unaccounted, nothing] at zero
    omega

end

end Coordinator

end TreeBuild
