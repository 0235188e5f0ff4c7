import TreeBuild.Proofs.Coordinator.Runs

/-!
# How the parts of a coordinator fit together

The paths in flight, the tasks and the events that are kept for later are held apart, and most moves
change several of them. `Consistent` says how they fit together: the paths in flight are those of the
unfinished tasks, no path has two of these, every event that is kept belongs to a path in flight, and
only tasks that have ended are ever taken off the list. Each operation has a law of its own that it
preserves this, and the law for a step is put together from them.

Slots are left out here: within one move a task may hold a slot that is already counted as free, so
they need a law of another form.
-/
namespace TreeBuild.Coordinator

/-- The tasks, the paths in flight and the events that are kept fit together. -/
structure Consistent (state : Coordinator) : Prop where
  distinct : state.numbers.Nodup
  /-- The next number is new. -/
  used : ∀ number ∈ state.numbers, number < state.next
  /-- A task deals with events of its own path only. -/
  own : ∀ task ∈ state.tasks, ∀ event ∈ task.phase.event?, event.path = task.path
  tracked : state.inFlight = state.unfinished.map (·.path)
  apart : state.inFlight.Nodup
  gated : ∀ entry ∈ state.pending, entry.1 ∈ state.inFlight ∧ entry.2.path = entry.1
  /-- Only one event is kept for each path. -/
  single : (state.pending.map (·.1)).Nodup
  /-- What is going to be taken off the list has ended. -/
  collected : ∀ task ∈ state.tasks, .collector task.number ∈ state.ready → task.phase = .ended
  known : ∀ number, .collector number ∈ state.ready → number < state.next

/-- A coordinator that has nothing to do is consistent. -/
theorem ofLimit_consistent (limit : Int) : Consistent (ofLimit limit) := by
  constructor <;> simp [ofLimit, numbers, unfinished]

/-! ### Operations on a single task -/

/-- What the order of moves, the line for slots, the history and everything about the dispatcher are
does not matter, as long as no task is newly marked for collection. -/
theorem Consistent.of_same {state other : Coordinator} (consistent : Consistent state)
    (tasks : other.tasks = state.tasks) (inFlight : other.inFlight = state.inFlight)
    (pending : other.pending = state.pending) (next : other.next = state.next)
    (marked : ∀ number, .collector number ∈ other.ready → .collector number ∈ state.ready) :
    Consistent other where
  distinct := by simpa only [numbers, tasks] using consistent.distinct
  used := by simpa only [numbers, tasks, next] using consistent.used
  own := by simpa only [tasks] using consistent.own
  tracked := by simpa only [unfinished, tasks, inFlight] using consistent.tracked
  apart := by simpa only [inFlight] using consistent.apart
  gated := by simpa only [pending, inFlight] using consistent.gated
  single := by simpa only [pending] using consistent.single
  collected := by
    intro task member mark
    exact consistent.collected task (tasks ▸ member) (marked task.number mark)
  known := by
    intro number mark
    rw [next]
    exact consistent.known number (marked number mark)

/-- The line says nothing about the other parts of the state. -/
theorem Consistent.leave {state : Coordinator} (consistent : Consistent state) (number : Nat) :
    Consistent { state with line := state.line.erase number } :=
  consistent.of_same rfl rfl rfl rfl fun _ mark => mark

/-- Neither does the number of free slots. -/
theorem Consistent.free {state : Coordinator} (consistent : Consistent state) (free : Nat) :
    Consistent { state with free } :=
  consistent.of_same rfl rfl rfl rfl fun _ mark => mark

/-- Neither does what has happened. -/
theorem Consistent.note {state : Coordinator} (consistent : Consistent state) (event : WatchEvent)
    (failure : Option String) : Consistent (state.note event failure) :=
  consistent.of_same rfl rfl rfl rfl fun _ mark => mark

/-- A task that is cut out of the list and put back in another phase leaves the other tasks. -/
theorem mem_setPhase (state : Coordinator) (number : Nat) (task other : Task) (phase : Phase)
    (distinct : state.numbers.Nodup) (found : state.task? number = some task)
    (member : other ∈ (state.setPhase number phase).tasks) :
    other = { task with phase } ∨ other ∈ state.tasks ∧ other.number ≠ number := by
  obtain ⟨same, place⟩ := List.mem_map.mp member
  by_cases named : same.number = number
  · have found' := task?_of_mem state same distinct place.1
    rw [named, found] at found'
    obtain rfl := Option.some.inj found'
    exact .inl (by simpa [named] using place.2.symm)
  · refine .inr ?_
    have unchanged : same = other := by simpa [named] using place.2
    exact unchanged ▸ ⟨place.1, named⟩

/-- A task that has something left to do may go to any other phase of this kind that is about an event
of its path. -/
theorem Consistent.setPhase {state : Coordinator} (consistent : Consistent state) {number : Nat}
    {task : Task} (found : state.task? number = some task) (phase : Phase)
    (left : task.phase.isUnfinished) (still : phase.isUnfinished)
    (own : ∀ event ∈ phase.event?, event.path = task.path) :
    Consistent (state.setPhase number phase) where
  distinct := by simpa using consistent.distinct
  used := by
    rw [numbers_setPhase]
    exact consistent.used
  own := by
    intro other member
    rcases mem_setPhase state number task other phase consistent.distinct found member with
      rfl | ⟨present, -⟩
    · exact own
    · exact consistent.own other present
  tracked := by
    rw [unfinished_setPhase state number task phase consistent.distinct found (by simp [left, still])]
    exact consistent.tracked
  apart := consistent.apart
  gated := consistent.gated
  single := consistent.single
  collected := by
    intro other member mark
    obtain ⟨present, named⟩ := task?_mem state number task found
    rcases mem_setPhase state number task other phase consistent.distinct found member with
      rfl | ⟨inside, -⟩
    · have ended : task.phase = .ended := consistent.collected task present mark
      simp [ended, Phase.isUnfinished] at left
    · exact consistent.collected other inside mark
  known := consistent.known

/-- The event of the task of a number is about its path. -/
theorem Consistent.event_path {state : Coordinator} (consistent : Consistent state) {number : Nat}
    {task : Task} (found : state.task? number = some task) {event : WatchEvent}
    (about : task.phase.event? = some event) : event.path = task.path :=
  consistent.own task (task?_mem state number task found).1 event (by simp [about])

/-- Starting a rebuild keeps the parts of the state in agreement. -/
theorem Consistent.start {state : Coordinator} (consistent : Consistent state) {number : Nat}
    {task : Task} (found : state.task? number = some task) (left : task.phase.isUnfinished)
    {event : WatchEvent} (own : event.path = task.path) : Consistent (state.start number event) :=
  (consistent.setPhase found (.running event) left rfl (by simpa [Phase.event?] using own)).of_same
    rfl rfl rfl rfl fun _ mark => mark

/-- Asking for a slot keeps the parts of the state in agreement. -/
theorem Consistent.acquire {state : Coordinator} (consistent : Consistent state) {number : Nat}
    {task : Task} (found : state.task? number = some task) (left : task.phase.isUnfinished)
    {event : WatchEvent} (own : event.path = task.path) :
    Consistent (state.acquire number event) := by
  unfold Coordinator.acquire
  split
  · have fewer := consistent.free (state.free - 1)
    exact fewer.start found left own
  · exact (consistent.setPhase found (.waiting event) left rfl
      (by simpa [Phase.event?] using own)).of_same rfl rfl rfl rfl fun _ mark => mark

/-- Giving a free slot away keeps the parts of the state in agreement. -/
theorem Consistent.grant {state : Coordinator} (consistent : Consistent state) :
    Consistent state.grant := by
  rcases grant_cases state with same | ⟨number, event, task, found, waits, given⟩
  · rw [same]
    exact consistent
  · have own : event.path = task.path := consistent.event_path found (by simp [waits, Phase.event?])
    rw [given]
    refine (consistent.setPhase found (.granted event) (by simp [waits, Phase.isUnfinished]) rfl
      (by simpa [Phase.event?] using own)).of_same rfl rfl rfl rfl ?_
    intro marked mark
    simpa [Coordinator.setPhase] using mark

/-- The task of a number that has no free slot handed to it by `grant` is the same afterwards. -/
theorem task?_grant (state : Coordinator) {number : Nat} {task : Task}
    (found : state.task? number = some task) (settled : ∀ event, task.phase ≠ .waiting event) :
    state.grant.task? number = some task := by
  rcases grant_cases state with same | ⟨other, event, waiter, waiting, waits, given⟩
  · rw [same]
    exact found
  · have different : number ≠ other := by
      rintro rfl
      obtain rfl : task = waiter := Option.some.inj (found.symm.trans waiting)
      exact settled event waits
    rw [given]
    exact (task?_setPhase_of_ne state other number (.granted event) different).trans found

/-- The task of a number that does not wait for a slot is the same after another one was given back. -/
theorem task?_release (state : Coordinator) {number : Nat} {task : Task}
    (found : state.task? number = some task) (settled : ∀ event, task.phase ≠ .waiting event) :
    state.release.task? number = some task :=
  task?_grant { state with free := state.free + 1 } found settled

/-- Giving a slot back keeps the parts of the state in agreement. -/
theorem Consistent.release {state : Coordinator} (consistent : Consistent state) :
    Consistent state.release :=
  (consistent.free (state.free + 1)).grant

/-- A task is ended together with its entry among the paths in flight, which no other unfinished task
shares, and only if no event is kept for it. -/
theorem Consistent.finish {state : Coordinator} (consistent : Consistent state) {number : Nat}
    {task : Task} (found : state.task? number = some task) (left : task.phase.isUnfinished)
    (nothing : state.pending.lookup task.path = none) :
    Consistent { state.setPhase number .ended with
      inFlight := state.inFlight.filter (· ≠ task.path)
      ready := state.ready ++ [.collector number] } := by
  obtain ⟨before, after, cut, named, changed⟩ :=
    tasks_cut state number task consistent.distinct found
  have inFlight : state.inFlight = (before.filter (·.phase.isUnfinished)).map (·.path) ++
      task.path :: (after.filter (·.phase.isUnfinished)).map (·.path) := by
    rw [consistent.tracked, Coordinator.unfinished, cut]
    simp [List.filter_append, left]
  have absent := List.nodup_middle.mp (inFlight ▸ consistent.apart)
  rw [List.nodup_cons, List.mem_append, not_or] at absent
  constructor
  case distinct =>
    change (state.setPhase number .ended).numbers.Nodup
    rw [numbers_setPhase]
    exact consistent.distinct
  case used =>
    change ∀ other ∈ (state.setPhase number .ended).numbers, other < state.next
    rw [numbers_setPhase]
    exact consistent.used
  case own =>
    intro other member
    rcases mem_setPhase state number task other .ended consistent.distinct found member with
      rfl | ⟨present, -⟩
    · simp [Phase.event?]
    · exact consistent.own other present
  case tracked =>
    have others (part : List Path) (without : task.path ∉ part) :
        part.filter (· ≠ task.path) = part := by
      apply List.filter_eq_self.mpr
      intro path member
      have different : path ≠ task.path := by
        rintro rfl
        exact without member
      simpa using different
    simp only [Coordinator.unfinished, changed, inFlight, List.filter_append, List.filter_cons,
      others _ absent.1.1, others _ absent.1.2, List.map_append]
    simp [Phase.isUnfinished]
  case apart => exact consistent.apart.filter _
  case gated =>
    intro entry member
    obtain ⟨inside, about⟩ := consistent.gated entry member
    have different : entry.1 ≠ task.path := by
      intro same
      have missing := List.lookup_eq_none_iff.mp nothing entry member
      simp [same] at missing
    exact ⟨List.mem_filter.mpr ⟨inside, by simpa using different⟩, about⟩
  case single => exact consistent.single
  case collected =>
    intro other member mark
    rcases mem_setPhase state number task other .ended consistent.distinct found member with
      rfl | ⟨inside, different⟩
    · rfl
    · have earlier : .collector other.number ∈ state.ready := by
        simpa [different] using mark
      exact consistent.collected other inside earlier
  case known =>
    intro other mark
    rcases List.mem_append.mp mark with earlier | new
    · exact consistent.known other earlier
    · obtain rfl : other = number := by simpa using new
      exact consistent.used other (by simp [Coordinator.numbers, cut, named])

/-- Forgetting what is kept for a path keeps the parts of the state in agreement. -/
theorem Consistent.forget {state : Coordinator} (consistent : Consistent state) (path : Path) :
    Consistent { state with pending := state.pending.filter fun entry => entry.1 ≠ path } where
  distinct := consistent.distinct
  used := consistent.used
  own := consistent.own
  tracked := consistent.tracked
  apart := consistent.apart
  gated := fun entry member => consistent.gated entry (List.mem_of_mem_filter member)
  single := consistent.single.sublist (List.filter_sublist.map _)
  collected := consistent.collected
  known := consistent.known

/-- Going on with the event that came during a rebuild, or ending the task, keeps the parts of the
state in agreement. -/
theorem Consistent.goOn {state : Coordinator} (consistent : Consistent state) {task : Task}
    (found : state.task? task.number = some task) (left : task.phase.isUnfinished) :
    Consistent (state.goOn task) := by
  unfold Coordinator.goOn
  split
  · rename_i event kept
    have entry : (task.path, event) ∈ state.pending := by
      obtain ⟨before, after, cut, -⟩ := List.lookup_eq_some_iff.mp kept
      simp [cut]
    have own : event.path = task.path := (consistent.gated _ entry).2
    exact (consistent.forget task.path).acquire found left own
  · rename_i nothing
    exact consistent.finish found left nothing

/-- The move of a task keeps the parts of the state in agreement. -/
theorem Consistent.resume {state : Coordinator} (consistent : Consistent state) (number : Nat) :
    Consistent (state.resume number) := by
  unfold Coordinator.resume
  split
  · exact consistent
  · rename_i task found
    have own {event : WatchEvent} (about : task.phase.event? = some event) :
        event.path = task.path := consistent.event_path found about
    split
    · rename_i event phase
      exact consistent.acquire found (by simp [phase, Phase.isUnfinished])
        (own (by simp [phase, Phase.event?]))
    · rename_i event phase
      have left := consistent.leave number
      have open_ : task.phase.isUnfinished := by simp [phase, Phase.isUnfinished]
      have path : event.path = task.path := own (by simp [phase, Phase.event?])
      dsimp only
      split
      · exact left.grant.start (task?_grant _ found (by simp [phase])) open_ path
      · exact left.start found open_ path
    · rename_i event failure phase
      have noted := consistent.note event failure
      obtain rfl : task.number = number := (task?_mem state number task found).2
      have present : (state.note event failure).release.task? task.number = some task :=
        task?_release (state.note event failure) found (by simp [phase])
      exact noted.release.goOn present (by simp [phase, Phase.isUnfinished])
    all_goals exact consistent

/-- Taking a task off the list that has ended keeps the parts of the state in agreement. -/
theorem Consistent.collect {state : Coordinator} (consistent : Consistent state) (number : Nat)
    (ended : ∀ task ∈ state.tasks, task.number = number → task.phase = .ended) :
    Consistent (state.collect number) := by
  have fewer : Consistent { state with
      tasks := state.tasks.filter fun task => task.number ≠ number } := by
    constructor
    case distinct => exact consistent.distinct.sublist (List.filter_sublist.map _)
    case used =>
      intro other member
      obtain ⟨task, inside, rfl⟩ := List.mem_map.mp member
      exact consistent.used task.number
        (List.mem_map.mpr ⟨task, List.mem_of_mem_filter inside, rfl⟩)
    case own => exact fun task member => consistent.own task (List.mem_of_mem_filter member)
    case tracked =>
      rw [consistent.tracked]
      simp only [unfinished, List.filter_filter]
      congr 1
      apply List.filter_congr
      intro task member
      by_cases named : task.number = number
      · simp [ended task member named, Phase.isUnfinished]
      · simp [named]
    case apart => exact consistent.apart
    case gated => exact consistent.gated
    case single => exact consistent.single
    case collected =>
      exact fun task member => consistent.collected task (List.mem_of_mem_filter member)
    case known => exact consistent.known
  unfold Coordinator.collect
  dsimp only
  split
  · refine fewer.of_same rfl rfl rfl rfl ?_
    intro other mark
    split at mark
    · simpa using mark
    · exact mark
  · exact fewer.of_same rfl rfl rfl rfl fun _ mark => mark

/-! ### Operations of the dispatcher -/

/-- Dispatching an event keeps the parts of the state in agreement. -/
theorem Consistent.dispatch {state : Coordinator} (consistent : Consistent state)
    (event : WatchEvent) : Consistent (state.dispatch event) := by
  unfold Coordinator.dispatch
  split
  · rename_i busy
    constructor
    case distinct => exact consistent.distinct
    case used => exact consistent.used
    case own => exact consistent.own
    case tracked => exact consistent.tracked
    case apart => exact consistent.apart
    case gated =>
      intro entry member
      rcases List.mem_append.mp member with old | new
      · exact consistent.gated entry (List.mem_of_mem_filter old)
      · obtain rfl := List.mem_singleton.mp new
        exact ⟨busy, rfl⟩
    case single =>
      rw [List.map_append, List.nodup_append]
      refine ⟨consistent.single.sublist (List.filter_sublist.map _), by simp, ?_⟩
      intro path old other new
      obtain ⟨entry, inside, rfl⟩ := List.mem_map.mp old
      have different : entry.1 ≠ event.path := by simpa using (List.mem_filter.mp inside).2
      simp only [List.map_cons, List.map_nil, List.mem_singleton] at new
      exact new ▸ different
    case collected => exact consistent.collected
    case known => exact consistent.known
  · rename_i idle
    have new : state.next ∉ state.numbers := by
      intro known
      exact Nat.lt_irrefl state.next (consistent.used state.next known)
    constructor
    case distinct =>
      simp only [numbers, List.map_append, List.map_cons, List.map_nil]
      exact List.nodup_append.mpr ⟨consistent.distinct, by simp, by
        intro number known other fresh same
        simp only [List.mem_singleton] at fresh
        exact new (fresh ▸ same ▸ known)⟩
    case used =>
      intro number member
      simp only [numbers, List.map_append, List.map_cons, List.map_nil, List.mem_append,
        List.mem_singleton] at member
      rcases member with old | rfl
      · exact Nat.lt_succ_of_lt (consistent.used number old)
      · exact Nat.lt_succ_self _
    case own =>
      intro task member
      rcases List.mem_append.mp member with old | added
      · exact consistent.own task old
      · obtain rfl := List.mem_singleton.mp added
        simp [Phase.event?]
    case tracked =>
      simp only [unfinished, List.filter_append, List.map_append]
      rw [consistent.tracked]
      simp [unfinished, Phase.isUnfinished]
    case apart =>
      exact List.nodup_append.mpr ⟨consistent.apart, by simp, by
        intro path known other fresh same
        simp only [List.mem_singleton] at fresh
        exact idle (fresh ▸ same ▸ known)⟩
    case gated =>
      intro entry member
      obtain ⟨inside, about⟩ := consistent.gated entry member
      exact ⟨List.mem_append_left _ inside, about⟩
    case single => exact consistent.single
    case collected =>
      intro task member mark
      have earlier : .collector task.number ∈ state.ready := by simpa using mark
      rcases List.mem_append.mp member with old | added
      · exact consistent.collected task old earlier
      · obtain rfl := List.mem_singleton.mp added
        exact absurd (consistent.known state.next earlier) (Nat.lt_irrefl state.next)
    case known =>
      intro number mark
      exact Nat.lt_succ_of_lt (consistent.known number (by simpa using mark))

/-- Dealing with all orders that are queued keeps the parts of the state in agreement. -/
theorem Consistent.dispatchAll {state : Coordinator} (consistent : Consistent state)
    (orders : List Order) : Consistent (state.dispatchAll orders) := by
  induction orders generalizing state with
  | nil => exact consistent.of_same rfl rfl rfl rfl fun _ mark => mark
  | cons order rest inductionHypothesis =>
    cases order with
    | rebuild event => exact inductionHypothesis (consistent.dispatch event)
    | stop => exact consistent.of_same rfl rfl rfl rfl fun _ mark => mark

/-- The move of the dispatcher keeps the parts of the state in agreement. -/
theorem Consistent.serve {state : Coordinator} (consistent : Consistent state) :
    Consistent state.serve := by
  unfold Coordinator.serve
  split
  · exact consistent.dispatchAll state.queue
  · exact consistent.of_same rfl rfl rfl rfl fun _ mark => mark
  · exact consistent
  · exact consistent

/-- Queueing an order keeps the parts of the state in agreement. -/
theorem Consistent.put {state : Coordinator} (consistent : Consistent state) (order : Order) :
    Consistent (state.put order) := by
  unfold Coordinator.put
  dsimp only
  split
  · exact consistent.of_same rfl rfl rfl rfl fun _ mark => by simpa using mark
  · exact consistent.of_same rfl rfl rfl rfl fun _ mark => mark

/-- A rebuild that ends is the one under way on that path; its task goes on to notice the end. -/
theorem finish?_cases {state ended : Coordinator} {path : Path} {failure : Option String}
    (finished : state.finish? path failure = some ended) :
    ∃ task event, task ∈ state.tasks ∧ task.path = path ∧ task.phase = .running event ∧
      ended = { state.setPhase task.number (.ending event failure) with
        ready := state.ready ++ [.task task.number] } := by
  unfold finish? at finished
  cases found : state.runningOn? path with
  | none => simp [found] at finished
  | some place =>
    obtain ⟨number, event⟩ := place
    obtain ⟨task, member, answered⟩ := List.exists_of_findSome?_eq_some found
    have ended_eq := Option.some.inj ((by simpa [found] using finished) :
      some { state.setPhase number (.ending event failure) with
        ready := (state.setPhase number (.ending event failure)).ready ++ [.task number] } =
      some ended)
    cases phase : task.phase with
    | running current =>
      simp only [phase] at answered
      split at answered
      · rename_i same
        simp only [Option.some.injEq, Prod.mk.injEq] at answered
        obtain ⟨rfl, rfl⟩ := answered
        exact ⟨task, current, member, same, phase, ended_eq.symm⟩
      · cases answered
    | _ => simp [phase] at answered

/-- Taking a mover off those that are able to move keeps the parts of the state in agreement. -/
theorem Consistent.takeOff {state : Coordinator} (consistent : Consistent state)
    {earlier later : List Mover} {mover : Mover} (able : state.ready = earlier ++ mover :: later) :
    Consistent { state with ready := earlier ++ later } := by
  refine consistent.of_same rfl rfl rfl rfl ?_
  intro number mark
  rw [able]
  rcases List.mem_append.mp mark with before | after
  · exact List.mem_append_left _ before
  · exact List.mem_append_right _ (List.mem_cons_of_mem _ after)

/-- Every step keeps the parts of the state in agreement. -/
theorem Consistent.step {state final : Coordinator} {occurrence : Occurrence}
    (consistent : Consistent state) (step : Step state occurrence final) : Consistent final := by
  cases step with
  | submit event => exact consistent.put (.rebuild event)
  | stop => exact consistent.put .stop
  | move earlier later mover able =>
    have taken := consistent.takeOff able
    cases mover with
    | dispatcher => exact taken.serve
    | task number => exact taken.resume number
    | collector number =>
      apply taken.collect number
      rintro task member rfl
      exact consistent.collected task member (by simp [able])
  | finish _ path failure finished =>
    obtain ⟨task, event, member, rfl, phase, rfl⟩ := finish?_cases finished
    have own : event.path = task.path := consistent.own task member event (by simp [phase, Phase.event?])
    have found := task?_of_mem state task consistent.distinct member
    exact (consistent.setPhase found (.ending event failure) (by simp [phase, Phase.isUnfinished]) rfl
      (by simpa [Phase.event?] using own)).of_same rfl rfl rfl rfl fun number mark => by
        simpa [Coordinator.setPhase] using mark
  | await => exact consistent.of_same rfl rfl rfl rfl fun _ mark => mark
  | look place => exact consistent.of_same rfl rfl rfl rfl fun _ mark => mark

end TreeBuild.Coordinator
