import Mathlib.Tactic.NormNum
import TreeBuild.Proofs.Coordinator.Consistency

/-!
# Slots, and what a run excludes

A rebuild needs a slot, and a slot is free, given to a task that has yet to start, or held by a rebuild
until its task moves again. Within one move of a task a slot can be counted twice for a moment, so each
operation has a law about the sum of the free slots and the taken ones, with what the task itself gives
up as its third term. Over a whole step the sum stays what it is.

That no more rebuilds are under way than there are slots, and no two of one path, is then read off the
invariants of a run.
-/
namespace TreeBuild.Coordinator

/-- No slot is lost and none is made. -/
def Balanced (state : Coordinator) : Prop :=
  state.free + state.taken = state.slots

/-- Giving away a free slot keeps the sum of the free slots and the taken ones. -/
theorem grant_sum {state : Coordinator} (consistent : Consistent state) (free : 0 < state.free) :
    state.grant.free + state.grant.taken = state.free + state.taken := by
  rcases grant_cases state with same | ⟨number, event, task, found, waits, given⟩
  · rw [same]
  · have sum := taken_setPhase state number task (.granted event) consistent.distinct found
    rw [waits] at sum
    have moved : state.grant.taken = (state.setPhase number (.granted event)).taken := by
      rw [given]
      rfl
    rw [moved]
    simp only [given, Phase.slots] at sum ⊢
    omega

/-- Giving a slot back adds one to the sum of the free slots and the taken ones. -/
theorem release_sum {state : Coordinator} (consistent : Consistent state) :
    state.release.free + state.release.taken = state.free + state.taken + 1 := by
  have more := consistent.free (state.free + 1)
  have sum := grant_sum more (Nat.succ_pos state.free)
  change _ = state.free + 1 + state.taken at sum
  rw [release, sum]
  omega

/-- A task that asks for a slot gives up the one it has, and either takes a free one or has none. -/
theorem acquire_sum {state : Coordinator} (consistent : Consistent state) {number : Nat} {task : Task}
    (found : state.task? number = some task) (event : WatchEvent) :
    (state.acquire number event).free + (state.acquire number event).taken + task.phase.slots =
      state.free + state.taken := by
  have running := taken_setPhase state number task (.running event) consistent.distinct found
  have waiting := taken_setPhase state number task (.waiting event) consistent.distinct found
  unfold Coordinator.acquire
  split
  · rename_i available
    change state.free - 1 + (state.setPhase number (.running event)).taken + _ = _
    simp only [Phase.slots] at running ⊢
    omega
  · change state.free + (state.setPhase number (.waiting event)).taken + _ = _
    simp only [Phase.slots] at waiting ⊢
    omega

/-- A task that goes on or ends gives up the slot it has, except for one that it takes at once. -/
theorem goOn_sum {state : Coordinator} (consistent : Consistent state) {task : Task}
    (found : state.task? task.number = some task) :
    (state.goOn task).free + (state.goOn task).taken + task.phase.slots =
      state.free + state.taken := by
  unfold Coordinator.goOn
  split
  · rename_i event kept
    exact acquire_sum (consistent.forget task.path) found event
  · have ended := taken_setPhase state task.number task .ended consistent.distinct found
    change state.free + (state.setPhase task.number .ended).taken + _ = _
    simp only [Phase.slots] at ended ⊢
    omega

/-- The move of a task keeps all slots. -/
theorem resume_sum {state : Coordinator} (consistent : Consistent state) (number : Nat) :
    (state.resume number).free + (state.resume number).taken = state.free + state.taken := by
  unfold Coordinator.resume
  split
  · rfl
  · rename_i task found
    split
    · rename_i event phase
      simpa [phase, Phase.slots] using acquire_sum consistent found event
    · rename_i event phase
      have left := consistent.leave number
      have started {other : Coordinator} (sound : Consistent other)
          (present : other.task? number = some task) :
          (other.start number event).free + (other.start number event).taken =
            other.free + other.taken := by
        have sum := taken_setPhase other number task (.running event) sound.distinct present
        change other.free + (other.setPhase number (.running event)).taken = _
        simp only [phase, Phase.slots] at sum ⊢
        omega
      dsimp only
      split
      · rename_i available
        rw [started left.grant (task?_grant _ found (by simp [phase])), grant_sum left available]
        rfl
      · rw [started left found]
        rfl
    · rename_i event failure phase
      have noted := consistent.note event failure
      obtain rfl : task.number = number := (task?_mem state number task found).2
      have present : (state.note event failure).release.task? task.number = some task :=
        task?_release (state.note event failure) found (by simp [phase])
      have onward := goOn_sum noted.release present
      have returned : (state.note event failure).release.free +
          (state.note event failure).release.taken = state.free + state.taken + 1 := by
        rw [release_sum noted]
        rfl
      simp only [phase, Phase.slots] at onward
      omega
    all_goals rfl

/-- A task that has ended has no slot, so taking it off the list changes no sum. -/
theorem collect_sum (state : Coordinator) (number : Nat)
    (ended : ∀ task ∈ state.tasks, task.number = number → task.phase = .ended) :
    (state.collect number).free + (state.collect number).taken = state.free + state.taken := by
  have tasks : (state.collect number).tasks =
      state.tasks.filter fun task => task.number ≠ number := by
    unfold collect
    split <;> rfl
  have free : (state.collect number).free = state.free := by
    unfold collect
    split <;> rfl
  simp only [taken, tasks, free, sum_without Phase.slots rfl number state.tasks ended]

/-- Dispatching an event takes no slot. -/
theorem dispatch_sum (state : Coordinator) (event : WatchEvent) :
    (state.dispatch event).free = state.free ∧ (state.dispatch event).taken = state.taken := by
  unfold dispatch
  split
  · exact ⟨rfl, rfl⟩
  · simp [taken, Phase.slots]

/-- Dealing with the orders that are queued takes no slot. -/
theorem dispatchAll_sum (state : Coordinator) (orders : List Order) :
    (state.dispatchAll orders).free = state.free ∧
      (state.dispatchAll orders).taken = state.taken := by
  induction orders generalizing state with
  | nil => exact ⟨rfl, rfl⟩
  | cons order rest inductionHypothesis =>
    cases order with
    | rebuild event =>
      obtain ⟨free, taken⟩ := inductionHypothesis (state.dispatch event)
      obtain ⟨freeBefore, takenBefore⟩ := dispatch_sum state event
      exact ⟨free.trans freeBefore, taken.trans takenBefore⟩
    | stop => exact ⟨rfl, rfl⟩

/-- No operation changes how many slots there are. -/
theorem slots_dispatchAll (state : Coordinator) (orders : List Order) :
    (state.dispatchAll orders).slots = state.slots := by
  induction orders generalizing state with
  | nil => rfl
  | cons order rest inductionHypothesis =>
    cases order with
    | rebuild event =>
      refine (inductionHypothesis (state.dispatch event)).trans ?_
      unfold dispatch
      split <;> rfl
    | stop => rfl

/-- Asking for a slot neither makes nor loses one. -/
theorem slots_acquire (state : Coordinator) (number : Nat) (event : WatchEvent) :
    (state.acquire number event).slots = state.slots := by
  unfold acquire
  split <;> rfl

/-- Giving a slot away neither makes nor loses one. -/
theorem slots_grant (state : Coordinator) : state.grant.slots = state.slots := by
  unfold grant
  split <;> rfl

/-- A task that is resumed neither makes nor loses a slot. -/
theorem slots_resume (state : Coordinator) (number : Nat) :
    (state.resume number).slots = state.slots := by
  unfold resume
  split
  · rfl
  · rename_i task found
    split
    · exact slots_acquire state number _
    · dsimp only
      split
      · exact slots_grant _
      · rfl
    · rename_i event failure phase
      have returned : (state.note event failure).release.slots = state.slots := slots_grant _
      refine Eq.trans ?_ returned
      unfold goOn
      split
      · exact slots_acquire _ _ _
      · rfl
    all_goals rfl

/-- Whoever moves, the slots stay as many as they are. -/
theorem slots_perform (state : Coordinator) (mover : Mover) :
    (state.perform mover).slots = state.slots := by
  cases mover with
  | dispatcher =>
    simp only [perform, serve]
    split
    · exact slots_dispatchAll state state.queue
    all_goals rfl
  | task number => exact slots_resume state number
  | collector number =>
    simp only [perform, collect]
    split <;> rfl

/-- No step changes how many slots there are. -/
theorem Step.slots {state final : Coordinator} {occurrence : Occurrence}
    (step : Step state occurrence final) : final.slots = state.slots := by
  cases step with
  | submit event =>
    unfold Coordinator.submit put
    dsimp only
    split <;> rfl
  | stop =>
    unfold Coordinator.stop put
    dsimp only
    split <;> rfl
  | move earlier later mover able => exact slots_perform _ mover
  | finish _ path failure finished =>
    obtain ⟨task, event, -, -, -, rfl⟩ := finish?_cases finished
    rfl
  | await => rfl
  | look place => rfl

/-- Every step keeps all slots. -/
theorem Balanced.step {state final : Coordinator} {occurrence : Occurrence}
    (balanced : Balanced state) (consistent : Consistent state)
    (step : Step state occurrence final) : Balanced final := by
  have slots : final.slots = state.slots := step.slots
  have sum : final.free + final.taken = state.free + state.taken := by
    cases step with
    | submit event =>
      unfold Coordinator.submit put
      dsimp only
      split <;> rfl
    | stop =>
      unfold Coordinator.stop put
      dsimp only
      split <;> rfl
    | move earlier later mover able =>
      cases mover with
      | dispatcher =>
        simp only [perform, serve]
        split
        · obtain ⟨free, taken⟩ := dispatchAll_sum { state with ready := earlier ++ later } state.queue
          rw [free, taken]
          rfl
        all_goals rfl
      | task number =>
        exact resume_sum (consistent.takeOff able) number
      | collector number =>
        apply collect_sum { state with ready := earlier ++ later }
        rintro task member rfl
        exact consistent.collected task member (by simp [able])
    | finish _ path failure finished =>
      obtain ⟨task, event, member, -, phase, rfl⟩ := finish?_cases finished
      have found := task?_of_mem state task consistent.distinct member
      have same := taken_setPhase state task.number task (.ending event failure)
        consistent.distinct found
      change state.free + (state.setPhase task.number (.ending event failure)).taken = _
      simp only [phase, Phase.slots] at same
      omega
    | await => rfl
    | look place => rfl
  rw [Balanced, sum, slots]
  exact balanced

/-! ### Runs -/

/-- After any run the parts of the state fit together and all slots are there. -/
theorem Run.sound {limit : Int} {past : List Occurrence} {state : Coordinator}
    (run : Run (ofLimit limit) past state) : Consistent state ∧ Balanced state :=
  @Run.preserves (fun state => Consistent state ∧ Balanced state)
    (fun _ _ _ step sound => ⟨sound.1.step step, sound.2.step sound.1 step⟩) _ _ _ run
    ⟨ofLimit_consistent limit, rfl⟩

/-- After any run there are as many slots as the limit allows, but at least one. -/
theorem Run.slots {limit : Int} {past : List Occurrence} {state : Coordinator}
    (run : Run (ofLimit limit) past state) : (state.slots : Int) = max 1 limit := by
  have start : ((ofLimit limit).slots : Int) = max 1 limit := by
    have positive : 0 ≤ max 1 limit := le_trans (by decide) (le_max_left 1 limit)
    exact Int.toNat_of_nonneg positive
  exact @Run.preserves (fun state => (state.slots : Int) = max 1 limit)
    (fun _ _ _ step same => step.slots ▸ same) _ _ _ run start

/-- Every rebuild that is under way has a slot. -/
theorem running_le_taken (state : Coordinator) :
    state.tasks.countP (·.phase.isRunning) ≤ state.taken := by
  have bound (tasks : List Task) :
      tasks.countP (·.phase.isRunning) ≤ (tasks.map (·.phase.slots)).sum := by
    induction tasks with
    | nil => exact Nat.le_refl 0
    | cons task rest inductionHypothesis =>
      have single : (if task.phase.isRunning then 1 else 0) ≤ task.phase.slots := by
        cases task.phase <;> simp [Phase.isRunning, Phase.slots]
      rw [List.countP_cons, List.map_cons, List.sum_cons]
      omega
  exact bound state.tasks

/-- Of several tasks of one path at most one is unfinished. -/
theorem Consistent.unfinished_on {state : Coordinator} (consistent : Consistent state) (path : Path) :
    state.tasks.countP (fun task => task.path = path ∧ task.phase.isUnfinished) ≤ 1 := by
  have counted : state.tasks.countP (fun task => task.path = path ∧ task.phase.isUnfinished) =
      state.inFlight.count path := by
    rw [consistent.tracked, unfinished, List.count, List.countP_map, List.countP_filter]
    apply List.countP_congr
    intro task _
    simp
  rw [counted]
  exact List.nodup_iff_count_le_one.mp consistent.apart path

/-- Whatever the limit and in whatever order events and orders to stop arrive, the dispatcher and the
tasks move, and rebuilds end or fail: no path has two unfinished tasks or two rebuilds under way, no
more rebuilds are under way than the limit allows (one, if it allows none), the paths in flight are
those of the unfinished tasks, and every event that is kept is kept for its own path, which is in
flight. -/
theorem run_excludes_and_represents (limit : Int) (past : List Occurrence) (state : Coordinator)
    (run : Run (ofLimit limit) past state) :
    (∀ path, state.tasks.countP (fun task => task.path = path ∧ task.phase.isUnfinished) ≤ 1 ∧
      state.tasks.countP (fun task => task.path = path ∧ task.phase.isRunning) ≤ 1) ∧
    (state.tasks.countP (·.phase.isRunning) : Int) ≤ max 1 limit ∧
    (∀ path, path ∈ state.inFlight ↔
      ∃ task ∈ state.tasks, task.path = path ∧ task.phase.isUnfinished) ∧
    ∀ entry ∈ state.pending, entry.1 ∈ state.inFlight ∧ entry.2.path = entry.1 := by
  obtain ⟨consistent, balanced⟩ := run.sound
  refine ⟨fun path => ⟨consistent.unfinished_on path, ?_⟩, ?_, ?_, consistent.gated⟩
  · refine le_trans (List.countP_mono_left ?_) (consistent.unfinished_on path)
    intro task _ running
    have parts : task.path = path ∧ task.phase.isRunning := by simpa using running
    have left : task.phase.isUnfinished := by
      cases phase : task.phase <;> simp [phase, Phase.isRunning] at parts
      rfl
    simpa using And.intro parts.1 left
  · have bound : state.tasks.countP (·.phase.isRunning) ≤ state.slots := by
      have total : state.free + state.taken = state.slots := balanced
      have running := running_le_taken state
      omega
    rw [← run.slots]
    exact_mod_cast bound
  · intro path
    rw [consistent.tracked]
    simp only [unfinished, List.mem_map, List.mem_filter]
    constructor
    · rintro ⟨task, ⟨member, left⟩, same⟩
      exact ⟨task, member, same, left⟩
    · rintro ⟨task, member, same, left⟩
      exact ⟨task, ⟨member, left⟩, same⟩

/-- With a limit of zero one of two paths is built and the other waits for the slot, while a second
event of the first is kept. -/
theorem run_excludes_and_represents_of_zero :
    let first : Path := ⟨.root, ["a"]⟩
    let second : Path := ⟨.root, ["b"]⟩
    let added (path : Path) : WatchEvent := { path, kind := .added }
    let past : List Occurrence :=
      [.submitted (added first), .submitted (added second), .submitted (added first),
       .moved .dispatcher, .moved (.task 0), .moved (.task 1), .stopped]
    ∃ state, Run (ofLimit 0) past state ∧ state.inFlight = [first, second] ∧
      state.pending = [(first, added first)] ∧ state.tasks.countP (·.phase.isRunning) = 1 ∧
      (state.tasks.countP (·.phase.isRunning) : Int) ≤ max 1 0 ∧
      ∃ task ∈ state.tasks, task.path = second ∧ task.phase.isUnfinished := by
  intro first second added past
  have possible : ((ofLimit 0).replay? past).isSome := by decide +kernel
  obtain ⟨state, computed⟩ := Option.isSome_iff_exists.mp possible
  have run : Run (ofLimit 0) past state := .of_replay? computed
  have reached : ∀ state ∈ (ofLimit 0).replay? past, state.inFlight = [first, second] ∧
      state.pending = [(first, added first)] ∧
      state.tasks.countP (·.phase.isRunning) = 1 := by decide +kernel
  obtain ⟨inFlight, pending, running⟩ := reached state computed
  obtain ⟨-, bound, tracked, -⟩ := run_excludes_and_represents 0 past state run
  have second_inFlight : second ∈ state.inFlight := by simp [inFlight]
  exact ⟨state, run, inFlight, pending, running, bound, (tracked second).mp second_inFlight⟩

end TreeBuild.Coordinator
