import TreeBuild.Proofs.Coordinator.Turns

/-!
# Slots are used, and no path is overtaken twice

If nothing is left that is able to move, every task that is unfinished either waits for a slot or has its
rebuild under way, and the first in the line would have been given a slot if there were a free one. So as
many rebuilds are under way as the slots and the paths in flight allow.

Who waits for a slot is overtaken by those ahead of it in the line only. The line grows at its end and loses
nobody but its first, who starts a rebuild. So for every other path, what has been started and what
stands ahead stay in balance, and of tasks of one path at most one is unfinished.
-/
namespace TreeBuild.Coordinator

/-- The path of the task of a number. -/
def path? (state : Coordinator) (number : Nat) : Option Path := (state.task? number).map (·.path)

section

variable {state middle final : Coordinator} {occurrence : Occurrence} {past : List Occurrence}
  {number : Nat} {task : Task} {event : WatchEvent} {path other : Path}

/-! ### Slots are used -/

/-- Who stands in the line has an unfinished task. -/
theorem InLine.unfinished_of_mem (inLine : state.InLine state.phase?) (member : number ∈ state.line) :
    ∃ task, state.task? number = some task ∧ task.phase.isUnfinished := by
  obtain ⟨waiting, lined, line⟩ := inLine.stands
  have known : (state.phase? number).any Phase.isGranted ∨ (state.phase? number).any Phase.isWaiting := by
    rcases List.mem_append.mp (line ▸ member) with front | waits
    · exact .inl (List.mem_filter.mp front).2
    · exact .inr ((lined.waiting_iff number).mp waits)
  cases found : state.task? number with
  | none => simp [phase?, found] at known
  | some task =>
    refine ⟨task, rfl, ?_⟩
    rw [phase?_of_found found] at known
    cases phase : task.phase <;> simp_all [Phase.isGranted, Phase.isWaiting, Phase.isUnfinished]

/-- If nothing is able to move, every task waits, has its rebuild under way or has ended. -/
theorem InLine.phase_of_quiet (inLine : state.InLine state.phase?) (consistent : Consistent state)
    (quiet : state.ready = []) (member : task ∈ state.tasks) :
    task.phase.isWaiting ∧ task.number ∈ state.line ∨ task.phase.isRunning ∨ task.phase = .ended := by
  obtain ⟨waiting, lined, line⟩ := inLine.stands
  have known := phase?_of_found (task?_of_mem state task consistent.distinct member)
  have nobody : state.able = [] := by rw [able, quiet]; rfl
  have notAble : task.phase.isAble = false := by
    have absent := (lined.able_iff task.number).not.mp (by simp [nobody])
    simpa [known] using absent
  cases phase : task.phase with
  | waiting event =>
    have waits := (lined.waiting_iff task.number).mpr (by simp [known, phase, Phase.isWaiting])
    exact .inl ⟨rfl, by simp [line, waits]⟩
  | running event => exact .inr (.inl rfl)
  | ended => exact .inr (.inr rfl)
  | fresh => simp [phase, Phase.isAble] at notAble
  | granted => simp [phase, Phase.isAble] at notAble
  | ending => simp [phase, Phase.isAble] at notAble

/-- If nothing is able to move and a slot is free, nobody stands in the line. -/
theorem InLine.line_of_quiet (inLine : state.InLine state.phase?) (quiet : state.ready = [])
    (free : 0 < state.free) : state.line = [] := by
  obtain ⟨waiting, lined, -⟩ := inLine.stands
  have nobody : state.able = [] := by rw [able, quiet]; rfl
  by_contra busy
  obtain ⟨first, rest, line⟩ := List.exists_cons_of_ne_nil busy
  have given := inLine.served free first (by simp [line])
  have absent := (lined.able_iff first).not.mp (by simp [nobody])
  cases known : state.phase? first with
  | none => simp [known] at given
  | some phase => cases phase <;> simp_all [Phase.isGranted, Phase.isAble]

/-- If only rebuilds that are under way have slots, there are as many of these as slots are taken. -/
theorem taken_eq_countP
    (weight : ∀ task ∈ state.tasks, task.phase.slots = if task.phase.isRunning then 1 else 0) :
    state.taken = state.tasks.countP (·.phase.isRunning) := by
  unfold taken
  generalize state.tasks = tasks at weight
  induction tasks with
  | nil => rfl
  | cons task rest inductionHypothesis =>
    rw [List.map_cons, List.sum_cons, List.countP_cons, weight task List.mem_cons_self,
      inductionHypothesis fun other member => weight other (List.mem_cons_of_mem task member), Nat.add_comm]

/-- If nothing is able to move, all slots are in use or every path in flight is being rebuilt. -/
theorem InLine.running_of_quiet (inLine : state.InLine state.phase?) (consistent : Consistent state)
    (balanced : Balanced state) (quiet : state.ready = []) :
    state.tasks.countP (·.phase.isRunning) = min state.slots state.inFlight.length := by
  have taken : state.taken = state.tasks.countP (·.phase.isRunning) := by
    refine taken_eq_countP fun task member => ?_
    rcases inLine.phase_of_quiet consistent quiet member with ⟨waits, -⟩ | runs | ended <;>
      cases phase : task.phase <;> simp_all [Phase.isWaiting, Phase.isRunning, Phase.slots]
  have inFlight : state.inFlight.length = state.tasks.countP (·.phase.isUnfinished) := by
    rw [consistent.tracked, unfinished, List.length_map, List.countP_eq_length_filter]
  have fewer : state.tasks.countP (·.phase.isRunning) ≤ state.tasks.countP (·.phase.isUnfinished) := by
    refine List.countP_mono_left fun task _ runs => ?_
    cases phase : task.phase <;> simp_all [Phase.isRunning, Phase.isUnfinished]
  have total : state.free + state.taken = state.slots := balanced
  by_cases free : 0 < state.free
  · -- Nobody waits, so every unfinished task has its rebuild under way.
    have nobody := inLine.line_of_quiet quiet free
    have all : state.tasks.countP (·.phase.isUnfinished) = state.tasks.countP (·.phase.isRunning) := by
      refine List.countP_congr fun task member => ?_
      rcases inLine.phase_of_quiet consistent quiet member with ⟨-, waits⟩ | runs | ended
      · simp [nobody] at waits
      · cases phase : task.phase <;> simp_all [Phase.isRunning, Phase.isUnfinished]
      · simp [ended, Phase.isRunning, Phase.isUnfinished]
    omega
  · omega

/-! ### What happens to the line -/

/-- Nobody leaves the line and no rebuild starts. -/
structure Queues (state final : Coordinator) : Prop where
  line : ∃ joined, final.line = state.line ++ joined
  started : final.started = state.started
  named : ∀ number ∈ state.line, ∀ path, state.path? number = some path → final.path? number = some path

/-- The first in the line leaves it and starts its rebuild. -/
structure Serves (state final : Coordinator) : Prop where
  started : ∃ first event, state.line = first :: final.line ∧ state.path? first = some event.path ∧
    final.started = state.started ++ [event]
  named : ∀ number ∈ final.line, ∀ path, state.path? number = some path → final.path? number = some path

/-- What a task does leaves its path as it is. -/
theorem path?_setPhase (state : Coordinator) (number another : Nat) (phase : Phase) :
    (state.setPhase number phase).path? another = state.path? another := by
  have tested : ((fun task : Task => decide (task.number = another)) ∘ fun task =>
      if task.number = number then { task with phase } else task) =
        fun task => decide (task.number = another) := by
    funext task
    by_cases same : task.number = number <;> simp [same]
  unfold path? task? setPhase
  rw [List.find?_map, tested, Option.map_map]
  congr 1
  funext task
  by_cases same : task.number = number <;> simp [same]

/-- A task that is found has its path. -/
theorem path?_of_found (found : state.task? number = some task) : state.path? number = some task.path := by
  rw [path?, found]
  rfl

/-- What changes neither the line nor the history leaves everybody in it, if the tasks keep their paths. -/
theorem Queues.of_same (line : final.line = state.line) (history : final.history = state.history)
    (named : ∀ number, final.path? number = state.path? number) : Queues state final where
  line := ⟨[], by rw [line, List.append_nil]⟩
  started := by rw [Coordinator.started, Coordinator.started, history]
  named number _ path known := (named number).trans known

/-- Nobody leaves the line in two parts if nobody does in either. -/
theorem Queues.trans (first : Queues state middle) (second : Queues middle final) : Queues state final where
  line := by
    obtain ⟨joined, line⟩ := first.line
    obtain ⟨more, longer⟩ := second.line
    exact ⟨joined ++ more, by rw [longer, line, List.append_assoc]⟩
  started := second.started.trans first.started
  named number member path known := by
    obtain ⟨joined, line⟩ := first.line
    exact second.named number (by simp [line, member]) path (first.named number member path known)

/-- Giving a slot away takes nobody out of the line. -/
theorem Queues.grant (state : Coordinator) : Queues state state.grant := by
  rcases grant_cases state with same | ⟨number, event, task, -, -, given⟩
  · rw [same]
    exact .of_same rfl rfl fun _ => rfl
  · rw [given]
    exact .of_same rfl rfl fun another => path?_setPhase state number another (.granted event)

/-- While somebody stands in the line, who asks for a slot joins the line. -/
theorem Queues.acquire (busy : state.line ≠ []) (number : Nat) (event : WatchEvent) :
    Queues state (state.acquire number event) := by
  unfold Coordinator.acquire
  rw [if_neg fun free => busy free.2]
  exact ⟨⟨[number], rfl⟩, rfl, fun another _ path known =>
    (path?_setPhase state number another (.waiting event)).trans known⟩

/-- A task that goes on puts itself at the end of the line at most. -/
theorem Queues.goOn (busy : state.line ≠ []) (task : Task) : Queues state (state.goOn task) := by
  unfold Coordinator.goOn
  split
  · have forgotten : Queues state
        { state with pending := state.pending.filter fun entry => entry.1 ≠ task.path } :=
      .of_same rfl rfl fun _ => rfl
    exact forgotten.trans (Queues.acquire (by exact busy) task.number _)
  · exact .of_same rfl rfl fun another => path?_setPhase state task.number another .ended

/-- Noting the end of a rebuild leaves the line alone. -/
theorem Queues.note (state : Coordinator) (event : WatchEvent) (failure : Option String) :
    Queues state (state.note event failure) where
  line := ⟨[], by simp [Coordinator.note]⟩
  started := by
    cases failure <;> simp [Coordinator.note, Coordinator.started]
  named _ _ _ known := known

/-- A task whose rebuild has ended leaves the line to the others. -/
theorem Queues.resume_ending (busy : state.line ≠ []) {failure : Option String}
    (found : state.task? number = some task) (ending : task.phase = .ending event failure) :
    Queues state (state.resume number) := by
  unfold Coordinator.resume
  rw [found]
  simp only [ending]
  have released : Queues state (state.note event failure).release := by
    have more : Queues (state.note event failure)
        { state.note event failure with free := (state.note event failure).free + 1 } :=
      .of_same rfl rfl fun _ => rfl
    exact (Queues.note state event failure).trans (more.trans (Queues.grant _))
  obtain ⟨joined, line⟩ := released.line
  exact released.trans (Queues.goOn (by simp [line, busy]) task)

/-- The task that is taken away has ended, so it stands in no line. -/
theorem Queues.collect (unfinished : ∀ number ∈ state.line, ∃ task, state.task? number = some task ∧
      task.phase.isUnfinished)
    (ended : ∀ task ∈ state.tasks, task.number = number → task.phase = .ended) :
    Queues state (state.collect number) := by
  have tasks : (state.collect number).tasks = state.tasks.filter fun task => task.number ≠ number := by
    unfold Coordinator.collect
    split <;> rfl
  have parts : (state.collect number).line = state.line ∧
      (state.collect number).started = state.started := by
    unfold Coordinator.collect
    dsimp only
    split <;> exact ⟨rfl, rfl⟩
  refine ⟨⟨[], by rw [parts.1, List.append_nil]⟩, parts.2, fun another member path known => ?_⟩
  obtain ⟨task, found, left⟩ := unfinished another member
  have different : another ≠ number := by
    rintro rfl
    obtain ⟨inside, named⟩ := task?_mem state another task found
    simp [ended task inside named, Phase.isUnfinished] at left
  rw [← known, path?, path?, task?, task?, tasks, List.find?_filter]
  congr 2
  funext task
  by_cases named : task.number = another <;> simp [named, different]

/-- What is dispatched to a path gets in line behind the others, if it does so at all. -/
theorem Queues.dispatch (state : Coordinator) (event : WatchEvent) : Queues state (state.dispatch event) := by
  unfold Coordinator.dispatch
  split
  · exact .of_same rfl rfl fun _ => rfl
  · refine ⟨⟨[], by simp⟩, rfl, fun another _ path known => ?_⟩
    obtain ⟨task, found, same⟩ := Option.map_eq_some_iff.mp known
    unfold task? at found
    simp [path?, task?, List.find?_append, found, same]

/-- Neither does anybody leave the line when several orders are dispatched. -/
theorem Queues.dispatchAll (state : Coordinator) (orders : List Order) :
    Queues state (state.dispatchAll orders) := by
  induction orders generalizing state with
  | nil => exact .of_same rfl rfl fun _ => rfl
  | cons order rest inductionHypothesis =>
    cases order with
    | rebuild event => exact (Queues.dispatch state event).trans (inductionHypothesis _)
    | stop => exact .of_same rfl rfl fun _ => rfl

/-- An order that is put in takes nobody out of the line. -/
theorem Queues.put (state : Coordinator) (order : Order) : Queues state (state.put order) := by
  unfold Coordinator.put
  dsimp only
  split <;> exact .of_same rfl rfl fun _ => rfl

/-- While somebody stands in the line, the move of the first task that is able to move either leaves all
others where they are, or is that of the first in the line. -/
theorem InLine.resume_line (inLine : state.InLine state.phase?) (consistent : Consistent state)
    (busy : state.line ≠ []) {later : List Mover} (ready : state.ready = .task number :: later) :
    Queues state (({ state with ready := later } : Coordinator).resume number) ∨
      Serves state (({ state with ready := later } : Coordinator).resume number) := by
  have taken : Queues state { state with ready := later } := .of_same rfl rfl fun _ => rfl
  cases found : state.task? number with
  | none =>
    have idle : ({ state with ready := later } : Coordinator).resume number = { state with ready := later } := by
      unfold Coordinator.resume
      rw [show ({ state with ready := later } : Coordinator).task? number = none from found]
    rw [idle]
    exact .inl taken
  | some task =>
    have foundLater : ({ state with ready := later } : Coordinator).task? number = some task := found
    cases phase : task.phase with
    | ending event failure => exact .inl (taken.trans (Queues.resume_ending busy foundLater phase))
    | fresh event =>
      refine .inl (taken.trans ?_)
      unfold Coordinator.resume
      rw [foundLater]
      simp only [phase]
      exact Queues.acquire (by exact busy) number event
    | granted event =>
      obtain ⟨line, -⟩ := inLine.leaves ready (by simp [phase?_of_found found, phase, Phase.isGranted])
      have own : event.path = task.path := consistent.event_path found (by rw [phase]; rfl)
      have serves (left : Coordinator) (same : Queues { state with
          ready := later, line := state.line.erase number } left)
          (unjoined : left.line = state.line.erase number) : Serves state (left.start number event) := by
        have before : left.started = state.started := same.started
        refine ⟨⟨number, event, ?_, own ▸ path?_of_found found, ?_⟩, fun another member path known => ?_⟩
        · exact line.trans (congrArg (number :: ·) unjoined.symm)
        · rw [← before]
          simp [Coordinator.started, Coordinator.start, setPhase, List.filterMap_append]
        · have inside : another ∈ state.line.erase number := unjoined ▸ member
          exact (path?_setPhase left number another (.running event)).trans
            (same.named another inside path known)
      refine .inr ?_
      unfold Coordinator.resume
      rw [foundLater]
      simp only [phase]
      split
      · refine serves _ (Queues.grant _) ?_
        rcases grant_cases { state with ready := later, line := state.line.erase number } with
          same | ⟨another, event, waiter, -, -, given⟩
        · rw [same]
        · rw [given]
          rfl
      · exact serves _ (.of_same rfl rfl fun _ => rfl) rfl
    | waiting event =>
      refine .inl ?_
      unfold Coordinator.resume
      rw [foundLater]
      simp only [phase]
      exact taken
    | running event =>
      refine .inl ?_
      unfold Coordinator.resume
      rw [foundLater]
      simp only [phase]
      exact taken
    | ended =>
      refine .inl ?_
      unfold Coordinator.resume
      rw [foundLater]
      simp only [phase]
      exact taken

/-- While somebody stands in the line, a turn starts no rebuild but that of the first in the line. -/
theorem Turn.line_cases (turn : Turn state occurrence final) (inLine : state.InLine state.phase?)
    (consistent : Consistent state) (busy : state.line ≠ []) :
    Queues state final ∨ Serves state final := by
  cases turn with
  | first mover rest able =>
    have taken : Queues state { state with ready := rest } := .of_same rfl rfl fun _ => rfl
    cases mover with
    | task number => exact inLine.resume_line consistent busy able
    | dispatcher =>
      refine .inl (taken.trans ?_)
      simp only [perform, serve]
      split
      · exact Queues.dispatchAll _ _
      all_goals exact .of_same rfl rfl fun _ => rfl
    | collector number =>
      refine .inl (taken.trans (Queues.collect ?_ ?_))
      · exact fun another member => inLine.unfinished_of_mem member
      · rintro task member rfl
        exact consistent.collected task member (by simp [able])
  | atOnce earlier later number task event failure able found ending =>
    have taken : Queues state { state with ready := earlier ++ later } := .of_same rfl rfl fun _ => rfl
    exact .inl (taken.trans (Queues.resume_ending busy found ending))
  | still _ _ step unmoved =>
    refine .inl ?_
    cases step with
    | submit event => exact Queues.put state (.rebuild event)
    | stop => exact Queues.put state .stop
    | move _ _ mover => exact absurd rfl (unmoved mover)
    | finish _ path failure finished =>
      obtain ⟨task, event, -, -, -, rfl⟩ := finish?_cases finished
      exact .of_same rfl rfl fun another => path?_setPhase state task.number another _
    | await => exact .of_same rfl rfl fun _ => rfl
    | look place => exact .of_same rfl rfl fun _ => rfl

/-! ### Overtaking -/

/-- How many of some tasks are of a path. -/
def countOn (state : Coordinator) (path : Path) (numbers : List Nat) : Nat :=
  numbers.countP fun number => state.path? number = some path

/-- A task of a path stands in the line. The rebuilds of another path that have started, and the tasks of
that path ahead in the line, make up a total. -/
def Overtaken (state : Coordinator) (number : Nat) (path other : Path) (total : Nat) : Prop :=
  ∃ ahead behind, state.line = ahead ++ number :: behind ∧ state.path? number = some path ∧
    (state.startedOn other).length + state.countOn other ahead = total

/-- The rebuilds of a path are counted by the paths of the numbers. -/
theorem countOn_congr {numbers : List Nat}
    (known : ∀ number ∈ numbers, ∃ path, state.path? number = some path ∧ final.path? number = some path) :
    final.countOn path numbers = state.countOn path numbers := by
  refine List.countP_congr fun number member => ?_
  obtain ⟨path, before, after⟩ := known number member
  simp [before, after]

/-- As long as the task does not start its rebuild, the total stays. -/
theorem Overtaken.turn {total : Nat} (overtaken : Overtaken state number path other total)
    (turn : Turn state occurrence final) (inLine : state.InLine state.phase?)
    (consistent : Consistent state) (unstarted : final.startedOn path = state.startedOn path) :
    Overtaken final number path other total := by
  obtain ⟨ahead, behind, line, own, sum⟩ := overtaken
  have known : ∀ another ∈ state.line, ∃ path, state.path? another = some path := by
    intro another member
    obtain ⟨task, found, -⟩ := inLine.unfinished_of_mem member
    exact ⟨task.path, path?_of_found found⟩
  rcases turn.line_cases inLine consistent (by simp [line]) with queues | serves
  · obtain ⟨joined, longer⟩ := queues.line
    refine ⟨ahead, behind ++ joined, by rw [longer, line]; simp,
      queues.named number (by simp [line]) path own, ?_⟩
    have same : final.countOn other ahead = state.countOn other ahead := countOn_congr fun another member => by
      have inside : another ∈ state.line := by simp [line, member]
      obtain ⟨path, before⟩ := known another inside
      exact ⟨path, before, queues.named another inside path before⟩
    rw [same, startedOn, queues.started]
    exact sum
  · obtain ⟨first, event, cut, served, started⟩ := serves.started
    cases ahead with
    | nil =>
      -- The task itself would have started its rebuild.
      obtain ⟨rfl, -⟩ := List.cons.inj (line.symm.trans cut)
      obtain rfl : path = event.path := Option.some.inj (own.symm.trans served)
      have longer : final.startedOn event.path = state.startedOn event.path ++ [event] := by
        rw [startedOn, started, eventsOn_append]
        simp [startedOn, eventsOn]
      simp [longer] at unstarted
    | cons front rest =>
      obtain ⟨rfl, shorter⟩ := List.cons.inj (line.symm.trans cut)
      have named : ∀ another ∈ final.line, ∃ path, state.path? another = some path ∧
          final.path? another = some path := by
        intro another member
        obtain ⟨path, before⟩ := known another (by simp [cut, member])
        exact ⟨path, before, serves.named another member path before⟩
      have place : number ∈ final.line := by simp [← shorter]
      refine ⟨rest, behind, shorter.symm, serves.named number place path own, ?_⟩
      have same : final.countOn other rest = state.countOn other rest :=
        countOn_congr fun another member => named another (by simp [← shorter, member])
      rw [same, startedOn, started, eventsOn_append, List.length_append]
      rw [countOn, List.countP_cons, served] at sum
      rw [← sum]
      by_cases equal : event.path = other
      · simp [startedOn, eventsOn, countOn, equal]
        omega
      · simp [startedOn, eventsOn, countOn, equal]

/-- A task that waits for a slot is overtaken by those ahead of it only, however many turns are taken. -/
theorem Overtaken.turns {total : Nat} (overtaken : Overtaken state number path other total)
    (turns : Turns state past final) (inLine : state.InLine state.phase?) (consistent : Consistent state)
    (unstarted : final.startedOn path = state.startedOn path) :
    Overtaken final number path other total ∧ final.InLine final.phase? := by
  induction turns with
  | rest => exact ⟨overtaken, inLine⟩
  | @turn middle final past occurrence before next inductionHypothesis =>
    have sound : Consistent middle :=
      before.run.preserves (fun _ _ _ step sound => sound.step step) consistent
    obtain ⟨handed, started, -⟩ := before.run.account consistent path
    obtain ⟨more, startedNext, -⟩ := next.step.account sound path
    rw [started, List.append_assoc] at startedNext
    obtain ⟨rfl, rfl⟩ : handed = [] ∧ more = [] := by
      simpa [startedNext] using unstarted
    rw [List.append_nil] at started startedNext
    obtain ⟨still, ordered⟩ := inductionHypothesis started
    exact ⟨still.turn next ordered sound (by rw [unstarted, started]), ordered.turn sound next⟩

/-- Of the tasks in the line at most one is of a path. -/
theorem InLine.countOn_le_one (inLine : state.InLine state.phase?) (consistent : Consistent state)
    {ahead : List Nat} (front : ahead.Sublist state.line) (path : Path) : state.countOn path ahead ≤ 1 := by
  obtain ⟨waiting, lined, line⟩ := inLine.stands
  have once : state.line.Nodup := by
    rw [line]
    refine List.nodup_append.mpr ⟨lined.once.filter _, lined.apart, fun another given _ waits same => ?_⟩
    exact lined.not_able_of_waiting (same ▸ waits) (List.mem_of_mem_filter given)
  have apart : (state.unfinished.map (·.path)).Nodup := consistent.tracked ▸ consistent.apart
  have single : ∀ first ∈ ahead, ∀ second ∈ ahead, state.path? first = some path →
      state.path? second = some path → first = second := by
    intro first inFirst second inSecond ofFirst ofSecond
    obtain ⟨task, found, left⟩ := inLine.unfinished_of_mem (front.subset inFirst)
    obtain ⟨another, foundToo, leftToo⟩ := inLine.unfinished_of_mem (front.subset inSecond)
    obtain ⟨member, named⟩ := task?_mem state first task found
    obtain ⟨memberToo, namedToo⟩ := task?_mem state second another foundToo
    rw [path?_of_found found] at ofFirst
    rw [path?_of_found foundToo] at ofSecond
    have same : task = another := List.inj_on_of_nodup_map apart
      (List.mem_filter.mpr ⟨member, left⟩) (List.mem_filter.mpr ⟨memberToo, leftToo⟩)
      (Option.some.inj (ofFirst.trans ofSecond.symm))
    rw [← named, ← namedToo, same]
  rw [countOn, List.countP_eq_length_filter]
  have distinct := (front.nodup once).filter fun number => state.path? number = some path
  match shape : ahead.filter fun number => state.path? number = some path with
  | [] => simp
  | [_] => simp
  | first :: second :: _ =>
    have inFirst := List.mem_filter.mp (shape ▸ List.mem_cons_self :
      first ∈ ahead.filter fun number => state.path? number = some path)
    have inSecond := List.mem_filter.mp (shape ▸ by simp :
      second ∈ ahead.filter fun number => state.path? number = some path)
    have same := single first inFirst.1 second inSecond.1 (by simpa using inFirst.2)
      (by simpa using inSecond.2)
    rw [shape, same] at distinct
    simp at distinct

end

/-! ### Courses of turns -/

/-- Whatever the limit, whatever is submitted and in whatever order rebuilds end: when nothing is left that is
able to move, as many rebuilds are under way as the limit and the paths in flight allow. And from the moment
a path waits for a slot until its rebuild starts, at most one rebuild of every other path starts. -/
theorem turns_share_slots (limit : Int) (past : List Occurrence) (state : Coordinator)
    (turns : Turns (ofLimit limit) past state) :
    (state.ready = [] →
      (state.tasks.countP (·.phase.isRunning) : Int) = min (max 1 limit) state.inFlight.length) ∧
    ∀ path, (∃ task ∈ state.tasks, task.path = path ∧ task.phase.isWaiting) →
      ∀ future later, Turns state future later → later.startedOn path = state.startedOn path →
        ∀ other, (later.startedOn other).length ≤ (state.startedOn other).length + 1 := by
  obtain ⟨consistent, balanced⟩ := turns.run.sound
  have inLine := turns.inLine
  constructor
  · intro quiet
    rw [inLine.running_of_quiet consistent balanced quiet, ← turns.run.slots]
    exact Nat.cast_min ..
  · rintro path ⟨task, member, rfl, waits⟩ future later following unstarted other
    have found := task?_of_mem state task consistent.distinct member
    obtain ⟨ahead, behind, line⟩ : ∃ ahead behind, state.line = ahead ++ task.number :: behind := by
      obtain ⟨waiting, lined, line⟩ := inLine.stands
      refine List.append_of_mem ?_
      rw [line]
      exact List.mem_append_right _ ((lined.waiting_iff _).mpr (by simp [phase?_of_found found, waits]))
    have overtaken : Overtaken state task.number task.path other
        ((state.startedOn other).length + state.countOn other ahead) :=
      ⟨ahead, behind, line, path?_of_found found, rfl⟩
    obtain ⟨⟨aheadThen, -, -, -, total⟩, -⟩ := overtaken.turns following inLine consistent unstarted
    have front : ahead.Sublist state.line := line ▸ List.sublist_append_left ahead _
    have single := inLine.countOn_le_one consistent front other
    omega

/-- With a single slot, `c` waits behind `b` while `a` is built. New events of `a` keep coming, but `a` is not
built again before `c` is, and `b` is built once. -/
theorem turns_share_slots_of_three :
    let place (name : String) : Path := ⟨.root, [name]⟩
    let added (name : String) : WatchEvent := { path := place name, kind := .added }
    let past : List Occurrence :=
      [.submitted (added "a"), .submitted (added "b"), .submitted (added "c"), .moved .dispatcher,
       .moved (.task 0), .moved (.task 1), .moved (.task 2)]
    let future : List Occurrence :=
      [.submitted (added "a"), .moved .dispatcher, .ended (place "a") none, .moved (.task 0),
       .moved (.task 1), .ended (place "b") none, .submitted (added "b"), .moved (.task 1)]
    ∃ state later : Coordinator, Turns (ofLimit 1) past state ∧ Turns state future later ∧ state.ready = [] ∧
      (state.tasks.countP (·.phase.isRunning) : Int) = min (max 1 1) (state.inFlight.length : Int) ∧
      state.inFlight = [place "a", place "b", place "c"] ∧
      later.startedOn (place "c") = state.startedOn (place "c") ∧
      (later.startedOn (place "a")).length ≤ (state.startedOn (place "a")).length + 1 ∧
      (later.startedOn (place "b")).length ≤ (state.startedOn (place "b")).length + 1 ∧
      state.startedOn (place "b") = [] ∧ later.startedOn (place "b") = [added "b"] := by
  intro place added past future
  have possible : (past.foldlM follow? (ofLimit 1)).isSome := by decide +kernel
  obtain ⟨state, computed⟩ := Option.isSome_iff_exists.mp possible
  have possibleThen : ∀ state ∈ past.foldlM follow? (ofLimit 1),
      (future.foldlM follow? state).isSome := by decide +kernel
  obtain ⟨later, computedThen⟩ := Option.isSome_iff_exists.mp (possibleThen state computed)
  have reached : ∀ state ∈ past.foldlM follow? (ofLimit 1), state.ready = [] ∧
      state.inFlight = [place "a", place "b", place "c"] ∧ state.startedOn (place "b") = [] ∧
      (∃ task ∈ state.tasks, task.path = place "c" ∧ task.phase.isWaiting) ∧
      ∀ later ∈ future.foldlM follow? state,
        later.startedOn (place "c") = state.startedOn (place "c") ∧
          later.startedOn (place "b") = [added "b"] := by decide +kernel
  obtain ⟨quiet, inFlight, unbuilt, waits, outcome⟩ := reached state computed
  obtain ⟨unstarted, built⟩ := outcome later computedThen
  obtain ⟨used, overtaken⟩ := turns_share_slots 1 past state (.of_follow? computed)
  have bound := overtaken (place "c") waits future later (.of_follow? computedThen) unstarted
  exact ⟨state, later, .of_follow? computed, .of_follow? computedThen, quiet, used quiet, inFlight, unstarted,
    bound (place "a"), bound (place "b"), unbuilt, built⟩

end TreeBuild.Coordinator
