import TreeBuild.Proofs.Coordinator.Consistency

/-!
# What becomes of the events that are submitted

An event may lie in the queue, wait with its task for a slot, or be kept for later while another
rebuild of its path is under way, and an event that is kept gives way to the next one of its path. The
account of a path lists the events that rebuilds were started for and, behind them, those that are still
on their way. A move either leaves this account as it is or takes out an event in favour of a later
one, and an event that is submitted is added at its end. So the account of a path always follows from
what was submitted for it by leaving out events that a later one has made pointless, and never the
last one.

`KeepsLatest` states this relation between two lists by itself; it is reflexive and transitive, and
lists it holds of can be joined, so the law for a run is put together from those for single moves.
-/
namespace TreeBuild

/-- Some events of a list are left out, each of them in favour of a later one that is kept. -/
inductive KeepsLatest {α : Type} : List α → List α → Prop where
  | none : KeepsLatest [] []
  | keep {kept given : List α} (event : α) (rest : KeepsLatest kept given) :
      KeepsLatest (event :: kept) (event :: given)
  | skip {kept given : List α} (event : α) (rest : KeepsLatest kept given) (later : kept ≠ []) :
      KeepsLatest kept (event :: given)

namespace KeepsLatest

variable {α : Type}

/-- Nothing needs to be left out. -/
theorem refl (events : List α) : KeepsLatest events events := by
  induction events with
  | nil => exact none
  | cons event rest inductionHypothesis => exact keep event inductionHypothesis

/-- What is kept comes in its order and no more often than it was given. -/
theorem sublist {kept given : List α} (keeps : KeepsLatest kept given) :
    kept.Sublist given := by
  induction keeps with
  | none => exact List.nil_sublist []
  | keep event _ inductionHypothesis => exact inductionHypothesis.cons_cons event
  | skip event _ _ inductionHypothesis => exact inductionHypothesis.cons event

/-- The last event is always kept. -/
theorem getLast? {kept given : List α} (keeps : KeepsLatest kept given) :
    kept.getLast? = given.getLast? := by
  have longer {event : α} {kept given : List α} (same : kept.getLast? = given.getLast?) :
      (event :: kept).getLast? = (event :: given).getLast? := by
    simp only [List.getLast?_cons, same]
  induction keeps with
  | none => rfl
  | keep event _ inductionHypothesis => exact longer inductionHypothesis
  | @skip kept given event _ later inductionHypothesis =>
    obtain ⟨last, found⟩ : ∃ last, kept.getLast? = some last :=
      Option.isSome_iff_exists.mp (List.getLast?_isSome.mpr later)
    rw [found] at inductionHypothesis
    rw [found, List.getLast?_cons, ← inductionHypothesis]
    rfl

/-- Lists are joined part by part. -/
theorem append {kept given keptNext givenNext : List α} (first : KeepsLatest kept given)
    (second : KeepsLatest keptNext givenNext) :
    KeepsLatest (kept ++ keptNext) (given ++ givenNext) := by
  induction first with
  | none => exact second
  | keep event _ inductionHypothesis => exact keep event inductionHypothesis
  | skip event _ later inductionHypothesis =>
    exact skip event inductionHypothesis (by simp [later])

/-- Leaving out twice is leaving out once. -/
theorem trans {kept middle given : List α} (first : KeepsLatest kept middle)
    (second : KeepsLatest middle given) : KeepsLatest kept given := by
  induction second generalizing kept with
  | none => exact first
  | keep event _ inductionHypothesis =>
    cases first with
    | keep _ rest => exact keep event (inductionHypothesis rest)
    | skip _ rest later => exact skip event (inductionHypothesis rest) later
  | skip event _ later inductionHypothesis =>
    refine skip event (inductionHypothesis first) ?_
    rintro rfl
    cases first with
    | none => exact later rfl
    | skip _ _ other => exact other rfl

/-- All that came before the last event may be left out. -/
theorem last (earlier : List α) (event : α) : KeepsLatest [event] (earlier ++ [event]) := by
  induction earlier with
  | nil => exact refl [event]
  | cons first rest inductionHypothesis => exact skip first inductionHypothesis (by simp)

/-- Of any event that was given, either it is kept itself, with what was kept before and after it on
its two sides, or it is left out and something that was given after it is kept. -/
theorem at_event {kept before after : List α} {event : α}
    (keeps : KeepsLatest kept (before ++ event :: after)) :
    ∃ keptBefore keptAfter, keptBefore.Sublist before ∧ KeepsLatest keptAfter after ∧
      (kept = keptBefore ++ event :: keptAfter ∨
        kept = keptBefore ++ keptAfter ∧ keptAfter ≠ []) := by
  induction before generalizing kept with
  | nil =>
    cases keeps with
    | keep _ rest => exact ⟨[], _, List.nil_sublist [], rest, .inl rfl⟩
    | skip _ rest later => exact ⟨[], kept, List.nil_sublist [], rest, .inr ⟨rfl, later⟩⟩
  | cons first others inductionHypothesis =>
    cases keeps with
    | keep _ rest =>
      obtain ⟨keptBefore, keptAfter, within, following, kind⟩ := inductionHypothesis rest
      refine ⟨first :: keptBefore, keptAfter, within.cons_cons first, following, ?_⟩
      rcases kind with rfl | ⟨rfl, later⟩
      · exact .inl rfl
      · exact .inr ⟨rfl, later⟩
    | skip _ rest _ =>
      obtain ⟨keptBefore, keptAfter, within, following, kind⟩ := inductionHypothesis rest
      exact ⟨keptBefore, keptAfter, within.cons first, following, kind⟩

end KeepsLatest

namespace Coordinator

/-- The events of a path among some. -/
def eventsOn (path : Path) (events : List WatchEvent) : List WatchEvent :=
  events.filter fun event => event.path = path

/-- The events of a path that rebuilds were started for, in the order of their starts. -/
def startedOn (state : Coordinator) (path : Path) : List WatchEvent :=
  eventsOn path state.started

/-- The events of a path that tasks have but have not handed over. -/
def carriedOn (state : Coordinator) (path : Path) : List WatchEvent :=
  (state.tasks.filter fun task => task.path = path).flatMap (·.phase.carried)

/-- The events among some entries that are kept for a path. -/
def keptFor (path : Path) (entries : List (Path × WatchEvent)) : List WatchEvent :=
  (entries.filter fun entry => entry.1 = path).map (·.2)

/-- The event of a path that is kept for later. -/
def keptOn (state : Coordinator) (path : Path) : List WatchEvent :=
  keptFor path state.pending

/-- The events that orders are about. -/
def ordered (orders : List Order) : List WatchEvent :=
  orders.filterMap fun order =>
    match order with
    | .rebuild event => some event
    | .stop => none

/-- The events of a path that have left the queue and have not been handed over yet. -/
def heldOn (state : Coordinator) (path : Path) : List WatchEvent :=
  state.carriedOn path ++ state.keptOn path

/-- The events of a path that are on their way, from the first to the last that was submitted. -/
def outstandingOn (state : Coordinator) (path : Path) : List WatchEvent :=
  state.heldOn path ++ eventsOn path (ordered state.queue)

/-- The events of a path that were submitted in the course of what happened. -/
def submittedOn (path : Path) (past : List Occurrence) : List WatchEvent :=
  eventsOn path (past.filterMap fun occurrence =>
    match occurrence with
    | .submitted event => some event
    | _ => none)

/-- The events of one path in two lists are those in the first and then those in the second. -/
theorem eventsOn_append (path : Path) (first second : List WatchEvent) :
    eventsOn path (first ++ second) = eventsOn path first ++ eventsOn path second :=
  List.filter_append ..

/-- What is kept for one path in two lists is what is kept in the first and then in the second. -/
theorem keptFor_append (path : Path) (first second : List (Path × WatchEvent)) :
    keptFor path (first ++ second) = keptFor path first ++ keptFor path second := by
  simp [keptFor, List.filter_append]

/-- Nothing is kept for a path that is forgotten, and all the rest for the others. -/
theorem keptFor_forget (path other : Path) (entries : List (Path × WatchEvent)) :
    keptFor path (entries.filter fun entry => entry.1 ≠ other) =
      if path = other then [] else keptFor path entries := by
  unfold keptFor
  rw [List.filter_filter]
  by_cases same : path = other
  · subst same
    simp
  · rw [if_neg same]
    congr 1
    apply List.filter_congr
    intro entry _
    by_cases about : entry.1 = path
    · simp [about, same]
    · simp [about]

/-- Among entries for distinct paths, what is found for a path is all that is kept for it. -/
theorem keptFor_of_lookup {path : Path} {event : WatchEvent} {entries : List (Path × WatchEvent)}
    (single : (entries.map (·.1)).Nodup) (found : entries.lookup path = some event) :
    keptFor path entries = [event] := by
  obtain ⟨before, after, cut, -⟩ := List.lookup_eq_some_iff.mp found
  rw [cut, List.map_append, List.map_cons] at single
  have absent := (List.nodup_cons.mp (List.nodup_middle.mp single)).1
  have unlike (part : List (Path × WatchEvent)) (inside : part ⊆ before ++ after) :
      keptFor path part = [] := by
    have none : (part.filter fun entry => entry.1 = path) = [] := by
      apply List.filter_eq_nil_iff.mpr
      intro entry member same
      refine absent ?_
      rw [← List.map_append]
      exact List.mem_map.mpr ⟨entry, inside member, by simpa using same⟩
    simp [keptFor, none]
  rw [cut, keptFor_append, unlike before (List.subset_append_left before after)]
  change [] ++ keptFor path ([(path, event)] ++ after) = [event]
  rw [keptFor_append, unlike after (List.subset_append_right before after)]
  simp [keptFor]

/-! ### Single tasks -/

/-- An unfinished task is the only one of its path that may have an event to hand over, and another
phase changes what it has and nothing else. -/
theorem carriedOn_setPhase {state : Coordinator} (consistent : Consistent state) {number : Nat}
    {task : Task} (found : state.task? number = some task) (left : task.phase.isUnfinished)
    (phase : Phase) (path : Path) :
    (task.path = path → state.carriedOn path = task.phase.carried ∧
      (state.setPhase number phase).carriedOn path = phase.carried) ∧
    (task.path ≠ path →
      (state.setPhase number phase).carriedOn path = state.carriedOn path) := by
  obtain ⟨before, after, cut, -, changed⟩ :=
    tasks_cut state number task consistent.distinct found
  constructor
  · rintro rfl
    have alone : task.path ∉ (before ++ after |>.filter (·.phase.isUnfinished)).map (·.path) := by
      have apart := consistent.tracked ▸ consistent.apart
      rw [unfinished, cut, List.filter_append, List.filter_cons, if_pos left, List.map_append,
        List.map_cons] at apart
      simpa using (List.nodup_cons.mp (List.nodup_middle.mp apart)).1
    have ended (part : List Task) (inside : part ⊆ before ++ after) :
        (part.filter fun other => other.path = task.path).flatMap (·.phase.carried) = [] := by
      apply List.flatMap_eq_nil_iff.mpr
      intro other member
      obtain ⟨present, same⟩ := List.mem_filter.mp member
      have finished : other.phase.isUnfinished = false := by
        by_contra unfinished
        refine alone (List.mem_map.mpr ⟨other, List.mem_filter.mpr ⟨inside present, ?_⟩, ?_⟩)
        · simpa using unfinished
        · simpa using same
      cases phase : other.phase <;> simp_all [Phase.isUnfinished, Phase.carried]
    have none := ended before (List.subset_append_left before after)
    have none' := ended after (List.subset_append_right before after)
    constructor
    · simp [carriedOn, cut, List.filter_append, List.flatMap_append, none, none']
    · simp [carriedOn, changed, List.filter_append, List.flatMap_append, none, none']
  · intro different
    simp [carriedOn, changed, cut, List.filter_append, different]

/-- How a move of tasks goes on with the events of a path: what is handed over was held before,
and everything else is still held. -/
def Hands (path : Path) (state final : Coordinator) : Prop :=
  ∃ handed, final.startedOn path = state.startedOn path ++ handed ∧
    handed ++ final.heldOn path = state.heldOn path ∧ final.queue = state.queue

/-- Where nothing happens, nothing is handed over. -/
theorem Hands.refl (path : Path) (state : Coordinator) : Hands path state state :=
  ⟨[], by simp, by simp, rfl⟩

/-- What is handed over in two parts is handed over in both together. -/
theorem Hands.trans {path : Path} {state middle final : Coordinator}
    (first : Hands path state middle) (second : Hands path middle final) :
    Hands path state final := by
  obtain ⟨handed, started, held, queue⟩ := first
  obtain ⟨more, startedNext, heldNext, queueNext⟩ := second
  refine ⟨handed ++ more, ?_, ?_, queueNext.trans queue⟩
  · rw [startedNext, started, List.append_assoc]
  · rw [List.append_assoc, heldNext, held]

/-- A phase that carries the same event hands nothing over. -/
theorem Hands.of_phase {state final : Coordinator} (consistent : Consistent state) {number : Nat}
    {task : Task} (found : state.task? number = some task) (left : task.phase.isUnfinished)
    (phase : Phase) (same : phase.carried = task.phase.carried)
    (tasks : final.tasks = (state.setPhase number phase).tasks)
    (history : final.history = state.history) (pending : final.pending = state.pending)
    (queue : final.queue = state.queue) (path : Path) : Hands path state final := by
  refine ⟨[], by simp [startedOn, started, history], ?_, queue⟩
  obtain ⟨own, others⟩ := carriedOn_setPhase consistent found left phase path
  have carried : final.carriedOn path = state.carriedOn path := by
    have moved : final.carriedOn path = (state.setPhase number phase).carriedOn path := by
      simp only [carriedOn, tasks]
    rw [moved]
    by_cases here : task.path = path
    · rw [(own here).2, (own here).1, same]
    · exact others here
  simp [heldOn, keptOn, carried, pending]

/-- A free slot that is given away hands no event over. -/
theorem Hands.grant {state : Coordinator} (consistent : Consistent state) (path : Path) :
    Hands path state state.grant := by
  rcases grant_cases state with same | ⟨number, event, task, found, waits, given⟩
  · rw [same]
    exact .refl path state
  · rw [given]
    exact .of_phase consistent found (by simp [waits, Phase.isUnfinished]) (.granted event)
      (by simp [waits, Phase.carried]) rfl rfl rfl rfl path

/-- Starting a rebuild hands its event over, whatever the task carried before. -/
theorem start_account {state : Coordinator} (consistent : Consistent state) {number : Nat}
    {task : Task} (found : state.task? number = some task) (left : task.phase.isUnfinished)
    {event : WatchEvent} (own : event.path = task.path) (path : Path) :
    ∃ handed, (state.start number event).startedOn path = state.startedOn path ++ handed ∧
      handed ++ (state.start number event).carriedOn path =
        if task.path = path then [event] else state.carriedOn path := by
  obtain ⟨here, elsewhere⟩ := carriedOn_setPhase consistent found left (.running event) path
  have history : (state.start number event).startedOn path =
      state.startedOn path ++ eventsOn path [event] := by
    simp [startedOn, started, Coordinator.start, Coordinator.setPhase, eventsOn]
  have carried : (state.start number event).carriedOn path =
      (state.setPhase number (.running event)).carriedOn path := rfl
  refine ⟨eventsOn path [event], history, ?_⟩
  by_cases same : task.path = path
  · rw [carried, (here same).2]
    simp [eventsOn, own, same, Phase.carried]
  · rw [carried, elsewhere same]
    simp [eventsOn, own, same]

/-- Asking for a slot either starts the rebuild or keeps its event with the task. -/
theorem acquire_account {state : Coordinator} (consistent : Consistent state) {number : Nat}
    {task : Task} (found : state.task? number = some task) (left : task.phase.isUnfinished)
    {event : WatchEvent} (own : event.path = task.path) (path : Path) :
    ∃ handed, (state.acquire number event).startedOn path = state.startedOn path ++ handed ∧
      handed ++ (state.acquire number event).carriedOn path =
        if task.path = path then [event] else state.carriedOn path := by
  unfold acquire
  split
  · have fewer := consistent.free (state.free - 1)
    exact start_account fewer found left own path
  · obtain ⟨here, elsewhere⟩ := carriedOn_setPhase consistent found left (.waiting event) path
    refine ⟨[], by simp [startedOn, started, Coordinator.setPhase], ?_⟩
    have carried : ({ state.setPhase number (.waiting event) with
        line := (state.setPhase number (.waiting event)).line ++ [number] } : Coordinator).carriedOn
          path = (state.setPhase number (.waiting event)).carriedOn path := rfl
    rw [List.nil_append, carried]
    by_cases same : task.path = path
    · rw [(here same).2, if_pos same]
      rfl
    · rw [elsewhere same, if_neg same]

/-- Asking for a slot touches neither the queue nor the events that are kept. -/
theorem acquire_rest (state : Coordinator) (number : Nat) (event : WatchEvent) :
    (state.acquire number event).pending = state.pending ∧
      (state.acquire number event).queue = state.queue := by
  unfold acquire
  split <;> exact ⟨rfl, rfl⟩

/-- A task that goes on takes up the event that was kept for its path, and one that ends leaves
nothing behind. -/
theorem Hands.goOn {state : Coordinator} (consistent : Consistent state) {task : Task}
    (found : state.task? task.number = some task) (left : task.phase.isUnfinished)
    (nothing : task.phase.carried = []) (path : Path) : Hands path state (state.goOn task) := by
  unfold Coordinator.goOn
  split
  · rename_i event kept
    obtain ⟨before, after, cut, -⟩ := List.lookup_eq_some_iff.mp kept
    have own : event.path = task.path := (consistent.gated (task.path, event) (by simp [cut])).2
    obtain ⟨handed, started, account⟩ :=
      acquire_account (consistent.forget task.path) found left own path
    obtain ⟨pending, queue⟩ := acquire_rest
      { state with pending := state.pending.filter fun entry => entry.1 ≠ task.path }
      task.number event
    refine ⟨handed, started, ?_, queue⟩
    rw [heldOn, ← List.append_assoc, account, keptOn, pending, keptFor_forget]
    obtain ⟨here, -⟩ := carriedOn_setPhase consistent found left .ended path
    by_cases same : task.path = path
    · subst same
      have keptBefore : state.keptOn task.path = [event] := keptFor_of_lookup consistent.single kept
      rw [if_pos rfl, if_pos rfl, heldOn, (here rfl).1, nothing, keptBefore]
      rfl
    · rw [if_neg same, if_neg (Ne.symm same)]
      rfl
  · exact .of_phase consistent found left .ended nothing.symm rfl rfl rfl rfl path

/-- A rebuild that is started hands its event over, which the task carried before. -/
theorem Hands.start {state : Coordinator} (consistent : Consistent state) {number : Nat} {task : Task}
    (found : state.task? number = some task) (left : task.phase.isUnfinished) {event : WatchEvent}
    (own : event.path = task.path) (carries : task.phase.carried = [event]) (path : Path) :
    Hands path state (state.start number event) := by
  obtain ⟨handed, started, account⟩ := start_account consistent found left own path
  refine ⟨handed, started, ?_, rfl⟩
  rw [heldOn, ← List.append_assoc, account]
  obtain ⟨here, -⟩ := carriedOn_setPhase consistent found left .ended path
  by_cases same : task.path = path
  · rw [if_pos same, heldOn, (here same).1, carries]
    rfl
  · rw [if_neg same]
    rfl

/-- The move of a task hands over at most the event that it has. -/
theorem Hands.resume {state : Coordinator} (consistent : Consistent state) (number : Nat)
    (path : Path) : Hands path state (state.resume number) := by
  unfold Coordinator.resume
  split
  · exact .refl path state
  · rename_i task found
    have own {event : WatchEvent} (about : task.phase.event? = some event) :
        event.path = task.path := consistent.event_path found about
    split
    · rename_i event phase
      have left : task.phase.isUnfinished := by simp [phase, Phase.isUnfinished]
      have about : event.path = task.path := own (by simp [phase, Phase.event?])
      obtain ⟨handed, started, account⟩ := acquire_account consistent found left about path
      obtain ⟨pending, queue⟩ := acquire_rest state number event
      refine ⟨handed, started, ?_, queue⟩
      rw [heldOn, ← List.append_assoc, account]
      obtain ⟨here, -⟩ := carriedOn_setPhase consistent found left .ended path
      have kept : (state.acquire number event).keptOn path = state.keptOn path := by
        simp only [keptOn, pending]
      by_cases same : task.path = path
      · rw [if_pos same, kept, heldOn, (here same).1, phase]
        rfl
      · rw [if_neg same, kept, heldOn]
    · rename_i event phase
      have stepped := consistent.leave number
      have left : task.phase.isUnfinished := by simp [phase, Phase.isUnfinished]
      have about : event.path = task.path := own (by simp [phase, Phase.event?])
      have carries : task.phase.carried = [event] := by simp [phase, Phase.carried]
      have aside : Hands path state { state with line := state.line.erase number } :=
        ⟨[], by simp [startedOn, started], rfl, rfl⟩
      dsimp only
      split
      · have present := task?_grant { state with line := state.line.erase number } found
          (by simp [phase])
        exact aside.trans ((Hands.grant stepped path).trans
          (.start stepped.grant present left about carries path))
      · exact aside.trans (.start stepped found left about carries path)
    · rename_i event failure phase
      have noted := consistent.note event failure
      have more := noted.free (state.free + 1)
      obtain rfl : task.number = number := (task?_mem state number task found).2
      have present : (state.note event failure).release.task? task.number = some task :=
        task?_release (state.note event failure) found (by simp [phase])
      have aside : Hands path state { state.note event failure with free := state.free + 1 } := by
        refine ⟨[], ?_, rfl, rfl⟩
        cases failure <;> simp [startedOn, started, note]
      exact aside.trans ((Hands.grant more path).trans
        (.goOn noted.release present (by simp [phase, Phase.isUnfinished])
          (by simp [phase, Phase.carried]) path))
    all_goals exact .refl path state

/-- Taking a task off the list that has ended hands nothing over. -/
theorem Hands.collect (state : Coordinator) (number : Nat)
    (ended : ∀ task ∈ state.tasks, task.number = number → task.phase = .ended) (path : Path) :
    Hands path state (state.collect number) := by
  have carried : (state.collect number).carriedOn path = state.carriedOn path := by
    have tasks : (state.collect number).tasks =
        state.tasks.filter fun task => task.number ≠ number := by
      unfold Coordinator.collect
      split <;> rfl
    have empty (tasks : List Task)
        (ended : ∀ task ∈ tasks, task.number = number → task.phase = .ended) :
        ((tasks.filter fun task => task.number ≠ number).filter
          fun task => task.path = path).flatMap (·.phase.carried) =
        (tasks.filter fun task => task.path = path).flatMap (·.phase.carried) := by
      induction tasks with
      | nil => rfl
      | cons task rest inductionHypothesis =>
        have others := inductionHypothesis fun other member =>
          ended other (List.mem_cons_of_mem task member)
        by_cases named : task.number = number
        · have none : task.phase.carried = [] := by
            rw [ended task List.mem_cons_self named]
            rfl
          by_cases here : task.path = path <;> simpa [named, here, none] using others
        · by_cases here : task.path = path <;> simpa [named, here] using others
    rw [carriedOn, tasks]
    exact empty state.tasks ended
  have rest : (state.collect number).history = state.history ∧
      (state.collect number).pending = state.pending ∧
      (state.collect number).queue = state.queue := by
    unfold Coordinator.collect
    split <;> exact ⟨rfl, rfl, rfl⟩
  obtain ⟨history, pending, queue⟩ := rest
  exact ⟨[], by simp [startedOn, started, history], by simp [heldOn, keptOn, carried, pending], queue⟩

/-! ### The dispatcher -/

/-- An event that is dispatched is the last one held for its path; one that was kept before gives way
to it. -/
theorem dispatch_account {state : Coordinator} (consistent : Consistent state) (event : WatchEvent)
    (path : Path) :
    (state.dispatch event).startedOn path = state.startedOn path ∧
      KeepsLatest ((state.dispatch event).heldOn path)
        (state.heldOn path ++ eventsOn path [event]) := by
  unfold dispatch
  split
  · refine ⟨rfl, ?_⟩
    have kept : keptFor path
        ((state.pending.filter fun entry => entry.1 ≠ event.path) ++ [(event.path, event)]) =
        if path = event.path then [event] else state.keptOn path := by
      rw [keptFor_append, keptFor_forget]
      by_cases same : path = event.path
      · simp [same, keptFor]
      · simp [same, Ne.symm same, keptFor, keptOn]
    change KeepsLatest (state.carriedOn path ++ keptFor path _) _
    rw [kept, heldOn, List.append_assoc]
    refine (KeepsLatest.refl (state.carriedOn path)).append ?_
    by_cases same : path = event.path
    · subst same
      simpa [eventsOn] using KeepsLatest.last (state.keptOn event.path) event
    · simpa [eventsOn, same, Ne.symm same] using KeepsLatest.refl (state.keptOn path)
  · rename_i idle
    refine ⟨rfl, ?_⟩
    have carried : ({ state with
        inFlight := state.inFlight ++ [event.path]
        tasks := state.tasks ++ [⟨state.next, event.path, .fresh event⟩]
        ready := state.ready ++ [.task state.next]
        next := state.next + 1 } : Coordinator).carriedOn path =
        state.carriedOn path ++ eventsOn path [event] := by
      by_cases same : event.path = path <;>
        simp [carriedOn, eventsOn, List.filter_append, List.flatMap_append, same, Phase.carried]
    change KeepsLatest (Coordinator.carriedOn _ path ++ state.keptOn path) _
    rw [carried, heldOn]
    by_cases same : event.path = path
    · -- A path that is not in flight has nothing kept for it.
      have none : state.keptOn path = [] := by
        have absent : (state.pending.filter fun entry => entry.1 = path) = [] := by
          apply List.filter_eq_nil_iff.mpr
          intro entry member here
          have place : entry.1 = event.path := by simpa [same] using here
          exact idle (place ▸ (consistent.gated entry member).1)
        simp [keptOn, keptFor, absent]
      rw [none, List.append_nil, List.append_nil]
      exact .refl _
    · simpa [eventsOn, same] using KeepsLatest.refl (state.carriedOn path ++ state.keptOn path)

/-- Dealing with queued orders leaves of the events of a path, from those that are held to the last
that is queued, all but some that a later one makes pointless. -/
theorem dispatchAll_account {state : Coordinator} (consistent : Consistent state)
    (orders : List Order) (path : Path) :
    (state.dispatchAll orders).startedOn path = state.startedOn path ∧
      KeepsLatest ((state.dispatchAll orders).outstandingOn path)
        (state.heldOn path ++ eventsOn path (ordered orders)) := by
  induction orders generalizing state with
  | nil => exact ⟨rfl, .refl _⟩
  | cons order rest inductionHypothesis =>
    cases order with
    | rebuild event =>
      obtain ⟨started, account⟩ := inductionHypothesis (consistent.dispatch event)
      obtain ⟨startedFirst, first⟩ := dispatch_account consistent event path
      refine ⟨started.trans startedFirst, account.trans ?_⟩
      have split : eventsOn path (ordered (.rebuild event :: rest)) =
          eventsOn path [event] ++ eventsOn path (ordered rest) := by
        rw [← eventsOn_append]
        rfl
      rw [split, ← List.append_assoc]
      exact first.append (.refl _)
    | stop => exact ⟨rfl, .refl _⟩

/-! ### Steps and runs -/

/-- What a step does to the account of a path: the events that rebuilds are started for, then those
still on their way, follow from those that were on their way and the one that is submitted. -/
theorem Step.account {state final : Coordinator} {occurrence : Occurrence}
    (consistent : Consistent state) (step : Step state occurrence final) (path : Path) :
    ∃ handed, final.startedOn path = state.startedOn path ++ handed ∧
      KeepsLatest (handed ++ final.outstandingOn path)
        (state.outstandingOn path ++ submittedOn path [occurrence]) := by
  have queued (order : Order) :
      (state.put order).startedOn path = state.startedOn path ∧
        (state.put order).outstandingOn path =
          state.outstandingOn path ++ eventsOn path (ordered [order]) := by
    have parts : (state.put order).history = state.history ∧
        (state.put order).tasks = state.tasks ∧ (state.put order).pending = state.pending ∧
        (state.put order).queue = state.queue ++ [order] := by
      unfold put
      dsimp only
      split <;> exact ⟨rfl, rfl, rfl, rfl⟩
    obtain ⟨history, tasks, pending, queue⟩ := parts
    refine ⟨by simp only [startedOn, started, history], ?_⟩
    rw [outstandingOn, outstandingOn, List.append_assoc, ← eventsOn_append, queue]
    simp only [heldOn, carriedOn, keptOn, tasks, pending, ordered, List.filterMap_append]
  have handing {mid : Coordinator} (hands : Hands path mid final)
      (started : mid.startedOn path = state.startedOn path)
      (outstanding : mid.outstandingOn path = state.outstandingOn path)
      (silent : submittedOn path [occurrence] = []) :
      ∃ handed, final.startedOn path = state.startedOn path ++ handed ∧
        KeepsLatest (handed ++ final.outstandingOn path)
          (state.outstandingOn path ++ submittedOn path [occurrence]) := by
    obtain ⟨handed, startedNext, held, queue⟩ := hands
    refine ⟨handed, started ▸ startedNext, ?_⟩
    rw [silent, List.append_nil, ← outstanding, outstandingOn, outstandingOn, ← List.append_assoc,
      held, queue]
    exact .refl _
  cases step with
  | submit event =>
    obtain ⟨started, outstanding⟩ := queued (.rebuild event)
    refine ⟨[], by rw [List.append_nil]; exact started, ?_⟩
    rw [List.nil_append]
    exact outstanding ▸ .refl _
  | stop =>
    obtain ⟨started, outstanding⟩ := queued .stop
    refine ⟨[], by rw [List.append_nil]; exact started, ?_⟩
    rw [List.nil_append]
    exact outstanding ▸ .refl _
  | move earlier later mover able =>
    have without := consistent.takeOff able
    cases mover with
    | task number => exact handing (Hands.resume without number path) rfl rfl rfl
    | collector number =>
      refine handing (Hands.collect { state with ready := earlier ++ later } number ?_ path) rfl rfl rfl
      rintro task member rfl
      exact consistent.collected task member (by simp [able])
    | dispatcher =>
      simp only [perform, serve]
      split
      · obtain ⟨started, account⟩ := dispatchAll_account without state.queue path
        refine ⟨[], by rw [List.append_nil]; exact started, ?_⟩
        rw [List.nil_append]
        exact (List.append_nil (state.outstandingOn path)).symm ▸ account
      all_goals exact ⟨[], (List.append_nil _).symm, (List.append_nil (state.outstandingOn path)).symm ▸
        .refl _⟩
  | finish _ place failure finished =>
    obtain ⟨task, event, member, -, phase, rfl⟩ := finish?_cases finished
    have found := task?_of_mem state task consistent.distinct member
    exact @handing state (.of_phase consistent found (by simp [phase, Phase.isUnfinished])
      (.ending event failure) (by simp [phase, Phase.carried]) rfl rfl rfl rfl path) rfl rfl rfl
  | await =>
    exact ⟨[], (List.append_nil _).symm, (List.append_nil (state.outstandingOn path)).symm ▸ .refl _⟩
  | look place =>
    exact ⟨[], (List.append_nil _).symm, (List.append_nil (state.outstandingOn path)).symm ▸ .refl _⟩

/-- What a run does to the account of a path. -/
theorem Run.account {state final : Coordinator} {past : List Occurrence}
    (consistent : Consistent state) (run : Run state past final) (path : Path) :
    ∃ handed, final.startedOn path = state.startedOn path ++ handed ∧
      KeepsLatest (handed ++ final.outstandingOn path)
        (state.outstandingOn path ++ submittedOn path past) := by
  induction run with
  | rest => exact ⟨[], by simp, by simpa [submittedOn, eventsOn] using .refl _⟩
  | @step middle final past occurrence before next inductionHypothesis =>
    obtain ⟨handed, started, account⟩ := inductionHypothesis
    have sound : Consistent middle :=
      before.preserves (fun _ _ _ step sound => sound.step step) consistent
    obtain ⟨more, startedNext, accountNext⟩ := next.account sound path
    refine ⟨handed ++ more, by rw [startedNext, started, List.append_assoc], ?_⟩
    have split : submittedOn path (past ++ [occurrence]) =
        submittedOn path past ++ submittedOn path [occurrence] := by
      simp only [submittedOn, List.filterMap_append, eventsOn_append]
    have forward : KeepsLatest (handed ++ (more ++ final.outstandingOn path))
        (handed ++ (middle.outstandingOn path ++ submittedOn path [occurrence])) :=
      (KeepsLatest.refl handed).append accountNext
    have earlier : KeepsLatest (handed ++ (middle.outstandingOn path ++ submittedOn path [occurrence]))
        (state.outstandingOn path ++ (submittedOn path past ++ submittedOn path [occurrence])) := by
      simpa only [List.append_assoc] using account.append (.refl (submittedOn path [occurrence]))
    rw [split, List.append_assoc]
    exact forward.trans earlier

/-- Where no path is in flight, no task is unfinished. -/
theorem Consistent.finished_of_idle {state : Coordinator} (consistent : Consistent state)
    (inFlight : state.inFlight = []) {task : Task} (member : task ∈ state.tasks) :
    task.phase.isUnfinished = false := by
  have none : state.unfinished.map (·.path) = [] := consistent.tracked ▸ inFlight
  by_contra left
  have present : task ∈ state.unfinished := List.mem_filter.mpr ⟨member, by simpa using left⟩
  rw [List.map_eq_nil_iff.mp none] at present
  cases present

/-- Nothing is on its way once the queue is empty and no path is in flight. -/
theorem Consistent.outstandingOn_idle {state : Coordinator} (consistent : Consistent state)
    (queue : state.queue = []) (inFlight : state.inFlight = []) (path : Path) :
    state.outstandingOn path = [] := by
  have finished : ∀ task ∈ state.tasks, task.phase.carried = [] := by
    intro task member
    have ended := consistent.finished_of_idle inFlight member
    cases phase : task.phase <;> simp_all [Phase.isUnfinished, Phase.carried]
  have carried : state.carriedOn path = [] := by
    apply List.flatMap_eq_nil_iff.mpr
    intro task member
    exact finished task (List.mem_of_mem_filter member)
  have kept : state.keptOn path = [] := by
    have none : state.pending = [] := by
      apply List.eq_nil_iff_forall_not_mem.mpr
      intro entry member
      have impossible := (consistent.gated entry member).1
      rw [inFlight] at impossible
      cases impossible
    simp [keptOn, keptFor, none]
  simp [outstandingOn, heldOn, carried, kept, queue, ordered, eventsOn]

/-- Whatever the limit and the order of moves, and whether rebuilds end well or fail: the events of a
path that rebuilds are started for come in the order in which they were submitted and no more often.
Each of the others is still on its way or left out in favour of a later event of the path that is
handed over or still on its way; what is on its way is handed over in the course of every run that
leaves nothing on its way, unless it is in turn left out in favour of a later one that is. Once the queue
is empty and no path is in flight, the last event that was submitted is the last one handed over. -/
theorem run_delivers_latest (limit : Int) (past : List Occurrence) (state : Coordinator)
    (run : Run (ofLimit limit) past state) (path : Path) :
    (state.startedOn path).Sublist (submittedOn path past) ∧
    KeepsLatest (state.startedOn path ++ state.outstandingOn path) (submittedOn path past) ∧
    (∀ before event after, submittedOn path past = before ++ event :: after →
      ∃ keptBefore keptAfter, keptBefore.Sublist before ∧ KeepsLatest keptAfter after ∧
        (state.startedOn path ++ state.outstandingOn path = keptBefore ++ event :: keptAfter ∨
          state.startedOn path ++ state.outstandingOn path = keptBefore ++ keptAfter ∧
            keptAfter ≠ [])) ∧
    (∀ future final, Run state future final → final.outstandingOn path = [] →
      ∃ handed, final.startedOn path = state.startedOn path ++ handed ∧
        KeepsLatest handed (state.outstandingOn path ++ submittedOn path future)) ∧
    (state.queue = [] → state.inFlight = [] →
      state.outstandingOn path = [] ∧
        (state.startedOn path).getLast? = (submittedOn path past).getLast?) := by
  have start : Consistent (ofLimit limit) := ofLimit_consistent limit
  have consistent : Consistent state :=
    run.preserves (fun _ _ _ step sound => sound.step step) start
  have keeps : KeepsLatest (state.startedOn path ++ state.outstandingOn path)
      (submittedOn path past) := by
    obtain ⟨handed, started, account⟩ := run.account start path
    have nothing : (ofLimit limit).startedOn path = [] := rfl
    rw [started, nothing, List.nil_append]
    exact account
  refine ⟨(List.sublist_append_left _ _).trans keeps.sublist, keeps, ?_, ?_, ?_⟩
  · intro before event after cut
    exact (cut ▸ keeps).at_event
  · intro future final later settled
    obtain ⟨handed, started, account⟩ := later.account consistent path
    rw [settled, List.append_nil] at account
    exact ⟨handed, started, account⟩
  · intro queue inFlight
    have settled := consistent.outstandingOn_idle queue inFlight path
    rw [settled, List.append_nil] at keeps
    exact ⟨settled, keeps.getLast?⟩

/-- A file is added, changed while it is built, and removed before that build has failed: the change
is left out, and the removal is the last that is handed over. -/
theorem run_delivers_latest_of_three :
    let path : Path := ⟨.root, ["a"]⟩
    let event (kind : EventKind) : WatchEvent := { path, kind }
    let past : List Occurrence :=
      [.submitted (event .added), .moved .dispatcher, .moved (.task 0), .submitted (event .modified),
       .submitted (event .removed), .moved .dispatcher, .ended path (some "failed"),
       .moved (.task 0), .ended path none, .moved (.task 0), .moved (.collector 0)]
    ∃ state, Run (ofLimit 1) past state ∧ state.queue = [] ∧ state.inFlight = [] ∧
      submittedOn path past = [event .added, event .modified, event .removed] ∧
      state.startedOn path = [event .added, event .removed] ∧
      (state.startedOn path).getLast? = (submittedOn path past).getLast? := by
  intro path event past
  have possible : ((ofLimit 1).replay? past).isSome := by decide +kernel
  obtain ⟨state, computed⟩ := Option.isSome_iff_exists.mp possible
  have run : Run (ofLimit 1) past state := .of_replay? computed
  have settled : ∀ state ∈ (ofLimit 1).replay? past, state.queue = [] ∧ state.inFlight = [] ∧
      state.startedOn path = [event .added, event .removed] := by decide +kernel
  obtain ⟨queue, inFlight, handed⟩ := settled state computed
  have latest := (run_delivers_latest 1 past state run path).2.2.2.2 queue inFlight
  exact ⟨state, run, queue, inFlight, by decide +kernel, handed, latest.2⟩

end Coordinator

end TreeBuild
