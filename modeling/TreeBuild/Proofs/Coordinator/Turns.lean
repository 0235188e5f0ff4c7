import Mathlib.Data.List.Induction
import TreeBuild.Proofs.Coordinator.Delivery
import TreeBuild.Proofs.Coordinator.Line

/-!
# Turns

The movers move in the order in which they became able to. Of such a course of moves two things are
remembered beyond what every run keeps: the line for slots stays in order, so that those who have been given
a slot stand at its front, and while a slot is free the first in the line has been given one.

A rebuild that never waits ends within the move that starts it. Its task then goes on before all others that
are able to move, so that a turn may also be taken by a task whose rebuild has just ended.
-/
namespace TreeBuild.Coordinator

/-- A step in which movers move in their order. -/
inductive Turn : Coordinator → Occurrence → Coordinator → Prop where
  /-- The first of those that are able to move does so. -/
  | first (state : Coordinator) (mover : Mover) (rest : List Mover) (able : state.ready = mover :: rest) :
      Turn state (.moved mover) (({ state with ready := rest }).perform mover)
  /-- A task whose rebuild has ended goes on at once. -/
  | atOnce (state : Coordinator) (earlier later : List Mover) (number : Nat) (task : Task)
      (event : WatchEvent) (failure : Option String)
      (able : state.ready = earlier ++ .task number :: later) (found : state.task? number = some task)
      (ending : task.phase = .ending event failure) :
      Turn state (.moved (.task number)) (({ state with ready := earlier ++ later }).perform (.task number))
  /-- Something else than a move happens. -/
  | still (state final : Coordinator) (occurrence : Occurrence) (step : Step state occurrence final)
      (unmoved : ∀ mover, occurrence ≠ .moved mover) : Turn state occurrence final

/-- Any number of turns, with what happened in their order. -/
inductive Turns : Coordinator → List Occurrence → Coordinator → Prop where
  | rest (state : Coordinator) : Turns state [] state
  | turn {state middle final : Coordinator} {past : List Occurrence} {occurrence : Occurrence}
      (before : Turns state past middle) (next : Turn middle occurrence final) :
      Turns state (past ++ [occurrence]) final

section

variable {state final : Coordinator} {occurrence : Occurrence} {past : List Occurrence} {number : Nat}
  {task : Task} {event : WatchEvent}

/-- A turn is a step. -/
theorem Turn.step (turn : Turn state occurrence final) : Step state occurrence final := by
  cases turn with
  | first mover rest able => exact .move state [] rest mover able
  | atOnce earlier later number task event failure able => exact .move state earlier later _ able
  | still _ _ step => exact step

/-- A row of turns is a run. -/
theorem Turns.run (turns : Turns state past final) : Run state past final := by
  induction turns with
  | rest => exact .rest _
  | turn _ next inductionHypothesis => exact .step inductionHypothesis next.step

/-- What a state becomes by an occurrence if only the first mover may move. -/
def follow? (state : Coordinator) : Occurrence → Option Coordinator
  | .moved mover => if state.ready.head? = some mover then state.advance? else none
  | occurrence => state.after? occurrence

/-- An occurrence that can be followed is a turn. -/
theorem Turn.of_follow? (followed : state.follow? occurrence = some final) :
    Turn state occurrence final := by
  cases occurrence with
  | moved mover =>
    simp only [follow?, advance?] at followed
    split at followed
    · rename_i front
      obtain ⟨rest, able⟩ := List.head?_eq_some_iff.mp front
      rw [able] at followed
      exact Option.some.inj followed ▸ .first state mover rest able
    · cases followed
  | _ => exact .still state final _ (.of_after? followed) (by simp)

/-- Whatever can be followed is made of turns. -/
theorem Turns.of_follow? (followed : past.foldlM follow? state = some final) : Turns state past final := by
  induction past using List.reverseRecOn generalizing final with
  | nil => exact Option.some.inj followed ▸ .rest state
  | append_singleton past occurrence inductionHypothesis =>
    rw [List.foldlM_append] at followed
    obtain ⟨middle, before, next⟩ := Option.bind_eq_some_iff.mp followed
    exact .turn (inductionHypothesis before) (.of_follow? (by simpa using next))

/-! ### Every turn keeps the line in order -/

/-- A task that starts its rebuild has left the line in order. -/
theorem InLine.start (inLine : state.InLine (Function.update state.phase? number none))
    (consistent : Consistent state) (found : state.task? number = some task) (event : WatchEvent) :
    (state.start number event).InLine (state.start number event).phase? :=
  inLine.rests (phase?_setPhase consistent.distinct found (.running event)) rfl rfl (Nat.le_refl _) rfl rfl

/-- A task that asks for a slot gets it or goes to the end of the line. -/
theorem InLine.acquire (inLine : state.InLine (Function.update state.phase? number none))
    (consistent : Consistent state) (found : state.task? number = some task) (event : WatchEvent) :
    (state.acquire number event).InLine (state.acquire number event).phase? := by
  unfold Coordinator.acquire
  split
  · exact inLine.rests (phase?_setPhase consistent.distinct found (.running event)) rfl rfl
      (Nat.sub_le _ _) rfl rfl
  · rename_i taken
    exact inLine.joins (phase?_setPhase consistent.distinct found (.waiting event)) rfl rfl rfl taken

/-- A task that gives its slot back may give it to the first of those that wait. -/
theorem InLine.release (inLine : state.InLine (Function.update state.phase? number none))
    (consistent : Consistent state) :
    state.release.InLine (Function.update state.release.phase? number none) := by
  have more : ({ state with free := state.free + 1 } : Coordinator).StandsInLine
      (Function.update ({ state with free := state.free + 1 } : Coordinator).phase? number none) :=
    inLine.stands
  obtain ⟨stands, served⟩ := more.grant consistent.distinct
  exact ⟨stands, fun _ => served⟩

/-- A task that goes on leaves the line in order. -/
theorem InLine.goOn (inLine : state.InLine (Function.update state.phase? task.number none))
    (consistent : Consistent state) (found : state.task? task.number = some task) :
    (state.goOn task).InLine (state.goOn task).phase? := by
  unfold Coordinator.goOn
  split
  · have same : ({ state with pending := state.pending.filter fun entry => entry.1 ≠ task.path } :
        Coordinator).InLine (Function.update state.phase? task.number none) := inLine.of_same rfl rfl rfl
    exact same.acquire (consistent.forget task.path) found _
  · refine inLine.rests (phase?_setPhase consistent.distinct found .ended) ?_ rfl (Nat.le_refl _) rfl rfl
    exact (tasksAmong_append state.ready _).trans (List.append_nil _)

/-- A task whose rebuild has ended goes on, or ends. -/
theorem InLine.resume_ending (inLine : state.InLine state.phase?) (consistent : Consistent state)
    {earlier later : List Mover} {failure : Option String}
    (able : state.ready = earlier ++ .task number :: later) (found : state.task? number = some task)
    (ending : task.phase = .ending event failure) :
    (({ state with ready := earlier ++ later } : Coordinator).resume number).InLine
      (({ state with ready := earlier ++ later } : Coordinator).resume number).phase? := by
  have phase := phase?_of_found found
  have taken := inLine.takeOff able (by simp [phase, ending, Phase.isGranted])
  have sound := consistent.takeOff able
  unfold Coordinator.resume
  rw [show ({ state with ready := earlier ++ later } : Coordinator).task? number = some task from found]
  simp only [ending]
  obtain rfl : task.number = number := (task?_mem state number task found).2
  have noted := sound.note event failure
  have notedLine : (({ state with ready := earlier ++ later } : Coordinator).note event failure).InLine
      (Function.update state.phase? task.number none) := taken.of_same rfl rfl rfl
  exact (InLine.release notedLine noted).goOn noted.release (task?_release _ found (by simp [ending]))

/-- The first task that is able to move does so. -/
theorem InLine.resume (inLine : state.InLine state.phase?) (consistent : Consistent state)
    {later : List Mover} (able : state.ready = .task number :: later) :
    (({ state with ready := later } : Coordinator).resume number).InLine
      (({ state with ready := later } : Coordinator).resume number).phase? := by
  have first : state.ready = [] ++ .task number :: later := able
  have sound : Consistent { state with ready := later } := consistent.takeOff first
  have isAble : (state.phase? number).any Phase.isAble := by
    obtain ⟨waiting, lined, -⟩ := inLine.stands
    refine (lined.able_iff number).mp ?_
    simp [Coordinator.able, able, tasksAmong]
  obtain ⟨task, found⟩ : ∃ task, state.task? number = some task := by
    cases found : state.task? number with
    | none => simp [phase?, found] at isAble
    | some task => exact ⟨task, rfl⟩
  have known := phase?_of_found found
  have foundLater : ({ state with ready := later } : Coordinator).task? number = some task := found
  cases phase : task.phase with
  | ending event failure => exact inLine.resume_ending consistent first found phase
  | fresh event =>
    have taken := inLine.takeOff first (by simp [known, phase, Phase.isGranted])
    unfold Coordinator.resume
    rw [foundLater]
    simp only [phase]
    exact InLine.acquire taken sound found event
  | granted event =>
    obtain ⟨-, stands⟩ := inLine.leaves able (by simp [known, phase, Phase.isGranted])
    have left := sound.leave number
    unfold Coordinator.resume
    rw [foundLater]
    simp only [phase]
    split
    · obtain ⟨standsAfter, served⟩ := StandsInLine.grant stands left.distinct
      exact InLine.start ⟨standsAfter, fun _ => served⟩ left.grant
        (task?_grant _ found (by simp [phase])) event
    · rename_i none
      exact InLine.start ⟨stands, fun more => absurd more none⟩ left found event
  | waiting => simp [known, phase, Phase.isAble] at isAble
  | running => simp [known, phase, Phase.isAble] at isAble
  | ended => simp [known, phase, Phase.isAble] at isAble

/-- A task that has ended is taken off the list. -/
theorem InLine.collect (inLine : state.InLine state.phase?)
    (ended : ∀ task ∈ state.tasks, task.number = number → task.phase = .ended) :
    (state.collect number).InLine (state.collect number).phase? := by
  obtain ⟨waiting, lined, stands⟩ := inLine.stands
  have wasEnded : ∀ phase ∈ state.phase? number, phase = .ended := by
    intro phase member
    obtain ⟨task, found, rfl⟩ := Option.map_eq_some_iff.mp member
    obtain ⟨inside, named⟩ := task?_mem state number task found
    exact ended task inside named
  have phases : (state.collect number).phase? = Function.update state.phase? number none := by
    have tasks : (state.collect number).tasks = state.tasks.filter fun task => task.number ≠ number := by
      unfold Coordinator.collect
      split <;> rfl
    funext other
    by_cases same : other = number
    · rw [same, Function.update_self, phase?, task?, tasks, List.find?_filter]
      simp
    · rw [Function.update_of_ne same, phase?, phase?, task?, task?, tasks, List.find?_filter]
      congr 2
      funext task
      by_cases named : task.number = other <;> simp [named, same]
  have parts : (state.collect number).able = state.able ∧ (state.collect number).line = state.line ∧
      (state.collect number).free = state.free := by
    unfold Coordinator.collect
    dsimp only
    split
    · refine ⟨?_, rfl, rfl⟩
      unfold Coordinator.able
      dsimp only
      split
      · exact (tasksAmong_append _ _).trans (List.append_nil _)
      · rfl
    · exact ⟨rfl, rfl, rfl⟩
  obtain ⟨ableSame, lineSame, freeSame⟩ := parts
  have notAble : number ∉ state.able := by
    rw [lined.able_iff]
    cases known : state.phase? number with
    | none => simp
    | some phase => simp [wasEnded phase known, Phase.isAble]
  have notWaiting : number ∉ waiting := by
    rw [lined.waiting_iff]
    cases known : state.phase? number with
    | none => simp
    | some phase => simp [wasEnded phase known, Phase.isWaiting]
  refine ⟨⟨waiting, ?_, ?_⟩, fun more first member => ?_⟩
  · rw [phases, ableSame]
    exact lined.update (fun _ _ => Iff.rfl) (by simp [notAble]) lined.once (fun _ _ => Iff.rfl)
      (by simp [notWaiting]) lined.apart
  · rw [phases, lineSame, ableSame, Lined.grantedAmong_update notAble, stands]
  · have given := inLine.served (freeSame ▸ more) first (lineSame ▸ member)
    have different : first ≠ number := by
      rintro rfl
      cases known : state.phase? first with
      | none => simp [known] at given
      | some phase => simp [known, wasEnded phase known, Phase.isGranted] at given
    rwa [phases, Function.update_of_ne different]

/-- A path that has no task gets one, which is the last to be able to move. -/
theorem InLine.dispatch (inLine : state.InLine state.phase?) (consistent : Consistent state)
    (event : WatchEvent) : (state.dispatch event).InLine (state.dispatch event).phase? := by
  unfold Coordinator.dispatch
  split
  · exact inLine.of_same rfl rfl rfl
  · have new : state.task? state.next = none := by
      refine List.find?_eq_none.mpr fun task member => ?_
      have used := consistent.used task.number (List.mem_map.mpr ⟨task, member, rfl⟩)
      simpa using Nat.ne_of_lt used
    have absent : state.phase? state.next = none := by
      rw [phase?, new]
      rfl
    have phases : ({ state with
        inFlight := state.inFlight ++ [event.path]
        tasks := state.tasks ++ [⟨state.next, event.path, .fresh event⟩]
        ready := state.ready ++ [.task state.next]
        next := state.next + 1 } : Coordinator).phase? =
          Function.update state.phase? state.next (some (.fresh event)) := by
      funext other
      by_cases same : other = state.next
      · subst same
        unfold task? at new
        simp [phase?, task?, List.find?_append, new]
      · simp [phase?, task?, List.find?_append, Function.update_of_ne same, Ne.symm same]
    exact inLine.enters (by simp [absent]) (by simp [absent]) phases (tasksAmong_append state.ready _)
      rfl rfl rfl rfl rfl

/-- Dispatching orders leaves the line in order. -/
theorem InLine.dispatchAll (inLine : state.InLine state.phase?) (consistent : Consistent state)
    (orders : List Order) : (state.dispatchAll orders).InLine (state.dispatchAll orders).phase? := by
  induction orders generalizing state with
  | nil => exact inLine.of_same rfl rfl rfl
  | cons order rest inductionHypothesis =>
    cases order with
    | rebuild event => exact inductionHypothesis (inLine.dispatch consistent event) (consistent.dispatch event)
    | stop => exact inLine.of_same rfl rfl rfl

/-- Putting in an order leaves the line in order. -/
theorem InLine.put (inLine : state.InLine state.phase?) (order : Order) :
    (state.put order).InLine (state.put order).phase? := by
  unfold Coordinator.put
  dsimp only
  split
  · exact inLine.of_same ((tasksAmong_append state.ready _).trans (List.append_nil _)) rfl rfl
  · exact inLine.of_same rfl rfl rfl

/-- Every turn keeps the line in order. -/
theorem InLine.turn (inLine : state.InLine state.phase?) (consistent : Consistent state)
    (turn : Turn state occurrence final) : final.InLine final.phase? := by
  cases turn with
  | first mover rest able =>
    have front : state.ready = [] ++ mover :: rest := able
    have sound : Consistent { state with ready := rest } := consistent.takeOff front
    cases mover with
    | task number => exact inLine.resume consistent able
    | dispatcher =>
      have same : ({ state with ready := rest } : Coordinator).InLine state.phase? :=
        inLine.of_same (by simp [Coordinator.able, able, tasksAmong]) rfl rfl
      simp only [perform, serve]
      split
      · exact InLine.dispatchAll same sound _
      · exact same.of_same rfl rfl rfl
      all_goals exact same
    | collector number =>
      have same : ({ state with ready := rest } : Coordinator).InLine state.phase? :=
        inLine.of_same (by simp [Coordinator.able, able, tasksAmong]) rfl rfl
      refine InLine.collect same ?_
      rintro task member rfl
      exact consistent.collected task member (by simp [able])
  | atOnce earlier later number task event failure able found ending =>
    exact inLine.resume_ending consistent able found ending
  | still _ _ step unmoved =>
    cases step with
    | submit event => exact inLine.put (.rebuild event)
    | stop => exact inLine.put .stop
    | move _ _ mover => exact absurd rfl (unmoved mover)
    | finish _ path failure finished =>
      obtain ⟨task, event, member, -, phase, rfl⟩ := finish?_cases finished
      have found := task?_of_mem state task consistent.distinct member
      have known := phase?_of_found found
      exact inLine.enters (by simp [known, phase, Phase.isAble]) (by simp [known, phase, Phase.isWaiting])
        (phase?_setPhase consistent.distinct found (.ending event failure))
        (tasksAmong_append state.ready _) rfl rfl rfl rfl rfl
    | await => exact inLine.of_same rfl rfl rfl
    | look place => exact inLine.of_same rfl rfl rfl

/-- Nobody stands in line at first. -/
theorem ofLimit_inLine (limit : Int) : (ofLimit limit).InLine (ofLimit limit).phase? where
  stands := ⟨[], ⟨fun _ => by simp [able, tasksAmong, ofLimit, phase?, task?], List.nodup_nil,
    fun _ => by simp [ofLimit, phase?, task?], List.nodup_nil⟩, rfl⟩
  served _ := by simp [IsServed, ofLimit]

/-- After any turns the line is in order. -/
theorem Turns.inLine {limit : Int} (turns : Turns (ofLimit limit) past state) :
    state.InLine state.phase? := by
  generalize start : ofLimit limit = first at turns
  induction turns with
  | rest =>
    subst start
    exact ofLimit_inLine limit
  | turn before next inductionHypothesis =>
    subst start
    exact inductionHypothesis.turn before.run.sound.1 next

end

end TreeBuild.Coordinator
