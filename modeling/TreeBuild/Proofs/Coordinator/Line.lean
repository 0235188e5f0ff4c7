import TreeBuild.Proofs.Coordinator.Slots

/-!
# The line for slots

A task that is given a slot stays in the line until it moves, and a slot is given to the first in the line
that has none. So at the front of the line stand those that have been given a slot, and behind them those
that still wait. As long as tasks that are able to move do so in the order in which they became able, the
front of the line is, in its order, what the list of movers says of tasks with a slot. And while a slot is
free, the first in the line has been given one; otherwise the line is empty.

These laws are about the phases of tasks, the tasks that are able to move and those that wait, so they are
stated of these alone. A task that is just moving is in no list and counts as if it had no phase.
-/
namespace TreeBuild

namespace Phase

/-- Whether a task in this phase can move by itself. -/
def isAble : Phase → Bool
  | .fresh _ | .granted _ | .ending _ _ => true
  | .waiting _ | .running _ | .ended => false

/-- Whether a task in this phase has a slot that it has not made use of yet. -/
def isGranted : Phase → Bool
  | .granted _ => true
  | _ => false

/-- Whether a task in this phase waits for a slot. -/
def isWaiting : Phase → Bool
  | .waiting _ => true
  | _ => false

end Phase

/-! ### Phases, and the lists of those that wait -/

/-- The phases of tasks by their numbers. -/
abbrev Phases := Nat → Option Phase

/-- Those among some numbers whose tasks have been given a slot. -/
def grantedAmong (phases : Phases) (able : List Nat) : List Nat :=
  able.filter fun number => (phases number).any Phase.isGranted

/-- What is able to move is listed once, and so is what waits. -/
structure Lined (phases : Phases) (able waiting : List Nat) : Prop where
  able_iff : ∀ number, number ∈ able ↔ (phases number).any Phase.isAble
  once : able.Nodup
  waiting_iff : ∀ number, number ∈ waiting ↔ (phases number).any Phase.isWaiting
  apart : waiting.Nodup

namespace Lined

variable {phases : Phases} {able others waiting line : List Nat} {number : Nat} {phase : Option Phase}

/-- One task may change its phase if it is put into the lists where it belongs then. -/
theorem update (lined : Lined phases able waiting)
    (ableElsewhere : ∀ other, other ≠ number → (other ∈ others ↔ other ∈ able))
    (ableHere : number ∈ others ↔ phase.any Phase.isAble) (once : others.Nodup)
    (waitingElsewhere : ∀ other, other ≠ number → (other ∈ line ↔ other ∈ waiting))
    (waitingHere : number ∈ line ↔ phase.any Phase.isWaiting) (apart : line.Nodup) :
    Lined (Function.update phases number phase) others line where
  able_iff other := by
    by_cases same : other = number
    · rw [same, Function.update_self, ableHere]
    · rw [Function.update_of_ne same, ableElsewhere other same, lined.able_iff]
  once := once
  waiting_iff other := by
    by_cases same : other = number
    · rw [same, Function.update_self, waitingHere]
    · rw [Function.update_of_ne same, waitingElsewhere other same, lined.waiting_iff]
  apart := apart

/-- Whoever waits is not able to move. -/
theorem not_able_of_waiting (lined : Lined phases able waiting) (waits : number ∈ waiting) :
    number ∉ able := by
  rw [lined.able_iff]
  have known := (lined.waiting_iff number).mp waits
  cases here : phases number with
  | none => simp [here] at known
  | some phase => cases phase <;> simp_all [Phase.isWaiting, Phase.isAble]

/-- A task that is not able to move does not count among those with a slot, whatever its phase is. -/
theorem grantedAmong_update (absent : number ∉ able) :
    grantedAmong (Function.update phases number phase) able = grantedAmong phases able := by
  refine List.filter_congr fun other member => ?_
  have different : other ≠ number := by
    rintro rfl
    exact absent member
  rw [Function.update_of_ne different]

end Lined

namespace Coordinator

/-- The phase of the task of a number. -/
def phase? (state : Coordinator) : Phases := fun number => (state.task? number).map (·.phase)

/-- The tasks among movers. -/
def tasksAmong (movers : List Mover) : List Nat :=
  movers.filterMap fun mover =>
    match mover with
    | .task number => some number
    | .dispatcher | .collector _ => none

/-- The tasks that are able to move, from the first to the last that became so. -/
def able (state : Coordinator) : List Nat := tasksAmong state.ready

/-- How the line stands if tasks have these phases: first those that have been given a slot, in the order
in which they are going to move, then those that wait. -/
def StandsInLine (state : Coordinator) (phases : Phases) : Prop :=
  ∃ waiting, Lined phases state.able waiting ∧ state.line = grantedAmong phases state.able ++ waiting

/-- The first in the line has been given a slot. -/
def IsServed (state : Coordinator) (phases : Phases) : Prop :=
  ∀ first ∈ state.line.head?, (phases first).any Phase.isGranted

/-- The line is in order, and its first has been given a slot if there is a free one. -/
structure InLine (state : Coordinator) (phases : Phases) : Prop where
  stands : state.StandsInLine phases
  served : 0 < state.free → state.IsServed phases

/-- The tasks among movers are taken from both parts of a list. -/
@[simp]
theorem tasksAmong_append (movers others : List Mover) :
    tasksAmong (movers ++ others) = tasksAmong movers ++ tasksAmong others :=
  List.filterMap_append

/-- A change of phase is one of the phases by numbers. -/
theorem phase?_setPhase {state : Coordinator} {number : Nat} {task : Task}
    (distinct : state.numbers.Nodup) (found : state.task? number = some task) (phase : Phase) :
    (state.setPhase number phase).phase? = Function.update state.phase? number (some phase) := by
  funext other
  by_cases same : other = number
  · subst same
    rw [phase?, task?_setPhase_self state other task phase distinct found, Function.update_self]
    rfl
  · rw [phase?, task?_setPhase_of_ne state number other phase same, Function.update_of_ne same, phase?]

/-- The phase of a task that is found is its phase. -/
theorem phase?_of_found {state : Coordinator} {number : Nat} {task : Task}
    (found : state.task? number = some task) : state.phase? number = some task.phase := by
  rw [phase?, found]
  rfl

section

variable {state : Coordinator} {number : Nat} {task : Task} {phases : Phases}

/-- A task that waits is found among those that the line is searched for. -/
theorem waitsFor?_isSome : (state.waitsFor? number).isSome ↔ (state.phase? number).any Phase.isWaiting := by
  unfold waitsFor? phase?
  cases state.task? number with
  | none => simp
  | some task =>
    obtain ⟨own, path, phase⟩ := task
    cases phase <;> simp [Phase.isWaiting]

/-- A task that waits for a slot waits by its own number. -/
theorem waitsFor?_eq {pair : Nat × WatchEvent} (waits : state.waitsFor? number = some pair) :
    pair.1 = number := by
  unfold waitsFor? at waits
  split at waits
  · rw [← Option.some.inj waits]
  · cases waits

/-- Giving away a slot while a task moves: the first of those that wait is given it, and afterwards the first
in the line has a slot. -/
theorem StandsInLine.grant (stands : state.StandsInLine (Function.update state.phase? number none))
    (distinct : state.numbers.Nodup) :
    state.grant.StandsInLine (Function.update state.grant.phase? number none) ∧
      state.grant.IsServed (Function.update state.grant.phase? number none) := by
  obtain ⟨waiting, lined, line⟩ := stands
  have same : ∀ other ∈ waiting, other ≠ number ∧ (state.phase? other).any Phase.isWaiting := by
    intro other member
    have waits := (lined.waiting_iff other).mp member
    by_cases moving : other = number
    · simp [moving] at waits
    · exact ⟨moving, by rwa [Function.update_of_ne moving] at waits⟩
  -- Those at the front of the line have a slot, so none of them is chosen.
  have front : ∀ other ∈ grantedAmong (Function.update state.phase? number none) state.able,
      state.waitsFor? other = none := by
    intro other member
    have given := (List.mem_filter.mp member).2
    by_cases moving : other = number
    · simp [moving] at given
    · rw [Function.update_of_ne moving] at given
      refine Option.not_isSome_iff_eq_none.mp fun waits => ?_
      have known := waitsFor?_isSome.mp waits
      cases here : state.phase? other with
      | none => simp [here] at given
      | some phase => cases phase <;> simp_all [Phase.isWaiting, Phase.isGranted]
  have chosen : state.line.findSome? state.waitsFor? = waiting.findSome? state.waitsFor? := by
    rw [line, List.findSome?_append, List.findSome?_eq_none_iff.mpr front, Option.none_or]
  cases waiting with
  | nil =>
    have nobody : state.grant = state := by
      unfold Coordinator.grant
      rw [chosen]
      rfl
    rw [nobody]
    refine ⟨⟨[], lined, line⟩, fun first member => ?_⟩
    rw [line, List.append_nil] at member
    exact (List.mem_filter.mp (List.mem_of_mem_head? member)).2
  | cons next rest =>
    obtain ⟨moving, waits⟩ := same next List.mem_cons_self
    obtain ⟨⟨other, event⟩, told⟩ := Option.isSome_iff_exists.mp (waitsFor?_isSome.mpr waits)
    obtain rfl : other = next := waitsFor?_eq told
    obtain ⟨waiter, found⟩ : ∃ waiter, state.task? other = some waiter := by
      cases found : state.task? other with
      | none => simp [waitsFor?, found] at told
      | some waiter => exact ⟨waiter, rfl⟩
    have given : state.grant = { state.setPhase other (.granted event) with
        free := state.free - 1, ready := state.ready ++ [.task other] } := by
      unfold Coordinator.grant
      rw [chosen, List.findSome?_cons, told]
      rfl
    have phasesAfter : Function.update state.grant.phase? number none =
        Function.update (Function.update state.phase? number none) other (some (.granted event)) := by
      rw [Function.update_comm moving.symm, given]
      exact congrArg (Function.update · number none) (phase?_setPhase distinct found (.granted event))
    have ableAfter : state.grant.able = state.able ++ [other] := by
      rw [able, given]
      simp [able, tasksAmong]
    have lineAfter : state.grant.line = state.line := by
      rw [given]
      rfl
    have notAble := lined.not_able_of_waiting List.mem_cons_self
    have apart := List.nodup_cons.mp lined.apart
    have front : grantedAmong (Function.update (Function.update state.phase? number none) other
        (some (.granted event))) (state.able ++ [other]) =
          grantedAmong (Function.update state.phase? number none) state.able ++ [other] := by
      rw [grantedAmong, List.filter_append]
      refine congrArg₂ _ (Lined.grantedAmong_update notAble) ?_
      simp [Phase.isGranted]
    rw [phasesAfter]
    refine ⟨⟨rest, ?_, ?_⟩, fun first member => ?_⟩
    · rw [ableAfter]
      refine lined.update (fun another different => by simp [different])
        (by simp [Phase.isAble]) ?_ (fun another different => by simp [different])
        (by simp [Phase.isWaiting, apart.1]) apart.2
      exact List.nodup_append.mpr ⟨lined.once, by simp, fun another member _ last same =>
        notAble (List.mem_singleton.mp last ▸ same ▸ member)⟩
    · rw [lineAfter, ableAfter, front, line]
      simp
    · rw [lineAfter, line] at member
      by_cases empty : grantedAmong (Function.update state.phase? number none) state.able = []
      · rw [empty, List.nil_append, List.head?_cons, Option.mem_some_iff] at member
        simp [← member, Phase.isGranted]
      · obtain ⟨head, tail, shape⟩ := List.exists_cons_of_ne_nil empty
        rw [shape, List.cons_append, List.head?_cons, Option.mem_some_iff] at member
        have inside : first ∈ grantedAmong (Function.update state.phase? number none) state.able := by
          rw [shape, ← member]
          exact List.mem_cons_self
        rw [← Lined.grantedAmong_update notAble] at inside
        exact (List.mem_filter.mp inside).2

/-! ### Single operations -/

/-- No task is in a list of its own kind while it moves. -/
theorem InLine.absent (inLine : state.InLine (Function.update state.phase? number none)) :
    number ∉ state.able := by
  obtain ⟨waiting, lined, -⟩ := inLine.stands
  rw [lined.able_iff]
  simp

/-- A task that has moved and now neither waits nor is able to move leaves the line as it is. -/
theorem InLine.rests {final : Coordinator} {phase : Phase}
    (inLine : state.InLine (Function.update state.phase? number none))
    (phases : final.phase? = Function.update state.phase? number (some phase))
    (able : final.able = state.able) (line : final.line = state.line) (free : final.free ≤ state.free)
    (notAble : phase.isAble = false) (notWaiting : phase.isWaiting = false) :
    final.InLine final.phase? := by
  obtain ⟨waiting, lined, stands⟩ := inLine.stands
  have absent : number ∉ waiting := by
    rw [lined.waiting_iff]
    simp
  have same : final.phase? = Function.update (Function.update state.phase? number none) number
      (some phase) := by rw [phases, Function.update_idem]
  refine ⟨⟨waiting, ?_, ?_⟩, fun more first member => ?_⟩
  · rw [same, able]
    exact lined.update (fun _ _ => Iff.rfl) (by simp [inLine.absent, notAble]) lined.once
      (fun _ _ => Iff.rfl) (by simp [absent, notWaiting]) lined.apart
  · rw [line, stands, able, same]
    exact congrArg (· ++ waiting) (Lined.grantedAmong_update inLine.absent).symm
  · rw [line] at member
    have given := inLine.served (more.trans_le free) first member
    have different : first ≠ number := by
      rintro rfl
      simp at given
    rwa [same, Function.update_of_ne different]

/-- A task that has moved and now waits is the last in the line. -/
theorem InLine.joins {final : Coordinator} {event : WatchEvent}
    (inLine : state.InLine (Function.update state.phase? number none))
    (phases : final.phase? = Function.update state.phase? number (some (.waiting event)))
    (able : final.able = state.able) (line : final.line = state.line ++ [number])
    (free : final.free = state.free) (taken : ¬ (0 < state.free ∧ state.line = [])) :
    final.InLine final.phase? := by
  obtain ⟨waiting, lined, stands⟩ := inLine.stands
  have absent : number ∉ waiting := by
    rw [lined.waiting_iff]
    simp
  have same : final.phase? = Function.update (Function.update state.phase? number none) number
      (some (.waiting event)) := by rw [phases, Function.update_idem]
  refine ⟨⟨waiting ++ [number], ?_, ?_⟩, fun more first member => ?_⟩
  · rw [same, able]
    refine lined.update (fun _ _ => Iff.rfl) (by simp [inLine.absent, Phase.isAble]) lined.once
      (fun other different => by simp [different]) (by simp [Phase.isWaiting]) ?_
    exact List.nodup_append.mpr ⟨lined.apart, by simp, fun other member _ last equal =>
      absent (List.mem_singleton.mp last ▸ equal ▸ member)⟩
  · rw [line, stands, able, same, List.append_assoc]
    exact congrArg (· ++ (waiting ++ [number])) (Lined.grantedAmong_update inLine.absent).symm
  · rw [free] at more
    have longer : state.line ≠ [] := fun empty => taken ⟨more, empty⟩
    rw [line, List.head?_append_of_ne_nil _ longer] at member
    have given := inLine.served more first member
    have different : first ≠ number := by
      rintro rfl
      simp at given
    rwa [same, Function.update_of_ne different]

/-- A task that was neither waiting nor able to move and is now able to is the last to be so. -/
theorem InLine.enters {final : Coordinator} {phase : Phase} (inLine : state.InLine state.phase?)
    (wasNotAble : (state.phase? number).any Phase.isAble = false)
    (wasNotWaiting : (state.phase? number).any Phase.isWaiting = false)
    (phases : final.phase? = Function.update state.phase? number (some phase))
    (able : final.able = state.able ++ [number]) (line : final.line = state.line)
    (free : final.free = state.free) (isAble : phase.isAble) (notGranted : phase.isGranted = false)
    (notWaiting : phase.isWaiting = false) : final.InLine final.phase? := by
  obtain ⟨waiting, lined, stands⟩ := inLine.stands
  have absent : number ∉ state.able := by simp [lined.able_iff, wasNotAble]
  have absentWaiting : number ∉ waiting := by simp [lined.waiting_iff, wasNotWaiting]
  refine ⟨⟨waiting, ?_, ?_⟩, fun more first member => ?_⟩
  · rw [phases, able]
    refine lined.update (fun other different => by simp [different]) (by simp [isAble]) ?_
      (fun _ _ => Iff.rfl) (by simp [absentWaiting, notWaiting]) lined.apart
    exact List.nodup_append.mpr ⟨lined.once, by simp, fun other member _ last equal =>
      absent (List.mem_singleton.mp last ▸ equal ▸ member)⟩
  · have front : grantedAmong final.phase? final.able = grantedAmong state.phase? state.able := by
      rw [phases, able, grantedAmong, List.filter_append]
      have here : ([number].filter fun other =>
          (Function.update state.phase? number (some phase) other).any Phase.isGranted) = [] := by
        simp [notGranted]
      rw [here, List.append_nil]
      exact Lined.grantedAmong_update absent
    rw [line, stands, front]
  · rw [line] at member
    have given := inLine.served (free ▸ more) first member
    have different : first ≠ number := by
      rintro rfl
      cases known : state.phase? first with
      | none => simp [known] at given
      | some phase => cases phase <;> simp_all [Phase.isAble, Phase.isGranted]
    rwa [phases, Function.update_of_ne different]

/-- Nothing else than phases, the movers that are tasks, the line and the free slots matters. -/
theorem InLine.of_same {final : Coordinator} (inLine : state.InLine phases) (able : final.able = state.able)
    (line : final.line = state.line) (free : final.free = state.free) : final.InLine phases := by
  obtain ⟨waiting, lined, stands⟩ := inLine.stands
  exact ⟨⟨waiting, able ▸ lined, by rw [line, stands, able]⟩, fun more first member =>
    inLine.served (free ▸ more) first (line ▸ member)⟩

/-- A task that has no slot yet, or whose rebuild has ended, begins to move. -/
theorem InLine.takeOff (inLine : state.InLine state.phase?) {earlier later : List Mover}
    (ready : state.ready = earlier ++ .task number :: later)
    (notGranted : (state.phase? number).any Phase.isGranted = false) :
    ({ state with ready := earlier ++ later } : Coordinator).InLine
      (Function.update state.phase? number none) := by
  obtain ⟨waiting, lined, stands⟩ := inLine.stands
  have cut : state.able = tasksAmong earlier ++ number :: tasksAmong later := by
    rw [able, ready]
    simp [tasksAmong]
  have cutAfter : ({ state with ready := earlier ++ later } : Coordinator).able =
      tasksAmong earlier ++ tasksAmong later := tasksAmong_append earlier later
  have once := cut ▸ lined.once
  have rest := List.nodup_cons.mp (List.nodup_middle.mp once)
  have isAble : (state.phase? number).any Phase.isAble := (lined.able_iff number).mp (by simp [cut])
  have absent : number ∉ waiting := fun waits => lined.not_able_of_waiting waits (by simp [cut])
  refine ⟨⟨waiting, ?_, ?_⟩, fun more first member => ?_⟩
  · rw [cutAfter]
    exact lined.update (fun other different => by simp [cut, different]) (by simp [rest.1]) rest.2
      (fun _ _ => Iff.rfl) (by simp [absent]) lined.apart
  · have front : grantedAmong state.phase? state.able =
        grantedAmong state.phase? (tasksAmong earlier ++ tasksAmong later) := by
      rw [cut, grantedAmong, grantedAmong, List.filter_append, List.filter_append, List.filter_cons,
        if_neg (by simp [notGranted])]
    rw [cutAfter, Lined.grantedAmong_update rest.1, ← front]
    exact stands
  · have given := inLine.served more first member
    have different : first ≠ number := by
      rintro rfl
      rw [notGranted] at given
      cases given
    rwa [Function.update_of_ne different]

/-- The first of the tasks that have been given a slot is the first in the line. When it begins to move, it
leaves the line. -/
theorem InLine.leaves (inLine : state.InLine state.phase?) {later : List Mover}
    (ready : state.ready = .task number :: later) (granted : (state.phase? number).any Phase.isGranted) :
    state.line = number :: state.line.erase number ∧
      ({ state with ready := later, line := state.line.erase number } : Coordinator).StandsInLine
        (Function.update state.phase? number none) := by
  obtain ⟨waiting, lined, stands⟩ := inLine.stands
  have cut : state.able = number :: tasksAmong later := by
    rw [able, ready]
    simp [tasksAmong]
  have rest := List.nodup_cons.mp (cut ▸ lined.once)
  have absent : number ∉ waiting := fun waits => lined.not_able_of_waiting waits (by simp [cut])
  have line : state.line = number :: (grantedAmong state.phase? (tasksAmong later) ++ waiting) := by
    rw [stands, cut, grantedAmong, List.filter_cons, if_pos granted]
    rfl
  have left : state.line.erase number = grantedAmong state.phase? (tasksAmong later) ++ waiting := by
    rw [line, List.erase_cons_head]
  refine ⟨by rw [left, line], waiting, ?_, ?_⟩
  · change Lined _ (tasksAmong later) waiting
    exact lined.update (fun other different => by simp [cut, different]) (by simp [rest.1]) rest.2
      (fun _ _ => Iff.rfl) (by simp [absent]) lined.apart
  · change state.line.erase number = grantedAmong _ (tasksAmong later) ++ waiting
    rw [Lined.grantedAmong_update rest.1, left]

end

end Coordinator

end TreeBuild
