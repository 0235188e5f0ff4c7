import Mathlib.Algebra.GroupWithZero.Nat
import Mathlib.Data.List.Nodup
import TreeBuild.Watch.Coordinator

/-!
# Single tasks among the tasks of a coordinator

Most moves of the coordinator put one task into another phase and leave the rest of the list of
tasks as it is. With distinct numbers, the list can be cut at the task that a number stands for, and
what a change of phase does to any sum over the tasks is what it does to that one task. The laws of
this module state these cuts once; the invariants of the coordinator are then read off them.

A phase is measured in two ways: whether its task has still something to do, and how many of the
shared slots it takes up.
-/
namespace TreeBuild

namespace Phase

/-- Whether a task in this phase has something left to do. -/
def isUnfinished : Phase → Bool
  | .ended => false
  | _ => true

/-- The slots that a task in this phase has. A rebuild that has ended keeps its slot until the task
moves again. -/
def slots : Phase → Nat
  | .granted _ | .running _ | .ending _ _ => 1
  | .fresh _ | .waiting _ | .ended => 0

/-- Whether the rebuild of a task in this phase is under way. -/
def isRunning : Phase → Bool
  | .running _ => true
  | _ => false

/-- The event that a task in this phase deals with. -/
def event? : Phase → Option WatchEvent
  | .fresh event | .waiting event | .granted event | .running event | .ending event _ => some event
  | .ended => none

/-- The event that a task in this phase has but has not handed over to a rebuild yet. -/
def carried : Phase → List WatchEvent
  | .fresh event | .waiting event | .granted event => [event]
  | .running _ | .ending _ _ | .ended => []

end Phase

namespace Coordinator

/-- The tasks that have something left to do, from the oldest to the newest. -/
def unfinished (state : Coordinator) : List Task :=
  state.tasks.filter (·.phase.isUnfinished)

/-- How many slots the tasks have altogether. -/
def taken (state : Coordinator) : Nat :=
  (state.tasks.map (·.phase.slots)).sum

/-- The list of tasks is cut at the task of a number, and a change of the phase of this number
changes nothing on either side of the cut. -/
theorem tasks_cut (state : Coordinator) (number : Nat) (task : Task)
    (distinct : state.numbers.Nodup) (found : state.task? number = some task) :
    ∃ before after, state.tasks = before ++ task :: after ∧ task.number = number ∧
      ∀ phase, (state.setPhase number phase).tasks = before ++ { task with phase } :: after := by
  obtain ⟨named, before, after, cut, -⟩ := List.find?_eq_some_iff_append.mp found
  have same : task.number = number := by simpa using named
  have apart : number ∉ (before ++ after).map (·.number) := by
    have moved : ((task :: (before ++ after)).map (·.number)).Nodup := by
      have permuted : (before ++ task :: after).Perm (task :: (before ++ after)) := List.perm_middle
      exact (permuted.map (·.number)).nodup_iff.mp (cut ▸ distinct)
    rw [List.map_cons, List.nodup_cons, same] at moved
    exact moved.1
  have kept (phase : Phase) (part : List Task) (inside : part ⊆ before ++ after) :
      part.map (fun other => if other.number = number then { other with phase } else other) =
        part := by
    have unchanged : ∀ other ∈ part,
        (if other.number = number then { other with phase } else other) = other := by
      intro other member
      have different : other.number ≠ number := by
        intro equal
        exact apart (List.mem_map.mpr ⟨other, inside member, equal⟩)
      simp [different]
    exact (List.map_congr_left unchanged).trans part.map_id
  refine ⟨before, after, cut, same, fun phase => ?_⟩
  simp only [setPhase, cut, List.map_append, List.map_cons, same, if_true]
  rw [kept phase before (List.subset_append_left before after),
    kept phase after (List.subset_append_right before after)]

/-- Changing a phase keeps the numbers of the tasks. -/
@[simp]
theorem numbers_setPhase (state : Coordinator) (number : Nat) (phase : Phase) :
    (state.setPhase number phase).numbers = state.numbers := by
  simp only [numbers, setPhase, List.map_map]
  apply List.map_congr_left
  intro task _
  by_cases same : task.number = number <;> simp [same]

/-- The task of a number is one of the tasks and has this number. -/
theorem task?_mem (state : Coordinator) (number : Nat) (task : Task)
    (found : state.task? number = some task) : task ∈ state.tasks ∧ task.number = number :=
  ⟨List.mem_of_find?_eq_some found, by simpa using List.find?_some found⟩

/-- With distinct numbers, every task is found under its own. -/
theorem task?_of_mem (state : Coordinator) (task : Task) (distinct : state.numbers.Nodup)
    (member : task ∈ state.tasks) : state.task? task.number = some task := by
  cases found : state.task? task.number with
  | none =>
    have absent := List.find?_eq_none.mp found task member
    simp at absent
  | some other =>
    obtain ⟨present, same⟩ := task?_mem state task.number other found
    rw [List.inj_on_of_nodup_map distinct present member same]

/-- Changing the phase of a task is seen under its number. -/
theorem task?_setPhase_self (state : Coordinator) (number : Nat) (task : Task) (phase : Phase)
    (distinct : state.numbers.Nodup) (found : state.task? number = some task) :
    (state.setPhase number phase).task? number = some { task with phase } := by
  obtain ⟨before, after, -, same, changed⟩ := tasks_cut state number task distinct found
  have member : { task with phase } ∈ (state.setPhase number phase).tasks := by simp [changed]
  have lookedUp := task?_of_mem (state.setPhase number phase) { task with phase }
    (by simpa using distinct) member
  simpa [same] using lookedUp

/-- Changing the phase of a task is not seen under other numbers. -/
theorem task?_setPhase_of_ne (state : Coordinator) (number other : Nat) (phase : Phase)
    (different : other ≠ number) :
    (state.setPhase number phase).task? other = state.task? other := by
  simp only [task?, setPhase, List.find?_map]
  have tested : ((fun task : Task => decide (task.number = other)) ∘ fun task =>
      if task.number = number then { task with phase } else task) =
      fun task => decide (task.number = other) := by
    funext task
    by_cases same : task.number = number <;> simp [same]
  rw [tested]
  cases found : state.tasks.find? (fun task => decide (task.number = other)) with
  | none => rfl
  | some task =>
    have named : task.number = other := by simpa using List.find?_some found
    simp [named, different]

/-- However phases are weighed, a change of phase changes the weight of all tasks by what it changes for
that task. -/
theorem sum_setPhase (weight : Phase → Nat) (state : Coordinator) (number : Nat) (task : Task)
    (phase : Phase) (distinct : state.numbers.Nodup) (found : state.task? number = some task) :
    ((state.setPhase number phase).tasks.map (weight ·.phase)).sum + weight task.phase =
      (state.tasks.map (weight ·.phase)).sum + weight phase := by
  obtain ⟨before, after, cut, -, changed⟩ := tasks_cut state number task distinct found
  simp only [changed, cut, List.map_append, List.map_cons, List.sum_append, List.sum_cons]
  omega

/-- If tasks that have ended weigh nothing, taking one of them off the list changes no weight. -/
theorem sum_without (weight : Phase → Nat) (none : weight .ended = 0) (number : Nat)
    (tasks : List Task) (ended : ∀ task ∈ tasks, task.number = number → task.phase = .ended) :
    ((tasks.filter fun task => task.number ≠ number).map (weight ·.phase)).sum =
      (tasks.map (weight ·.phase)).sum := by
  induction tasks with
  | nil => rfl
  | cons task rest inductionHypothesis =>
    have others := inductionHypothesis fun other member =>
      ended other (List.mem_cons_of_mem task member)
    by_cases named : task.number = number
    · have nothing : weight task.phase = 0 := by rw [ended task List.mem_cons_self named, none]
      simpa [named, nothing] using others
    · simpa [named] using others

/-- A change of phase changes the number of taken slots by what it changes for that task. -/
theorem taken_setPhase (state : Coordinator) (number : Nat) (task : Task) (phase : Phase)
    (distinct : state.numbers.Nodup) (found : state.task? number = some task) :
    (state.setPhase number phase).taken + task.phase.slots = state.taken + phase.slots :=
  sum_setPhase Phase.slots state number task phase distinct found

/-- A change of phase that leaves open whether something is left to do keeps the paths of the
unfinished tasks. -/
theorem unfinished_setPhase (state : Coordinator) (number : Nat) (task : Task) (phase : Phase)
    (distinct : state.numbers.Nodup) (found : state.task? number = some task)
    (alike : phase.isUnfinished = task.phase.isUnfinished) :
    (state.setPhase number phase).unfinished.map (·.path) = state.unfinished.map (·.path) := by
  obtain ⟨before, after, cut, -, changed⟩ := tasks_cut state number task distinct found
  simp only [unfinished, changed, cut, List.filter_append, List.filter_cons, alike]
  by_cases left : task.phase.isUnfinished <;> simp [left]

/-- A slot goes to the first task in the line that still waits for one, or stays free. -/
theorem grant_cases (state : Coordinator) :
    state.grant = state ∨
      ∃ number event task, state.task? number = some task ∧ task.phase = .waiting event ∧
        state.grant = { state.setPhase number (.granted event) with
          free := state.free - 1, ready := state.ready ++ [.task number] } := by
  unfold grant
  split
  · exact .inl rfl
  · rename_i number event chosen
    obtain ⟨waiting, -, answered⟩ := List.exists_of_findSome?_eq_some chosen
    cases found : state.task? waiting with
    | none => simp [waitsFor?, found] at answered
    | some task =>
      obtain ⟨own, path, phase⟩ := task
      cases phase with
      | waiting wanted =>
        obtain ⟨rfl, rfl⟩ : waiting = number ∧ wanted = event := by
          simpa [waitsFor?, found] using answered
        exact .inr ⟨waiting, wanted, _, found, rfl, rfl⟩
      | _ => simp [waitsFor?, found] at answered

end Coordinator

end TreeBuild
