import TreeBuild.Proofs.Coordinator.Tasks

/-!
# Runs of the coordinator in any order

The coordinator keeps what is able to move in the order in which it became able to. A run need not
follow this order: at every step any of the movers may be the next one, an event or the order to stop
may arrive, a rebuild that is under way may end with or without a failure, and whoever waits for the
coordinator to be idle may look. Every interleaving is therefore a run, and a law about all runs holds
whatever the scheduler does.

A rebuild that ends without ever waiting is the run in which its end and the next move of its task
follow its start at once, so such rebuilds need no steps of their own.
-/
namespace TreeBuild.Coordinator

/-- What can happen to a coordinator. -/
inductive Occurrence where
  | submitted (event : WatchEvent)
  | stopped
  | moved (mover : Mover)
  /-- The rebuild of a path has ended, with this failure if there is one. -/
  | ended (path : Path) (failure : Option String)
  | awaited
  /-- The one that waits at this place for the coordinator to be idle looks. -/
  | looked (place : Nat)
  deriving DecidableEq, Repr

/-- One step from a state to the next. A mover is taken off the list of those that are able to move,
wherever it stands in it. -/
inductive Step : Coordinator → Occurrence → Coordinator → Prop where
  | submit (state : Coordinator) (event : WatchEvent) :
      Step state (.submitted event) (state.submit event)
  | stop (state : Coordinator) : Step state .stopped state.stop
  | move (state : Coordinator) (earlier later : List Mover) (mover : Mover)
      (able : state.ready = earlier ++ mover :: later) :
      Step state (.moved mover) (({ state with ready := earlier ++ later }).perform mover)
  | finish (state ended : Coordinator) (path : Path) (failure : Option String)
      (underWay : state.finish? path failure = some ended) :
      Step state (.ended path failure) ended
  | await (state : Coordinator) : Step state .awaited state.awaitIdle
  | look (state : Coordinator) (place : Nat) :
      Step state (.looked place)
        { state with idleWaits := state.idleWaits.modify place state.idleLook }

/-- Any number of steps, with what happened in their order. -/
inductive Run : Coordinator → List Occurrence → Coordinator → Prop where
  | rest (state : Coordinator) : Run state [] state
  | step {state middle final : Coordinator} {past : List Occurrence} {occurrence : Occurrence}
      (before : Run state past middle) (next : Step middle occurrence final) :
      Run state (past ++ [occurrence]) final

/-- Runs follow each other. -/
theorem Run.trans {state middle final : Coordinator} {past future : List Occurrence}
    (before : Run state past middle) (after : Run middle future final) :
    Run state (past ++ future) final := by
  induction after with
  | rest => simpa using before
  | step _ next inductionHypothesis =>
    rw [← List.append_assoc]
    exact .step inductionHypothesis next

/-- A property that every step preserves holds after every run if it holds before. -/
theorem Run.preserves {property : Coordinator → Prop}
    (kept : ∀ state occurrence final, Step state occurrence final → property state →
      property final)
    {state final : Coordinator} {past : List Occurrence} (run : Run state past final)
    (start : property state) : property final := by
  induction run with
  | rest => exact start
  | step _ next inductionHypothesis => exact kept _ _ _ next inductionHypothesis

/-- What a state becomes by an occurrence, if it can occur. -/
def after? (state : Coordinator) : Occurrence → Option Coordinator
  | .submitted event => some (state.submit event)
  | .stopped => some state.stop
  | .moved mover =>
    if mover ∈ state.ready then some (({ state with ready := state.ready.erase mover }).perform mover)
    else none
  | .ended path failure => state.finish? path failure
  | .awaited => some state.awaitIdle
  | .looked place => some { state with idleWaits := state.idleWaits.modify place state.idleLook }

/-- What a state becomes by a list of occurrences. -/
def replay? (state : Coordinator) (past : List Occurrence) : Option Coordinator :=
  past.foldlM after? state

/-- An occurrence that can be computed is a step. -/
theorem Step.of_after? {state final : Coordinator} {occurrence : Occurrence}
    (computed : state.after? occurrence = some final) : Step state occurrence final := by
  cases occurrence with
  | submitted event => exact Option.some.inj computed ▸ .submit state event
  | stopped => exact Option.some.inj computed ▸ .stop state
  | moved mover =>
    by_cases able : mover ∈ state.ready
    · obtain ⟨earlier, later, -, cut, rest⟩ := List.exists_erase_eq able
      simp only [after?, able, if_true, rest] at computed
      exact Option.some.inj computed ▸ .move state earlier later mover cut
    · simp [after?, able] at computed
  | ended path failure => exact .finish state final path failure computed
  | awaited => exact Option.some.inj computed ▸ .await state
  | looked place => exact Option.some.inj computed ▸ .look state place

/-- Whatever can be replayed is a run. -/
theorem Run.of_replay? {state final : Coordinator} {past : List Occurrence}
    (computed : state.replay? past = some final) : Run state past final := by
  induction past generalizing state with
  | nil => exact Option.some.inj computed ▸ .rest state
  | cons occurrence rest inductionHypothesis =>
    cases first : state.after? occurrence with
    | none => simp [replay?, first] at computed
    | some middle =>
      have following : middle.replay? rest = some final := by simpa [replay?, first] using computed
      have begun : Run state ([] ++ [occurrence]) middle := .step (.rest state) (.of_after? first)
      exact begun.trans (inductionHypothesis following)

/-- Making the first of the moves that can be made is a step. -/
theorem Step.of_advance? {state next : Coordinator} (advanced : state.advance? = some next) :
    ∃ mover, Step state (.moved mover) next := by
  unfold advance? at advanced
  split at advanced
  · cases advanced
  · rename_i mover rest able
    cases advanced
    exact ⟨mover, .move state [] rest mover able⟩

/-- Moves in their order are a run, however many are made. -/
theorem Run.advanceFor (fuel : Nat) (state : Coordinator) :
    ∃ past, Run state past (advanceFor fuel state) := by
  induction fuel generalizing state with
  | zero => exact ⟨[], .rest state⟩
  | succ fuel inductionHypothesis =>
    cases advanced : state.advance? with
    | none => exact ⟨[], by simpa [Coordinator.advanceFor, advanced] using Run.rest state⟩
    | some next =>
      obtain ⟨mover, first⟩ := Step.of_advance? advanced
      obtain ⟨past, others⟩ := inductionHypothesis next
      have begun : Run state [.moved mover] next := .step (.rest state) first
      exact ⟨_, by simpa [Coordinator.advanceFor, advanced] using begun.trans others⟩

end TreeBuild.Coordinator
