import TreeBuild.Environment
import TreeBuild.Watch.Event

/-!
The coordinator of rebuilds. Events are queued, and a dispatcher gives every path a task of its own.
A task calls for the rebuilds of its path, one after the other, and each rebuild needs one of the
slots that all tasks share. An event for a path that has a task already is kept until the rebuild
under way has ended; of several such events only the latest one is kept.

The dispatcher and the tasks move in turns. A move goes from one point of waiting to the next, and what
can move is listed in `ready` in the order in which it became able to. `advance` makes the first of
these moves; `perform` makes any of them, so that other orders can be spoken of too. The rebuilds
themselves are not part of the coordinator: one starts when `history` says so, and `finish?` tells
that it has ended.
-/
namespace TreeBuild

/-- What the dispatcher is asked to do. -/
inductive Order where
  | rebuild (event : WatchEvent)
  /-- Nothing behind this order is looked at. -/
  | stop
  deriving DecidableEq, Repr

/-- Where a task stands between two moves. -/
inductive Phase where
  /-- The task has not moved yet. -/
  | fresh (event : WatchEvent)
  /-- The task waits for a slot. -/
  | waiting (event : WatchEvent)
  /-- The task has been given a slot, and its next move starts the rebuild. -/
  | granted (event : WatchEvent)
  /-- The rebuild is under way. -/
  | running (event : WatchEvent)
  /-- The rebuild has ended, with this failure if there is one. -/
  | ending (event : WatchEvent) (failure : Option String)
  /-- The task has nothing left to do. -/
  | ended
  deriving DecidableEq, Repr

/-- The rebuilds of one path, up to the first moment at which no event for it is left. -/
structure Task where
  number : Nat
  path : Path
  phase : Phase
  deriving DecidableEq, Repr

/-- Waiting for tasks to end, by looking again whenever the tasks seen at the last look have ended. -/
inductive Barrier where
  /-- The next move looks for tasks. -/
  | looking
  /-- These tasks have not ended yet. -/
  | joining (numbers : List Nat)
  /-- There was nothing to wait for at the last look. -/
  | passed
  deriving DecidableEq, Repr

namespace Barrier

/-- What a barrier comes to when it looks and finds these tasks. -/
def look (numbers : List Nat) : Barrier :=
  if numbers.isEmpty then passed else joining numbers

/-- A barrier once a task has ended. -/
def without (number : Nat) : Barrier → Barrier
  | .joining numbers =>
    let rest := numbers.erase number
    if rest.isEmpty then .looking else .joining rest
  | barrier => barrier

end Barrier

/-- What the dispatcher is doing. -/
inductive Dispatcher where
  /-- It waits for an order. -/
  | listening
  /-- An order has come, and its next move deals with what is queued. -/
  | called
  /-- It was stopped and waits for the tasks; once the barrier is passed, it has returned. -/
  | closing (barrier : Barrier)
  deriving DecidableEq, Repr

/-- What is able to move. -/
inductive Mover where
  | dispatcher
  | task (number : Nat)
  /-- A task that has ended is taken off the list. -/
  | collector (number : Nat)
  deriving DecidableEq, Repr

/-- What happened to a rebuild. -/
inductive Happening where
  | started (event : WatchEvent)
  | finished (event : WatchEvent)
  | failed (event : WatchEvent) (failure : String)
  deriving DecidableEq, Repr

/-- The state of the coordinator. -/
structure Coordinator where
  /-- How many rebuilds may be under way at once. -/
  slots : Nat
  /-- The slots that no task has. -/
  free : Nat
  queue : List Order := []
  dispatcher : Dispatcher := .listening
  /-- The paths that have a task. -/
  inFlight : List Path := []
  /-- For paths that have a task, the latest event that came since. -/
  pending : List (Path × WatchEvent) := []
  /-- The tasks, from the oldest to the newest; one that has ended stays until it is collected. -/
  tasks : List Task := []
  /-- The tasks that ask for a slot, in the order in which they asked; one that was given a slot stays
  until it moves. -/
  line : List Nat := []
  /-- What is able to move, from the first to the last that became so. -/
  ready : List Mover := []
  /-- Everything that waits for the coordinator to be idle. -/
  idleWaits : List Barrier := []
  history : List Happening := []
  /-- The number of the next task. -/
  next : Nat := 0
  deriving Repr

namespace Coordinator

/-- What is logged about a rebuild that fails although no failure was foreseen. -/
def failureText (event : WatchEvent) (failure : String) : String :=
  s!"Rebuild failed for {event.path}: {failure}"

/-- The events whose rebuilds have started, in the order of their starts. -/
def started (state : Coordinator) : List WatchEvent :=
  state.history.filterMap fun happening =>
    match happening with
    | .started event => some event
    | _ => none

/-- The events whose rebuilds have succeeded, in the order of their ends. -/
def finished (state : Coordinator) : List WatchEvent :=
  state.history.filterMap fun happening =>
    match happening with
    | .finished event => some event
    | _ => none

/-- What is logged about the rebuilds that have failed, in the order of their ends. -/
def failureTexts (state : Coordinator) : List String :=
  state.history.filterMap fun happening =>
    match happening with
    | .failed event failure => some (failureText event failure)
    | _ => none

/-- How many rebuilds may be under way at once when nothing else is said. -/
def standardLimit : Nat := 4

/-- The limit that the environment gives. -/
def limitOf (environment : Environment) : Setting.Tolerated Int :=
  let name := "WATCH_MAX_CONCURRENCY"
  let read := Setting.toWhole? (Setting.ofVariable environment name) (standardLimit : Int) id name
  let read := read.getD { value := standardLimit }
  { read with value := max 1 read.value }

/-- A coordinator that has nothing to do. At least one rebuild may always be under way. -/
def ofLimit (limit : Int) : Coordinator :=
  let slots := (max 1 limit).toNat
  { slots, free := slots }

/-! ### Tasks and slots -/

/-- The task of a number. -/
def task? (state : Coordinator) (number : Nat) : Option Task :=
  state.tasks.find? fun task => task.number = number

/-- Puts a task into a phase. -/
def setPhase (state : Coordinator) (number : Nat) (phase : Phase) : Coordinator :=
  { state with
    tasks := state.tasks.map fun task =>
      if task.number = number then { task with phase } else task }

/-- Whether a task waits for a slot, and for which event. -/
def waitsFor? (state : Coordinator) (number : Nat) : Option (Nat × WatchEvent) :=
  match state.task? number with
  | some { phase := .waiting event, .. } => some (number, event)
  | _ => none

/-- Gives a free slot to the first task in the line that still waits for one. -/
def grant (state : Coordinator) : Coordinator :=
  match state.line.findSome? state.waitsFor? with
  | none => state
  | some (number, event) =>
    let granted := state.setPhase number (.granted event)
    { granted with free := granted.free - 1, ready := granted.ready ++ [.task number] }

/-- Starts the rebuild of a task that has a slot. -/
def start (state : Coordinator) (number : Nat) (event : WatchEvent) : Coordinator :=
  let started := state.setPhase number (.running event)
  { started with history := started.history ++ [.started event] }

/-- Asks for a slot. A free slot is taken at once only if nothing stands in the line. -/
def acquire (state : Coordinator) (number : Nat) (event : WatchEvent) : Coordinator :=
  if 0 < state.free ∧ state.line = [] then
    ({ state with free := state.free - 1 }).start number event
  else
    let waiting := state.setPhase number (.waiting event)
    { waiting with line := waiting.line ++ [number] }

/-- Gives a slot back, and on to the line. -/
def release (state : Coordinator) : Coordinator :=
  ({ state with free := state.free + 1 }).grant

/-- Notes how a rebuild has ended. -/
def note (state : Coordinator) (event : WatchEvent) (failure : Option String) : Coordinator :=
  let happening := match failure with
    | none => Happening.finished event
    | some message => .failed event message
  { state with history := state.history ++ [happening] }

/-- Goes on with the event that came during the rebuild, or ends the task. -/
def goOn (state : Coordinator) (task : Task) : Coordinator :=
  match state.pending.lookup task.path with
  | some event =>
    ({ state with pending := state.pending.filter fun entry => entry.1 ≠ task.path }).acquire
      task.number event
  | none =>
    let ended := state.setPhase task.number .ended
    { ended with
      inFlight := ended.inFlight.filter (· ≠ task.path)
      ready := ended.ready ++ [.collector task.number] }

/-- The move of a task. -/
def resume (state : Coordinator) (number : Nat) : Coordinator :=
  match state.task? number with
  | none => state
  | some task =>
    match task.phase with
    | .fresh event => state.acquire number event
    | .granted event =>
      let left := { state with line := state.line.erase number }
      (if 0 < left.free then left.grant else left).start number event
    | .ending event failure => ((state.note event failure).release).goOn task
    | .waiting _ | .running _ | .ended => state

/-- Takes a task that has ended off the list, and tells everything that waits for it. -/
def collect (state : Coordinator) (number : Nat) : Coordinator :=
  let idleWaits := state.idleWaits.map (Barrier.without number)
  let tasks := state.tasks.filter fun task => task.number ≠ number
  match state.dispatcher with
  | .closing barrier =>
    let barrier := barrier.without number
    { state with
      tasks, idleWaits, dispatcher := .closing barrier
      ready := if barrier = .looking then state.ready ++ [.dispatcher] else state.ready }
  | _ => { state with tasks, idleWaits }

/-! ### The dispatcher -/

/-- Keeps the event of a path that has a task, and gives any other path a task. -/
def dispatch (state : Coordinator) (event : WatchEvent) : Coordinator :=
  if event.path ∈ state.inFlight then
    { state with
      pending := (state.pending.filter fun entry => entry.1 ≠ event.path) ++ [(event.path, event)] }
  else
    { state with
      inFlight := state.inFlight ++ [event.path]
      tasks := state.tasks ++ [⟨state.next, event.path, .fresh event⟩]
      ready := state.ready ++ [.task state.next]
      next := state.next + 1 }

/-- The numbers of all tasks that have not been collected. -/
def numbers (state : Coordinator) : List Nat := state.tasks.map (·.number)

/-- Lets the dispatcher look for tasks that it has to wait for. -/
def close (state : Coordinator) : Coordinator :=
  { state with dispatcher := .closing (Barrier.look state.numbers) }

/-- Deals with orders up to the first that says to stop. -/
def dispatchAll (state : Coordinator) : List Order → Coordinator
  | [] => { state with queue := [], dispatcher := .listening }
  | .rebuild event :: rest => (state.dispatch event).dispatchAll rest
  | .stop :: rest => ({ state with queue := rest }).close

/-- The move of the dispatcher. -/
def serve (state : Coordinator) : Coordinator :=
  match state.dispatcher with
  | .called => state.dispatchAll state.queue
  | .closing .looking => state.close
  | .listening | .closing _ => state

/-- Whether the dispatcher has returned. -/
def hasReturned (state : Coordinator) : Bool :=
  state.dispatcher = .closing .passed

/-! ### Moves -/

/-- Makes a move. -/
def perform (state : Coordinator) : Mover → Coordinator
  | .dispatcher => state.serve
  | .task number => state.resume number
  | .collector number => state.collect number

/-- Makes the first of the moves that can be made. -/
def advance? (state : Coordinator) : Option Coordinator :=
  match state.ready with
  | [] => none
  | mover :: rest => some (({ state with ready := rest }).perform mover)

/-- Queues an order, and calls the dispatcher if it listens. -/
def put (state : Coordinator) (order : Order) : Coordinator :=
  let queued := { state with queue := state.queue ++ [order] }
  match state.dispatcher with
  | .listening => { queued with dispatcher := .called, ready := queued.ready ++ [.dispatcher] }
  | _ => queued

/-- Queues an event. -/
def submit (state : Coordinator) (event : WatchEvent) : Coordinator := state.put (.rebuild event)

/-- Asks the dispatcher to stop behind all that is queued. -/
def stop (state : Coordinator) : Coordinator := state.put .stop

/-- The task whose rebuild of a path is under way, and the event that is dealt with. -/
def runningOn? (state : Coordinator) (path : Path) : Option (Nat × WatchEvent) :=
  state.tasks.findSome? fun task =>
    match task.phase with
    | .running event => if task.path = path then some (task.number, event) else none
    | _ => none

/-- Tells that the rebuild of a path that is under way has ended. -/
def finish? (state : Coordinator) (path : Path) (failure : Option String) : Option Coordinator := do
  let (number, event) ← state.runningOn? path
  let ended := state.setPhase number (.ending event failure)
  return { ended with ready := ended.ready ++ [.task number] }

/-- Starts to wait until nothing is queued and no task is left. -/
def awaitIdle (state : Coordinator) : Coordinator :=
  { state with idleWaits := state.idleWaits ++ [.looking] }

/-- What one that waits for the coordinator to be idle comes to when it looks. While orders are
queued but no task is left, it looks again. -/
def idleLook (state : Coordinator) (barrier : Barrier) : Barrier :=
  if barrier = .looking then
    if state.tasks = [] ∧ state.queue ≠ [] then .looking else Barrier.look state.numbers
  else barrier

/-- Lets everything look that waits for the coordinator to be idle. -/
def lookForIdle (state : Coordinator) : Coordinator :=
  { state with idleWaits := state.idleWaits.map state.idleLook }

/-- Makes moves in their order as long as the fuel lasts. -/
def advanceFor : Nat → Coordinator → Coordinator
  | 0, state => state
  | fuel + 1, state =>
    match state.advance? with
    | none => state
    | some next => advanceFor fuel next

/-- As many moves as can follow each other while no rebuild ends and no order comes: each queued
order leads to one move of a task, and each task has at most two moves left. -/
def movesLeft (state : Coordinator) : Nat :=
  2 * (state.queue.length + state.tasks.length) + state.ready.length + 1

/-- Makes all moves that can be made, in their order, and lets those look that wait. -/
def settle (state : Coordinator) : Coordinator :=
  (advanceFor state.movesLeft state).lookForIdle

end Coordinator

end TreeBuild
