import TreeBuild.Watch.Coordinator
import TreeBuild.Watch.Handling

/-!
Watching the sources of a project: one full build first, then whatever the changes call for. A full
build that fails in a foreseen way does not end the watching, because the next change may mend the
sources. What the observer reports is translated into events and handed to the coordinator, whose
rebuilds are made in the order in which they start.
-/
namespace TreeBuild

/-- What a watcher asks of the observer of the file system. -/
inductive ObserverCall where
  | schedule (path : Path) (recursive : Bool)
  | start
  | stop
  | join
  deriving DecidableEq, Repr

/-- The watching of the sources of one project. -/
structure Watcher where
  layout : Layout
  request : Request
  /-- Whether the observer compares the sources from time to time instead of being told. -/
  usesPolling : Bool
  coordinator : Coordinator

namespace Watcher

/-- A watcher. What is not given is taken from the environment. -/
def create (layout : Layout) (request : Request) (usesPolling : Option Bool)
    (limit : Option Int) : Action Watcher := do
  let request ← Action.ask fun _ => request.normalized
  let environment := (← get).environment
  let usesPolling := usesPolling.getD (Setting.flag environment "WATCH_USE_POLLING" false)
  match limit with
  | some limit => return { layout, request, usesPolling, coordinator := Coordinator.ofLimit limit }
  | none =>
    let limit := Coordinator.limitOf environment
    if let some complaint := limit.complaint then
      Action.record Watch.logSource .warning complaint
    return { layout, request, usesPolling, coordinator := Coordinator.ofLimit limit.value }

/-- Says that the observer compares the sources from time to time, if it does. -/
def announceObserver (usesPolling : Bool) : Action Unit :=
  if usesPolling then
    Action.record Watch.logSource .info "Using polling observer (interval 1.0s)"
  else return ()

/-- A full build. -/
def buildAll (watcher : Watcher) (tools : Toolchain) : Action Unit :=
  discard (Build.run tools watcher.request watcher.layout)

/-- The full build that comes first, which needs sources. -/
def prepare (watcher : Watcher) (tools : Toolchain) : Action Unit := do
  let sources := watcher.layout.sources
  if !(← Action.askFiles (·.isDirectory sources)) then
    throw (.configuration (.noSourceDirectory sources))
  match ← Action.attempt (watcher.buildAll tools) with
  | .ok () => return ()
  | .error fault =>
    if fault.isExpected then
      Action.record Watch.logSource .error s!"Initial build failed: {fault.message}"
    else throw fault

/-- What the observer is asked when the watching begins. -/
def opening (watcher : Watcher) : List ObserverCall :=
  [.schedule watcher.layout.sources true, .start]

/-- What the observer is asked when the watching ends. -/
def closing : List ObserverCall := [.stop, .join]

/-- Begins to watch, and gives the scope of the events. -/
def beginWatching (watcher : Watcher) : Action WatchEvent.Scope := do
  let scope ← Action.ask (WatchEvent.Scope.ofLayout · watcher.layout)
  Action.record Watch.logSource .info s!"Watching {watcher.layout.sources} for changes"
  return scope

/-- Hands the events of a raw change to the coordinator. -/
def receive (watcher : Watcher) (scope : WatchEvent.Scope) (isDirectory : Bool)
    (change : RawChange) : Action Watcher := do
  let events ← Action.ask fun tree => scope.eventsOf tree isDirectory change
  return { watcher with coordinator := events.foldl Coordinator.submit watcher.coordinator }

/-- Makes one rebuild and tells how it ended. Only an interruption is passed on. -/
def rebuild (watcher : Watcher) (tools : Toolchain) (event : WatchEvent) :
    Action (Option String) := do
  match ← Action.attempt (Watch.handle tools event watcher.request watcher.layout) with
  | .ok () => return none
  | .error fault =>
    if fault.isInterruption then throw fault
    Action.record Watch.logSource .error (Coordinator.failureText event fault.message)
    return some fault.message

/-- Makes the rebuilds that are due, from the first to the last that started, and those that follow
from them. -/
def workFor (tools : Toolchain) : Nat → List WatchEvent → Watcher → Action Watcher
  | 0, _, watcher => return watcher
  | fuel + 1, due, watcher => do
    let settled := watcher.coordinator.settle
    let coordinator := { settled with history := [] }
    match due ++ settled.started with
    | [] => return { watcher with coordinator }
    | event :: rest =>
      let failure ← watcher.rebuild tools event
      let coordinator := (coordinator.finish? event.path failure).getD coordinator
      workFor tools fuel rest { watcher with coordinator }

/-- Makes all rebuilds that the queued events call for. There are no more of them than there are
events. -/
def work (watcher : Watcher) (tools : Toolchain) : Action Watcher :=
  let state := watcher.coordinator
  workFor tools (state.queue.length + state.pending.length + state.tasks.length + 1) [] watcher

/-- Ends the watching, once all that is queued has been dealt with. -/
def endWatching (watcher : Watcher) (tools : Toolchain) : Action Watcher := do
  let stopped : Watcher := { watcher with coordinator := watcher.coordinator.stop }
  let final ← stopped.work tools
  Action.record Watch.logSource .info s!"Stopped watching {watcher.layout.sources}"
  return final

/-- Watches no longer than the full build and what is queued take. -/
def runOnce (watcher : Watcher) (tools : Toolchain) : Action Unit := do
  watcher.prepare tools
  discard watcher.beginWatching
  discard (watcher.endWatching tools)

end Watcher

end TreeBuild
