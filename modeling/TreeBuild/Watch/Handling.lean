import TreeBuild.Build.Pipeline
import TreeBuild.Watch.Event

/-!
What an event leads to: the output of a source that is gone is removed, and any other source is
built again by itself. A failure that a build foresees is logged; others are passed on.
-/
namespace TreeBuild.Watch

/-- The name under which the watching of sources is logged. -/
def logSource : String := "modbuild.watch"

/-- Removes the output of a source that is gone and tells whether there was any. Declarations are
left to the tool that writes them. -/
def removeDestination (event : WatchEvent) (layout : Layout) : Action Bool := do
  if !event.isDirectory && Dialect.ofPath event.path = .declaration then return false
  let destination := layout.destination event.path
  let removed ← if event.isDirectory then Output.removeCounterpart event.path layout
    else Output.invalidate destination
  if removed then Action.record logSource .info s!"[deleted] {destination}"
  return removed

/-- Builds the source of an event again, if it is still there. -/
def rebuild (tools : Toolchain) (event : WatchEvent) (request : Request) (layout : Layout) :
    Action Unit := do
  if !(← Action.askFiles (·.isFile event.path)) then return ()
  if Dialect.ofPath event.path = .declaration then return ()
  Action.record logSource .info s!"[{event.kind.name}] rebuilding {event.path}"
  let build : Action Unit := do
    let request ← Action.ask fun tree => request.forPath tree event.path
    discard (Build.run tools request layout)
  match ← Action.attempt build with
  | .ok () => return ()
  | .error fault =>
    if fault.isExpected then
      Action.record logSource .error s!"[rebuild_error] {event.path}: {fault.message}"
    else throw fault

/-- Does what an event calls for. -/
def handle (tools : Toolchain) (event : WatchEvent) (request : Request) (layout : Layout) :
    Action Unit := do
  if event.kind = .removed then discard (removeDestination event layout)
  else rebuild tools event request layout

end TreeBuild.Watch
