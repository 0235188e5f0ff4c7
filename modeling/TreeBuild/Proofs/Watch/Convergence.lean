import Mathlib.Logic.Relation
import TreeBuild.Proofs.Coordinator.Delivery
import TreeBuild.Proofs.Watch.Commutation
import TreeBuild.Proofs.Watch.Mirroring

/-!
# The output follows the sources

Sources change at any time, the changes are reported later, and the rebuilds that they call for are started
and take effect later still, in any order that the coordinator allows. So an event may tell of a source what
is no longer true when it is handled. What is always true is the last of the events about a source that are
due: those whose rebuilds are under way, those the coordinator still holds, and those that have not been
reported. And as long as none is due, the destination of the source mirrors it.

The coordinator leaves out events, but never the last one of a path, so its moves preserve this. A change of
a source adds a true event about it. An event that is handled is the first that is due for its path: if it is
the only one, it is true, and the destination mirrors the source afterwards.
-/
namespace TreeBuild.Watch

open TreeBuild.Tree TreeBuild.Coordinator

/-! ### Changes and their reports -/

/-- The events that a change of sources calls for. -/
def announced : RawChange → List WatchEvent
  | .created path => [{ path, kind := .added }]
  | .modified path => [{ path, kind := .modified }]
  | .deleted path => [{ path, kind := .removed }]
  | .moved path target => [{ path, kind := .removed }, { path := target, kind := .added }]
  | .other => []

/-- The paths that a change is about. -/
def concerned : RawChange → List Path
  | .created path | .modified path | .deleted path => [path]
  | .moved path target => [path, target]
  | .other => []

/-- A change of a single file at paths of sources, and what all files hold before and after it. -/
inductive Alters (occurs : Path → Prop) (before after : Contents) : RawChange → Prop where
  | created {path : Path} (content : Text.Bytes) (source : occurs path)
      (absent : before path.parts = none)
      (contents : after = Function.update before path.parts (some content)) :
      Alters occurs before after (.created path)
  | modified {path : Path} (content : Text.Bytes) (source : occurs path)
      (present : before path.parts ≠ none)
      (contents : after = Function.update before path.parts (some content)) :
      Alters occurs before after (.modified path)
  | deleted {path : Path} (source : occurs path) (present : before path.parts ≠ none)
      (contents : after = Function.update before path.parts none) :
      Alters occurs before after (.deleted path)
  | moved {path target : Path} {content : Text.Bytes} (source : occurs path) (goal : occurs target)
      (apart : path ≠ target) (present : before path.parts = some content)
      (contents : after =
        Function.update (Function.update before path.parts none) target.parts (some content)) :
      Alters occurs before after (.moved path target)

/-! ### The system -/

/-- The watching of sources at a moment: the project, the changes that have not been reported, the
coordinator, and the events whose rebuilds have taken effect. -/
structure Watching where
  session : Session
  unreported : List RawChange := []
  coordinator : Coordinator
  handled : List WatchEvent := []

/-- What can happen to a coordinator by itself: no event is submitted, and no rebuild ends. -/
def isInternal : Occurrence → Bool
  | .submitted _ | .ended _ _ => false
  | .stopped | .moved _ | .awaited | .looked _ => true

/-- One step of the whole system. Builds that are started do not fail. -/
inductive Watching.Step (tools : Toolchain) (root : Path) (request : Request) (scope : WatchEvent.Scope)
    (occurs : Path → Prop) : Watching → Watching → Prop where
  /-- A source changes. -/
  | change (state : Watching) {tree : Tree} {change : RawChange} (regular : tree.IsRegular)
      (alters : Alters occurs state.session.tree.contentAt? tree.contentAt? change) :
      Step tools root request scope occurs state { state with
        session := { state.session with tree }
        unreported := state.unreported ++ [change] }
  /-- The first change that has not been reported is, and its events are submitted. -/
  | report (state : Watching) {change : RawChange} {rest : List RawChange} {events : List WatchEvent}
      (first : state.unreported = change :: rest)
      (told : scope.eventsOf state.session.tree false change = .ok events) :
      Step tools root request scope occurs state { state with
        unreported := rest
        coordinator := events.foldl submit state.coordinator }
  /-- The coordinator makes a move. -/
  | coordinate (state : Watching) {occurrence : Occurrence} {next : Coordinator}
      (internal : isInternal occurrence) (step : Coordinator.Step state.coordinator occurrence next) :
      Step tools root request scope occurs state { state with coordinator := next }
  /-- A rebuild that is under way, and that has not had an effect yet, takes effect. -/
  | handle (state : Watching) {number : Nat} {event : WatchEvent} {after : Session}
      (underWay : state.coordinator.runningOn? event.path = some (number, event))
      (waits : state.coordinator.startedOn event.path = eventsOn event.path state.handled ++ [event])
      (settles : Settles tools request (Layout.ofRoot root) event state.session after) :
      Step tools root request scope occurs state { state with
        session := after
        handled := state.handled ++ [event] }
  /-- A rebuild that has had its effect ends. -/
  | finish (state : Watching) {path : Path} {failure : Option String} {next : Coordinator}
      (done : state.coordinator.startedOn path = eventsOn path state.handled)
      (underWay : state.coordinator.finish? path failure = some next) :
      Step tools root request scope occurs state { state with coordinator := next }

/-- Everything has been reported, all events have been handled, and nothing is in flight. -/
structure Watching.IsQuiet (state : Watching) : Prop where
  reported : state.unreported = []
  queue : state.coordinator.queue = []
  inFlight : state.coordinator.inFlight = []
  handled : ∀ path, state.coordinator.startedOn path = eventsOn path state.handled

/-- What is taken for granted about the request and the tools, about the project when the watching begins,
and about all paths at which there is ever a source. -/
structure Premises (tools : Toolchain) (root : Path) (request : Request) (session : Session)
    (scope : WatchEvent.Scope) (occurs : Path → Prop) : Prop where
  writes : tools.WritesTargets (Layout.ofRoot root)
  rooted : root.anchor = .root
  plain : root.IsPlain
  /-- Builds end with the stages that every build has, as they do in development. -/
  stops : request.settled.runtimeOnly
  ready : Ready root session
  /-- Temporary files do not lie among the sources. -/
  away : ¬ (Layout.ofRoot root).sources.parts <+: session.temporary.parts
  watches : WatchEvent.Scope.ofLayout session.tree (Layout.ofRoot root) = .ok scope
  place : ∀ path, occurs path → IsPlace (Layout.ofRoot root) path
  fits : ∀ path, occurs path → path.Fits
  accepted : ∀ path, occurs path → scope.accepts path
  apart : ∀ path, occurs path → ∀ other, occurs other →
    (Layout.ofRoot root).destination path = (Layout.ofRoot root).destination other → path = other
  noDescriptor : ∀ path, occurs path →
    (Layout.ofRoot root).destination path ≠ (Layout.ofRoot root).outputDescriptor

section

variable {tools : Toolchain} {root path : Path} {request : Request} {start : Session}
  {scope : WatchEvent.Scope} {occurs : Path → Prop} {tree : Tree} {change : RawChange}
  {before after : Contents}

/-! ### What the premises say -/

namespace Premises

variable (premises : Premises tools root request start scope occurs)

include premises

/-- The project is placed. -/
theorem placed : (Layout.ofRoot root).IsPlaced :=
  (Layout.isPlaced_ofRoot (by simp [Path.isAbsolute, premises.rooted]) premises.plain).1

/-- Sources lie among the sources. -/
theorem below (source : occurs path) : (Layout.ofRoot root).sources.parts <+: path.parts := by
  obtain ⟨sources, told, rest⟩ := exists_of_bind_eq_ok premises.watches
  obtain ⟨output, -, whole⟩ := exists_of_bind_eq_ok rest
  obtain ⟨-, place, -⟩ := Layout.isPlaced_ofRoot (by simp [Path.isAbsolute, premises.rooted]) premises.plain
  have rooted : (Layout.ofRoot root).sources.anchor = .root := by
    rw [place]
    exact premises.rooted
  have same : sources = (Layout.ofRoot root).sources := Sources.eq_of_resolvePath
    premises.ready.regular.linkless rooted premises.placed.sourcesPlain told
  have scopeSources : scope.sources = (Layout.ofRoot root).sources := by
    rw [← same, ← Except.ok.inj whole]
  have accepted := premises.accepted path source
  unfold WatchEvent.Scope.accepts at accepted
  split at accepted
  · cases accepted
  · rename_i found
    unfold Path.relativeTo? at found
    split at found
    · rename_i front
      exact scopeSources ▸ front.2
    · cases found

/-- No source is a copy of the compiler configuration. -/
theorem ne_copy (source : occurs path) (clock : Nat) :
    (Configuration.copyPath start.temporary clock).parts ≠ path.parts := by
  have src : (Layout.ofRoot root).sources.parts = root.parts ++ ["src"] :=
    congrArg Path.parts (root.div_of_isPart ⟨by decide, by decide, by decide⟩)
  have below := premises.below source
  have away := premises.away
  rw [src] at below away
  exact ne_of_outside below (copyPath_outside (by decide) away clock)

/-- No source is the descriptor of the project. -/
theorem ne_descriptor (source : occurs path) : (Layout.ofRoot root).descriptor.parts ≠ path.parts := by
  have src : (Layout.ofRoot root).sources.parts = root.parts ++ ["src"] :=
    congrArg Path.parts (root.div_of_isPart ⟨by decide, by decide, by decide⟩)
  have descriptor : (Layout.ofRoot root).descriptor.parts = root.parts ++ ["package.json"] :=
    congrArg Path.parts (root.div_of_isPart ⟨by decide, by decide, by decide⟩)
  have below := premises.below source
  rw [src] at below
  refine ne_of_outside below ?_
  rw [descriptor]
  rintro ⟨rest, whole⟩
  simp at whole

/-- Different sources are at different locations. -/
theorem parts_ne {other : Path} (source : occurs path) (another : occurs other) (different : path ≠ other) :
    path.parts ≠ other.parts := by
  intro same
  exact different (Path.eq_of_parts
    ((premises.place path source).rooted.trans (premises.place other another).rooted.symm) same)

/-- No source lies where a destination is. -/
theorem ne_destination {other : Path} (source : occurs path) (another : occurs other) :
    path.parts ≠ ((Layout.ofRoot root).destination other).parts :=
  ne_of_outside ((premises.place other another).destination_within premises.placed) (premises.place path source).outside

/-- A destination is written from the same anchor as the output tree. -/
theorem destination_anchor (source : occurs path) :
    ((Layout.ofRoot root).destination path).anchor = (Layout.ofRoot root).output.anchor := by
  have place := premises.place path source
  obtain ⟨rest, same, -⟩ :=
    Layout.destination_eq premises.placed Layout.saysOfParts_isName place.absolute place.plain
  rw [same]

/-- Destinations lie apart. -/
theorem destinations_ne {other : Path} (source : occurs path) (another : occurs other)
    (different : path ≠ other) : ((Layout.ofRoot root).destination path).parts ≠
      ((Layout.ofRoot root).destination other).parts := by
  intro same
  refine different (premises.apart path source other another ?_)
  exact Path.eq_of_parts ((premises.destination_anchor source).trans (premises.destination_anchor another).symm) same

/-- No destination is the descriptor of the output. -/
theorem destination_ne_descriptor (source : occurs path) :
    ((Layout.ofRoot root).destination path).parts ≠ (Layout.ofRoot root).outputDescriptor.parts := by
  intro same
  refine premises.noDescriptor path source (Path.eq_of_parts ?_ same)
  rw [premises.destination_anchor source]
  exact (congrArg Path.anchor (Output.descriptorOf_eq _)).symm

/-- A source that is reported is accepted as it stands. -/
theorem event_eq (regular : tree.IsRegular) (source : occurs path) (kind : EventKind) :
    scope.event tree kind false path = .ok [{ path, kind }] := by
  have place := premises.place path source
  have resolved := Sources.resolvePath_of_fits regular.linkless place.rooted place.plain
    (premises.fits path source)
  have accepted : scope.accepted? tree path = .ok (some path) := by
    simp only [WatchEvent.Scope.accepted?, resolved, premises.accepted path source, if_true]
  unfold WatchEvent.Scope.event
  rw [accepted]
  rfl

/-- The report of a change of sources leads to the events that the change calls for. -/
theorem eventsOf_eq (regular : tree.IsRegular) (sources : ∀ path ∈ concerned change, occurs path) :
    scope.eventsOf tree false change = .ok (announced change) := by
  cases change with
  | created path => exact premises.event_eq regular (sources path (by simp [concerned])) .added
  | modified path => exact premises.event_eq regular (sources path (by simp [concerned])) .modified
  | deleted path => exact premises.event_eq regular (sources path (by simp [concerned])) .removed
  | moved path target =>
    have gone := premises.event_eq regular (sources path (by simp [concerned])) .removed
    have come := premises.event_eq regular (sources target (by simp [concerned])) .added
    simp only [WatchEvent.Scope.eventsOf, gone, come]
    rfl
  | other => rfl

end Premises

/-! ### What changes come to -/

/-- What a change concerns occurs. -/
theorem Alters.concerned (alters : Alters occurs before after change) :
    ∀ path ∈ concerned change, occurs path := by
  intro path member
  cases alters with
  | created _ source | modified _ source | deleted source =>
    obtain rfl := List.mem_singleton.mp member
    exact source
  | moved source goal =>
    rcases List.mem_pair.mp member with rfl | rfl
    · exact source
    · exact goal

/-- A change is about its paths only. -/
theorem Alters.elsewhere (alters : Alters occurs before after change) {location : Location}
    (other : ∀ path ∈ Watch.concerned change, location ≠ path.parts) : after location = before location := by
  cases alters with
  | created _ _ _ contents | modified _ _ _ contents | deleted _ _ contents =>
    rw [contents, Function.update_of_ne (other _ (by simp [Watch.concerned]))]
  | moved _ _ _ _ contents =>
    rw [contents, Function.update_of_ne (other _ (by simp [Watch.concerned])),
      Function.update_of_ne (other _ (by simp [Watch.concerned]))]

/-- The events that a change calls for are about the paths of the change. -/
theorem path_mem_concerned {event : WatchEvent} (member : event ∈ announced change) :
    event.path ∈ concerned change ∧ event.isDirectory = false := by
  cases change with
  | moved path target =>
    rcases List.mem_pair.mp member with rfl | rfl <;> simp [concerned]
  | other => cases member
  | _ =>
    obtain rfl := List.mem_singleton.mp member
    simp [concerned]

/-- A change announces an event of each path that it concerns. -/
theorem eventsOn_announced_ne_nil (member : path ∈ concerned change) :
    eventsOn path (announced change) ≠ [] := by
  cases change with
  | moved source target =>
    rcases List.mem_pair.mp member with rfl | rfl <;> simp [announced, eventsOn, List.filter_cons]
    split <;> simp
  | other => cases member
  | _ =>
    obtain rfl := List.mem_singleton.mp member
    simp [announced, eventsOn]

/-- The events that a change calls for are true after the change. -/
theorem Alters.isTrue (premises : Premises tools root request start scope occurs)
    (alters : Alters occurs before tree.contentAt? change) {event : WatchEvent}
    (member : event ∈ announced change) : IsTrue tree event := by
  have added {path : Path} {content : Text.Bytes} (source : occurs path) {kind : EventKind}
      (kept : kind ≠ .removed) (here : tree.contentAt? path.parts = some content) :
      IsTrue tree { path, kind } := by
    have held := holdsFile_of_content (premises.fits path source) here
    simp [IsTrue, kept, held]
  have removed {path : Path} (none : tree.contentAt? path.parts = none) :
      IsTrue tree { path, kind := .removed } := by
    simp [IsTrue, holdsFile_of_none none]
  cases alters with
  | created content source _ contents =>
    obtain rfl := List.mem_singleton.mp member
    exact added source (by decide) (by rw [contents, Function.update_self])
  | modified content source _ contents =>
    obtain rfl := List.mem_singleton.mp member
    exact added source (by decide) (by rw [contents, Function.update_self])
  | deleted source _ contents =>
    obtain rfl := List.mem_singleton.mp member
    exact removed (by rw [contents, Function.update_self])
  | moved source goal apart _ contents =>
    rcases List.mem_pair.mp member with rfl | rfl
    · refine removed ?_
      rw [contents, Function.update_of_ne (premises.parts_ne source goal apart), Function.update_self]
    · exact added goal (by decide) (by rw [contents, Function.update_self])

/-! ### What is due -/

/-- The events about a path that are due: those that have started but not taken effect, those that the
coordinator holds, and those of changes that have not been reported. -/
def Watching.IsDue (state : Watching) (path : Path) (due : List WatchEvent) : Prop :=
  ∃ begun, state.coordinator.startedOn path = eventsOn path state.handled ++ begun ∧
    due = begun ++ (state.coordinator.outstandingOn path ++
      eventsOn path (state.unreported.flatMap announced))

/-- What is always true of a source: the last event about it that is due is true, and if none is due, its
destination mirrors it. -/
structure Expected (tools : Toolchain) (root : Path) (request : Request) (rewrites : Bool) (tree : Tree)
    (path : Path) (due : List WatchEvent) : Prop where
  mirrored : due = [] → Dialect.ofPath path ≠ .declaration →
    Mirrored tools (Layout.ofRoot root) request rewrites tree path
  latest : ∀ event, due.getLast? = some event → IsTrue tree event

/-- What is always true of the whole system. -/
structure Sound (tools : Toolchain) (root : Path) (request : Request) (occurs : Path → Prop)
    (start : Session) (state : Watching) : Prop where
  consistent : Consistent state.coordinator
  ready : Ready root state.session
  temporary : state.session.temporary = start.temporary
  environment : state.session.environment = start.environment
  sources : ∀ change ∈ state.unreported, ∀ path ∈ concerned change, occurs path
  tracked : ∀ path, ∃ due, state.IsDue path due ∧
    (∀ event ∈ due, event.path = path ∧ occurs path ∧ event.isDirectory = false) ∧
    (occurs path → Expected tools root request (!Tools.rewritesDisabled start.environment)
      state.session.tree path due)

/-- What is expected stays so when events are left out in favour of later ones. -/
theorem Expected.keeps {rewrites : Bool} {due fewer : List WatchEvent}
    (expected : Expected tools root request rewrites tree path due) (keeps : KeepsLatest fewer due) :
    Expected tools root request rewrites tree path fewer where
  mirrored none := by
    have last := keeps.getLast?
    rw [none, List.getLast?_nil] at last
    exact expected.mirrored (List.getLast?_eq_none_iff.mp last.symm)
  latest event last := expected.latest event (keeps.getLast? ▸ last)

/-- What is expected of a source stays so as long as the source, its destination and the descriptor of the
project do. -/
theorem Expected.congr {rewrites : Bool} {other : Tree} {due : List WatchEvent}
    (expected : Expected tools root request rewrites tree path due)
    (about : ∀ event ∈ due, event.path = path)
    (source : tree.contentAt? path.parts = other.contentAt? path.parts)
    (destination : tree.contentAt? ((Layout.ofRoot root).destination path).parts =
      other.contentAt? ((Layout.ofRoot root).destination path).parts)
    (descriptor : tree.contentAt? (Layout.ofRoot root).descriptor.parts =
      other.contentAt? (Layout.ofRoot root).descriptor.parts) :
    Expected tools root request rewrites other path due where
  mirrored none emitted := (expected.mirrored none emitted).congr source destination descriptor
  latest event last := by
    have here := about event (List.mem_of_getLast? last)
    have truth := expected.latest event last
    rw [IsTrue, here] at truth ⊢
    rw [← holdsFile_congr source]
    exact truth

/-- The coordinator leaves out events only in favour of later ones. -/
theorem Sound.coordinate {state : Watching} (sound : Sound tools root request occurs start state)
    {past : List Occurrence} {next : Coordinator} (run : Run state.coordinator past next)
    {unreported : List RawChange} (within : ∀ change ∈ unreported, change ∈ state.unreported)
    (submitted : ∀ path, eventsOn path (state.unreported.flatMap announced) =
      submittedOn path past ++ eventsOn path (unreported.flatMap announced)) :
    Sound tools root request occurs start { state with coordinator := next, unreported } where
  consistent := run.preserves (fun _ _ _ step sound => sound.step step) sound.consistent
  ready := sound.ready
  temporary := sound.temporary
  environment := sound.environment
  sources change member := sound.sources change (within change member)
  tracked path := by
    obtain ⟨_, ⟨begun, started, rfl⟩, good, expected⟩ := sound.tracked path
    obtain ⟨handed, startedNext, account⟩ := run.account sound.consistent path
    have keeps : KeepsLatest
        ((begun ++ handed) ++ (next.outstandingOn path ++ eventsOn path (unreported.flatMap announced)))
        (begun ++ (state.coordinator.outstandingOn path ++
          eventsOn path (state.unreported.flatMap announced))) := by
      rw [submitted path, List.append_assoc]
      refine (KeepsLatest.refl begun).append ?_
      rw [← List.append_assoc, ← List.append_assoc]
      exact account.append (.refl _)
    refine ⟨_, ⟨begun ++ handed, ?_, rfl⟩, fun event member => ?_, fun source => ?_⟩
    · rw [startedNext, started, List.append_assoc]
    · exact good event (keeps.sublist.subset member)
    · exact (expected source).keeps keeps

/-- A change of a source adds true events about it. -/
theorem Sound.alter {state : Watching} (premises : Premises tools root request start scope occurs)
    (sound : Sound tools root request occurs start state) (regular : tree.IsRegular)
    (alters : Alters occurs state.session.tree.contentAt? tree.contentAt? change) :
    Sound tools root request occurs start { state with
      session := { state.session with tree }
      unreported := state.unreported ++ [change] } where
  consistent := sound.consistent
  ready := by
    refine ⟨regular, sound.ready.plainTemporary, sound.ready.outside, fun clock => ?_⟩
    change tree.contentAt? (Configuration.copyPath state.session.temporary clock).parts = none
    rw [alters.elsewhere fun path member => ?_]
    · exact sound.ready.free clock
    · rw [sound.temporary]
      exact premises.ne_copy (alters.concerned path member) clock
  temporary := sound.temporary
  environment := sound.environment
  sources each member := by
    rcases List.mem_append.mp member with old | new
    · exact sound.sources each old
    · obtain rfl := List.mem_singleton.mp new
      exact alters.concerned
  tracked path := by
    obtain ⟨due, ⟨begun, started, rfl⟩, good, expected⟩ := sound.tracked path
    have added : eventsOn path ((state.unreported ++ [change]).flatMap announced) =
        eventsOn path (state.unreported.flatMap announced) ++ eventsOn path (announced change) := by
      rw [List.flatMap_append, eventsOn_append, List.flatMap_singleton]
    have split : begun ++ (state.coordinator.outstandingOn path ++
        eventsOn path ((state.unreported ++ [change]).flatMap announced)) =
        begun ++ (state.coordinator.outstandingOn path ++
          eventsOn path (state.unreported.flatMap announced)) ++ eventsOn path (announced change) := by
      rw [added, List.append_assoc, List.append_assoc]
    refine ⟨_, ⟨begun, started, rfl⟩, ?_⟩
    rw [split]
    refine ⟨fun event member => ?_, fun source => ?_⟩
    · rcases List.mem_append.mp member with old | new
      · exact good event old
      · obtain ⟨called, here⟩ := List.mem_filter.mp new
        obtain ⟨inside, isFile⟩ := path_mem_concerned called
        obtain rfl : event.path = path := by simpa using here
        exact ⟨rfl, alters.concerned _ inside, isFile⟩
    · by_cases touched : path ∈ concerned change
      · have some := eventsOn_announced_ne_nil touched
        refine ⟨fun none => absurd (List.append_eq_nil_iff.mp none).2 some, fun event last => ?_⟩
        rw [List.getLast?_append_of_ne_nil _ some] at last
        exact alters.isTrue premises (List.mem_of_mem_filter (List.mem_of_getLast? last))
      · have none : eventsOn path (announced change) = [] := by
          refine List.filter_eq_nil_iff.mpr fun event member here => touched ?_
          obtain rfl : event.path = path := by simpa using here
          exact (path_mem_concerned member).1
        have away : ∀ other ∈ concerned change, path.parts ≠ other.parts := fun other member =>
          premises.parts_ne source (alters.concerned other member) fun same => touched (same ▸ member)
        rw [none, List.append_nil]
        refine (expected source).congr (fun event member => (good event member).1) ?_ ?_ ?_
        · exact (alters.elsewhere away).symm
        · exact (alters.elsewhere fun other member =>
            (premises.ne_destination (alters.concerned other member) source).symm).symm
        · exact (alters.elsewhere fun other member =>
            premises.ne_descriptor (alters.concerned other member)).symm

/-- Handling the first event that is due for a source makes the destination mirror the source if no other
event about it is due. -/
theorem Sound.handle {state : Watching} (premises : Premises tools root request start scope occurs)
    (sound : Sound tools root request occurs start state) {event : WatchEvent} {after : Session}
    (waits : state.coordinator.startedOn event.path = eventsOn event.path state.handled ++ [event])
    (settles : Settles tools request (Layout.ofRoot root) event state.session after) :
    Sound tools root request occurs start { state with
      session := after
      handled := state.handled ++ [event] } := by
  obtain ⟨_, ⟨begun, started, rfl⟩, good, expected⟩ := sound.tracked event.path
  obtain rfl : begun = [event] := List.append_cancel_left (started.symm.trans waits)
  obtain ⟨-, source, isFile⟩ := good event (by simp)
  have place := premises.place event.path source
  have mirrors := settles.mirrors premises.writes premises.placed premises.stops sound.ready ⟨place, isFile⟩
    fun _ => (premises.destination_ne_descriptor source).symm
  have outside {location : Location} (away : ¬ (Layout.ofRoot root).output.parts <+: location) :
      state.session.tree.contentAt? location = after.tree.contentAt? location :=
    (mirrors.elsewhere location (ne_of_outside (place.destination_within premises.placed) away)
      (ne_of_outside (output_prefix_descriptor _) away)).symm
  refine ⟨sound.consistent, mirrors.ready, mirrors.temporary.trans sound.temporary,
    mirrors.environment.trans sound.environment, sound.sources, fun path => ?_⟩
  by_cases here : path = event.path
  · subst here
    refine ⟨_, ⟨[], ?_, rfl⟩, fun other member => good other (List.mem_cons_of_mem _ member), fun _ => ?_⟩
    · rw [waits, eventsOn_append]
      simp [eventsOn]
    · rw [List.nil_append]
      constructor
      · intro none emitted
        rw [← sound.environment]
        refine mirrors.mirrored emitted ((expected source).latest event ?_)
        rw [none]
        rfl
      · intro other last
        have truth := (expected source).latest other (by rw [List.getLast?_append, last]; rfl)
        have about : other.path = event.path := (good other (by
          exact List.mem_append_right _ (List.mem_of_getLast? last))).1
        rw [IsTrue, about] at truth ⊢
        rw [← holdsFile_congr (outside place.outside)]
        exact truth
  · obtain ⟨due, ⟨others, startedOther, same⟩, goodOther, expectedOther⟩ := sound.tracked path
    refine ⟨due, ⟨others, ?_, same⟩, goodOther, fun another => ?_⟩
    · rw [eventsOn_append, show eventsOn path [event] = [] by simp [eventsOn, Ne.symm here], List.append_nil]
      exact startedOther
    · refine (expectedOther another).congr (fun other member => (goodOther other member).1) ?_ ?_ ?_
      · exact outside (premises.place path another).outside
      · exact (mirrors.elsewhere _ (premises.destinations_ne another source here)
          (premises.destination_ne_descriptor another)).symm
      · exact outside (Layout.descriptor_outside root)

/-- Submitting events one after the other is a run. -/
theorem run_submitAll (state : Coordinator) (events : List WatchEvent) :
    Run state (events.map .submitted) (events.foldl submit state) := by
  induction events generalizing state with
  | nil => exact .rest state
  | cons event rest inductionHypothesis =>
    have begun : Run state ([] ++ [.submitted event]) (state.submit event) :=
      .step (.rest state) (.submit state event)
    exact begun.trans (inductionHypothesis (state.submit event))

/-- What is submitted for a path are the events of that path. -/
theorem submittedOn_map (path : Path) (events : List WatchEvent) :
    submittedOn path (events.map .submitted) = eventsOn path events := by
  simp [submittedOn, List.filterMap_map]

/-- Every step keeps what is always true. -/
theorem Sound.step {state next : Watching} (premises : Premises tools root request start scope occurs)
    (sound : Sound tools root request occurs start state)
    (step : Watching.Step tools root request scope occurs state next) :
    Sound tools root request occurs start next := by
  have single {occurrence : Occurrence} {next : Coordinator}
      (step : Coordinator.Step state.coordinator occurrence next)
      (silent : ∀ path, submittedOn path [occurrence] = []) :
      Sound tools root request occurs start { state with coordinator := next } := by
    have run : Run state.coordinator ([] ++ [occurrence]) next := .step (.rest _) step
    refine sound.coordinate run (fun _ member => member) ?_
    intro path
    rw [List.nil_append, silent path, List.nil_append]
  cases step with
  | change regular alters => exact sound.alter premises regular alters
  | handle underWay waits settles => exact sound.handle premises waits settles
  | coordinate internal step =>
    refine single step fun path => ?_
    cases step with
    | submit => cases internal
    | finish => cases internal
    | _ => rfl
  | finish done underWay => exact single (.finish _ _ _ _ underWay) fun _ => rfl
  | @report change rest events first told =>
    have sources : ∀ path ∈ concerned change, occurs path := sound.sources change (by simp [first])
    rw [premises.eventsOf_eq sound.ready.regular sources] at told
    obtain rfl := Except.ok.inj told
    refine sound.coordinate (run_submitAll _ _) (fun later member => ?_) fun path => ?_
    · rw [first]
      exact List.mem_cons_of_mem _ member
    · rw [first, List.flatMap_cons, eventsOn_append, submittedOn_map]

/-- Whatever happens to the sources of a project that is watched, and in whatever order changes, reports,
moves of the coordinator and rebuilds follow each other: once everything has been reported, all events have
been handled and nothing is in flight, there is a file at the destination of a source if and only if there
is one at the source, and it was made of what the source holds. -/
theorem watching_converges (premises : Premises tools root request start scope occurs) (limit : Int)
    (mirrored : ∀ path, occurs path → Dialect.ofPath path ≠ .declaration →
      Mirrored tools (Layout.ofRoot root) request (!Tools.rewritesDisabled start.environment) start.tree path)
    {final : Watching}
    (run : Relation.ReflTransGen (Watching.Step tools root request scope occurs)
      { session := start, coordinator := ofLimit limit } final)
    (quiet : final.IsQuiet) :
    ∀ path, occurs path → Dialect.ofPath path ≠ .declaration →
      Mirrored tools (Layout.ofRoot root) request (!Tools.rewritesDisabled start.environment)
        final.session.tree path := by
  have begun : Sound tools root request occurs start { session := start, coordinator := ofLimit limit } := by
    refine ⟨ofLimit_consistent limit, premises.ready, rfl, rfl, by simp, fun path => ?_⟩
    have none := (ofLimit_consistent limit).outstandingOn_idle rfl rfl path
    refine ⟨[], ⟨[], rfl, ?_⟩, by simp, fun source => ⟨fun _ => mirrored path source, by simp⟩⟩
    rw [none]
    rfl
  have sound : Sound tools root request occurs start final := by
    clear quiet
    induction run with
    | refl => exact begun
    | tail _ step inductionHypothesis => exact inductionHypothesis.step premises step
  intro path source
  obtain ⟨due, ⟨others, started, rfl⟩, -, expected⟩ := sound.tracked path
  have nothing : others = [] := by
    rw [quiet.handled path] at started
    exact List.self_eq_append_right.mp started
  have idle := sound.consistent.outstandingOn_idle quiet.queue quiet.inFlight path
  refine (expected source).mirrored ?_
  rw [nothing, idle, quiet.reported]
  rfl

end

/-! ### A source that is created -/

/-- The event about the one source that ever changes. -/
def fourthEvent : WatchEvent := sourceEvent "d.ts" .added

/-- The path of the fourth source. -/
def fourthPath : Path := fourthEvent.path

/-- The coordinator when the rebuild for this event is under way. -/
def fourthBegun : Coordinator := ((ofLimit 1).submit fourthEvent).advanceFor 2

/-- The scope of the events in the project. -/
def watchScope : WatchEvent.Scope := ⟨⟨.root, ["p", "src"]⟩, ⟨.root, ["p", "dist"]⟩⟩

/-- A step of the system in which only this source changes. -/
abbrev FourthStep : Watching → Watching → Prop :=
  Watching.Step Build.plainCompiler.toolchain ⟨.root, ["p"]⟩ watchRequest watchScope (· = fourthPath)

/-- The coordinator may make its moves in their order. -/
theorem Watching.advances {tools : Toolchain} {root : Path} {request : Request} {scope : WatchEvent.Scope}
    {occurs : Path → Prop} (fuel : Nat) (state : Watching) :
    Relation.ReflTransGen (Watching.Step tools root request scope occurs) state
      { state with coordinator := state.coordinator.advanceFor fuel } := by
  induction fuel generalizing state with
  | zero => exact .refl
  | succ fuel inductionHypothesis =>
    cases advanced : state.coordinator.advance? with
    | none => simpa [advanceFor, advanced] using Relation.ReflTransGen.refl
    | some next =>
      obtain ⟨mover, step⟩ := Coordinator.Step.of_advance? advanced
      have others := inductionHypothesis { state with coordinator := next }
      simpa [advanceFor, advanced] using Relation.ReflTransGen.head (.coordinate state rfl step) others

/-- An event that is handled with success is settled. -/
theorem Succeeds.settles {tools : Toolchain} {request : Request} {layout : Layout} {event : WatchEvent}
    {before after : Session} (succeeds : Succeeds tools request layout event before after) :
    Settles tools request layout event before after :=
  ⟨by rw [succeeds.handled], succeeds.built⟩

/-- The watched project meets the premises, with its fourth source as the one that changes. -/
theorem watchSession_premises : Premises Build.plainCompiler.toolchain ⟨.root, ["p"]⟩ watchRequest watchSession
    watchScope (· = fourthPath) where
  writes := watchSetting.writes
  rooted := rfl
  plain := watchSetting.plain
  stops := rfl
  ready := watchSession_ready
  away := by decide +kernel
  watches := by
    have resolves (name : String) (isName : Path.IsName name) (fits : (Path.mk .root ["p", name]).Fits) :
        Sources.resolvePath watchSession.tree ⟨.root, ["p", name]⟩ = .ok ⟨.root, ["p", name]⟩ := by
      refine Sources.resolvePath_of_fits watchSession_ready.regular.linkless rfl ?_ fits
      intro part member
      rcases List.mem_pair.mp member with rfl | rfl
      · decide
      · exact isName
    have sources := resolves "src" (by decide) (by decide +kernel)
    have output := resolves "dist" (by decide) (by decide +kernel)
    have places : (Layout.ofRoot ⟨.root, ["p"]⟩).sources = ⟨.root, ["p", "src"]⟩ ∧
        (Layout.ofRoot ⟨.root, ["p"]⟩).output = ⟨.root, ["p", "dist"]⟩ := by decide +kernel
    unfold WatchEvent.Scope.ofLayout
    rw [places.1, places.2, sources, output]
    rfl
  place := by
    rintro _ rfl
    have names : fourthPath.IsPlain ∧ Glob.hasMagic fourthPath.toString = false ∧
        ¬ (Layout.ofRoot ⟨.root, ["p"]⟩).output.parts <+: fourthPath.parts := by decide +kernel
    exact ⟨rfl, names.1, List.cons_ne_nil _ _, names.2.1, names.2.2⟩
  fits := by
    rintro _ rfl
    decide +kernel
  accepted := by
    rintro _ rfl
    decide +kernel
  apart := by
    rintro _ rfl _ rfl _
    rfl
  noDescriptor := by
    rintro _ rfl
    decide +kernel

/-- A source is created, the change is reported, and its rebuild starts, takes effect and ends. -/
theorem watching_converges_of_created : ∃ final : Watching,
    Relation.ReflTransGen FourthStep { session := watchSession, coordinator := ofLimit 1 } final ∧
    final.IsQuiet ∧ final.session.tree.holdsFile fourthPath = true ∧
    Mirrored Build.plainCompiler.toolchain (.ofRoot ⟨.root, ["p"]⟩) watchRequest true final.session.tree
      fourthPath := by
  have computed : ((watchSession.tree.write fourthPath []).toOption.bind fun tree =>
      (afterwards? fourthEvent { watchSession with tree }).filter fun after =>
        after.tree.holdsFile fourthPath).isSome := by decide +kernel
  obtain ⟨after, computed⟩ := Option.isSome_iff_exists.mp computed
  obtain ⟨tree, written, ended⟩ := Option.bind_eq_some_iff.mp computed
  obtain ⟨ended, held⟩ := Option.filter_eq_some_iff.mp ended
  have premises := watchSession_premises
  have changes := (watchSession_ready.regular.write (premises.place fourthPath rfl).plain
    (ok_of_toOption written)).2
  have absent : watchSession.tree.contentAt? fourthPath.parts = none := by decide +kernel
  have nowhere : watchSession.tree.contentAt?
      ((Layout.ofRoot ⟨.root, ["p"]⟩).destination fourthPath).parts = none := by decide +kernel
  have mirrored : ∀ path, path = fourthPath → Dialect.ofPath path ≠ .declaration →
      Mirrored Build.plainCompiler.toolchain (.ofRoot ⟨.root, ["p"]⟩) watchRequest true watchSession.tree
        path := by
    rintro _ rfl _
    have none := holdsFile_of_none absent
    refine ⟨by rw [none, holdsFile_of_none nowhere], fun held => ?_⟩
    rw [none] at held
    cases held
  have settles := (succeeds_of_afterwards ended).settles
  have begun : Relation.ReflTransGen FourthStep { session := watchSession, coordinator := ofLimit 1 }
      ⟨{ watchSession with tree }, [], fourthBegun, []⟩ :=
    .trans (.tail (.single (.change _ changes.regular (.created [] rfl absent changes.contents)))
      (.report _ rfl (premises.eventsOf_eq changes.regular (by simp [concerned])))) (Watching.advances 2 _)
  have underWay : fourthBegun.runningOn? fourthPath = some (0, fourthEvent) := by decide +kernel
  have waits : fourthBegun.startedOn fourthPath = [fourthEvent] := by decide +kernel
  have handled : FourthStep ⟨{ watchSession with tree }, [], fourthBegun, []⟩
      ⟨after, [], fourthBegun, [fourthEvent]⟩ :=
    .handle ⟨{ watchSession with tree }, [], fourthBegun, []⟩ underWay waits settles
  obtain ⟨idle, finished⟩ : ∃ idle, fourthBegun.finish? fourthPath none = some idle :=
    Option.isSome_iff_exists.mp (by decide +kernel)
  have ended : FourthStep ⟨after, [], fourthBegun, [fourthEvent]⟩ ⟨after, [], idle, [fourthEvent]⟩ :=
    .finish ⟨after, [], fourthBegun, [fourthEvent]⟩ waits finished
  have run : Relation.ReflTransGen FourthStep { session := watchSession, coordinator := ofLimit 1 }
      ⟨after, [], idle.advanceFor 1, [fourthEvent]⟩ :=
    ((begun.tail handled).tail ended).trans (Watching.advances 1 _)
  have settled : ∀ idle ∈ fourthBegun.finish? fourthPath none, (idle.advanceFor 1).queue = [] ∧
      (idle.advanceFor 1).inFlight = [] ∧ (idle.advanceFor 1).started = [fourthEvent] := by decide +kernel
  obtain ⟨queue, inFlight, started⟩ := settled idle finished
  have quiet : Watching.IsQuiet ⟨after, [], idle.advanceFor 1, [fourthEvent]⟩ :=
    ⟨rfl, queue, inFlight, fun path => congrArg (eventsOn path) started⟩
  exact ⟨_, run, quiet, held, watching_converges premises 1 mirrored run quiet fourthPath rfl (by decide +kernel)⟩

end TreeBuild.Watch
