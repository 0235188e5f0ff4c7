import TreeBuild.Proofs.Build.Containment
import TreeBuild.Proofs.Build.Steps
import TreeBuild.Proofs.Output.Declaration
import TreeBuild.Proofs.Watch.Effect

/-!
# The declared linkage while sources are watched

A build of files that stops once the output can be run patches the descriptor of the output last. If it
succeeds, the linkage is declared then, whatever the descriptor held before and whatever the tools do.

An event about a source that is gone starts no build. It removes one file of the output, or what belongs to
a directory of sources, and the descriptor is not patched. Only one event takes the descriptor away: that the
source with the name of the descriptor is gone. From then on no linkage is declared until something is built
again, and whether it is declared at the end can be read off the events and what they found.
-/
namespace TreeBuild

open TreeBuild.Tree

/-! ### Builds -/

namespace Build

section

variable {tools : Toolchain} {compiler : Compiler} {request : Request} {layout : Layout} {start final : Session}

/-- The last step of a build that stops once the output can be run patches the descriptor. -/
theorem Completes.declares {stages : List Stage} {report : Report} {endings : List Ending}
    (completes : Completes (Step.effect tools compiler request layout) start
      (steps request start.environment) stages report endings final) (stops : request.runtimeOnly) :
    Output.Declares request.format layout.outputDescriptor final.tree := by
  obtain ⟨work, last, leads, journal, rfl⟩ := completes.leads
  obtain ⟨front, whole⟩ := steps_eq_append_patching start.environment stops
  rw [whole] at leads
  generalize taken : front ++ [Step.stage .patchingMetadata] = all at leads
  cases leads with
  | start => simp at taken
  | passed step before relogs does =>
    obtain rfl : Step.stage .patchingMetadata = step := (List.append_inj' taken rfl).2 |> List.singleton_inj.mp
    have patched (work : Work) : Ends (fun _ => True)
        (Step.effect tools compiler request layout (.stage .patchingMetadata) work)
        (fun _ session => Output.Declares request.format layout.outputDescriptor session.tree)
        (fun _ => True) :=
      Ends.bind (Output.patchType_declares layout.output request.format) fun _ => .pure fun _ declares => declares
    have declares := (patched _).answered trivial does
    exact declares
  | endured stage before relogs does optional =>
    obtain rfl : Stage.patchingMetadata = stage := by simpa using (List.append_inj' taken rfl).2
    cases optional

/-- A build of files that succeeds declares the linkage that its request asks for. -/
theorem run_declares (tools : Toolchain) (layout : Layout) (isFiles : request.isLiteral = false)
    (stops : request.settled.runtimeOnly) :
    Ends (fun _ => True) (run tools request layout)
      (fun _ session => Output.Declares request.format layout.outputDescriptor session.tree)
      (fun _ => True) := by
  refine ⟨fun start _ => ?_⟩
  have literal : request.settled.isLiteral = false := isFiles
  rcases run_cases tools request layout start with ⟨fault, ran, -⟩ | ⟨compiler, result, state, -, -, ended, ran⟩
  · rw [ran]
    trivial
  · rw [literal, if_neg Bool.false_ne_true] at ended
    have known := (buildFiles_completes tools compiler request.settled layout start
      request.settled.mode.name).outcome _ rfl
    rw [ended] at known
    rw [ran]
    rcases result with fault | outcome
    · trivial
    · obtain ⟨report, -, endings, completes⟩ := known
      exact completes.declares stops

end

end Build

/-! ### What the descriptor holds -/

namespace Output

section

variable {format : OutputFormat} {descriptor : Path} {tree other : Tree}

/-- Where a linkage is declared, there is a file. -/
theorem Declares.holdsFile (declares : Declares format descriptor tree) (regular : tree.IsRegular)
    (plain : descriptor.IsPlain) : tree.holdsFile descriptor = true := by
  obtain ⟨text, fields, told, -⟩ := declares
  unfold Session.textAt at told
  split at told
  · cases told
  · rename_i bytes read
    obtain ⟨fits, held⟩ := (regular.read_iff plain).mp read
    simp [Tree.holdsFile, fits, held]

/-- Whether a linkage is declared depends on the content of the descriptor alone. -/
theorem declares_congr (regular : tree.IsRegular) (regularOther : other.IsRegular) (plain : descriptor.IsPlain)
    (same : other.contentAt? descriptor.parts = tree.contentAt? descriptor.parts) :
    Declares format descriptor other ↔ Declares format descriptor tree := by
  have reads (content : Text.Bytes) : other.read descriptor = .ok content ↔ tree.read descriptor = .ok content := by
    rw [regularOther.read_iff plain, regular.read_iff plain, same]
  have texts (text : String) :
      Session.textAt other descriptor = .ok text ↔ Session.textAt tree descriptor = .ok text := by
    unfold Session.textAt
    cases first : other.read descriptor with
    | ok content => rw [(reads content).mp first]
    | error fault =>
      cases second : tree.read descriptor with
      | ok content =>
        rw [(reads content).mpr second] at first
        cases first
      | error another => simp
  unfold Declares
  simp only [texts]

end

end Output

/-! ### Events -/

namespace Watch

/-- A path by names to a source. -/
structure IsSourcePath (layout : Layout) (path : Path) : Prop where
  rooted : path.anchor = .root
  plain : path.IsPlain
  below : layout.sources.parts <+: path.parts

/-- The source with the name of the descriptor is gone. -/
def TakesDescriptor (layout : Layout) (event : WatchEvent) : Prop :=
  event.kind = .removed ∧ event.isDirectory = false ∧ event.path = layout.sources / "package.json"

/-- An event starts a build in this tree. -/
def StartsBuild (tree : Tree) (event : WatchEvent) : Prop :=
  event.kind ≠ .removed ∧ tree.isFile event.path = .ok true ∧ Dialect.ofPath event.path ≠ .declaration

/-- A tree has no links, and holds at a path what another one holds there. -/
structure Spares (path : Path) (before after : Tree) : Prop where
  regular : after.IsRegular
  same : after.contentAt? path.parts = before.contentAt? path.parts

/-- No file is at a destination, and all other files are as they were. -/
structure Removed (destination : Path) (before after : Tree) : Prop where
  regular : after.IsRegular
  absent : after.holdsFile destination = false
  elsewhere : ∀ location, location ≠ destination.parts → after.contentAt? location = before.contentAt? location

section

variable {root path : Path} {layout : Layout} {tools : Toolchain} {request : Request} {event : WatchEvent}
  {before after : Session} {tree : Tree} {format : OutputFormat}

/-- A source has a place below the directory of the sources. -/
theorem IsSourcePath.relativeTo (source : IsSourcePath (Layout.ofRoot root) path) (rooted : root.anchor = .root)
    (plain : root.IsPlain) : ∃ rest, path.relativeTo? (Layout.ofRoot root).sources = some ⟨.relative, rest⟩ ∧
      path = ⟨root.anchor, (Layout.ofRoot root).sources.parts ++ rest⟩ := by
  obtain ⟨rest, whole⟩ := source.below
  have anchor : path.anchor = (Layout.ofRoot root).sources.anchor := by
    rw [(Layout.isPlaced_ofRoot (by simp [Path.isAbsolute, rooted]) plain).2.1, rooted, source.rooted]
  refine ⟨rest, ?_, Path.eq_of_parts (source.rooted.trans rooted.symm) whole.symm⟩
  unfold Path.relativeTo?
  rw [if_pos ⟨anchor, rest, whole⟩]
  simp [← whole]

/-- The descriptor of the output is the destination of one source only. -/
theorem IsSourcePath.destination_eq_iff (source : IsSourcePath (Layout.ofRoot root) path)
    (rooted : root.anchor = .root) (plain : root.IsPlain) :
    ((Layout.ofRoot root).destination path).parts = (Layout.ofRoot root).outputDescriptor.parts ↔
      path = (Layout.ofRoot root).sources / "package.json" := by
  obtain ⟨placed, sources, output⟩ := Layout.isPlaced_ofRoot (by simp [Path.isAbsolute, rooted]) plain
  have package : Path.IsPart "package.json" := ⟨by decide, by decide, by decide⟩
  have absolute : path.isAbsolute := by simp [Path.isAbsolute, source.rooted]
  have descriptor : (Layout.ofRoot root).outputDescriptor.parts =
      (Layout.ofRoot root).output.parts ++ ["package.json"] :=
    congrArg Path.parts ((Layout.ofRoot root).output.div_of_isPart package)
  rw [descriptor]
  by_cases compiled : (Dialect.ofPath path).isCompiled
  · obtain ⟨stem, last⟩ := Layout.getLast?_destination placed absolute source.plain.proper compiled
    have different : stem ++ Layout.compiledSuffix ≠ "package.json" :=
      @Build.append_compiledSuffix_ne _ _ "package".toList (by decide)
    refine iff_of_false (fun same => ?_) ?_
    · rw [same, List.getLast?_concat, Option.some_inj] at last
      exact different last.symm
    · rintro rfl
      rw [Path.div_of_isPart _ package, Dialect.ofPath, Path.name, List.getLast?_concat] at compiled
      exact absurd compiled (by decide)
  · obtain ⟨rest, place, whole⟩ := source.relativeTo rooted plain
    have destination : ((Layout.ofRoot root).destination path).parts =
        (Layout.ofRoot root).output.parts ++ rest := by
      unfold Layout.destination Layout.placeOf
      dsimp only
      rw [Layout.resolve_of_isAbsolute _ absolute, if_neg compiled, place]
      rfl
    rw [destination, List.append_cancel_left_eq, whole, Path.div_of_isPart _ package, Path.mk.injEq,
      List.append_cancel_left_eq, sources]
    simp

/-- One file of the output is removed, if it is there. -/
theorem invalidate_removed (regular : tree.IsRegular) {destination : Path} (plain : destination.IsPlain) :
    Ends (·.tree = tree) (Output.invalidate destination) (fun _ session => Removed destination tree session.tree)
      (fun session => Removed destination tree session.tree) := by
  unfold Output.invalidate
  refine Ends.get.bind fun now => Ends.of_forall fun state ⟨same, start⟩ => ?_
  subst same start
  have refused {fault : FileFault} (refused : now.tree.unlink destination = .error fault) :
      Removed destination now.tree now.tree :=
    ⟨regular, regular.holdsFile_of_unlink_error plain refused, fun _ _ => rfl⟩
  split
  · rename_i after unlinked
    have changes := regular.unlink plain unlinked
    refine (Ends.modify (fun session => session.tree = after) fun _ _ => rfl).bind fun _ => .pure fun _ same => ?_
    rw [same]
    exact ⟨changes.regular, by simp [Tree.holdsFile, changes.here], fun _ => changes.elsewhere⟩
  · rename_i text missing
    exact .pure fun _ same => same ▸ refused missing
  · rename_i fault _ lost
    exact .throw fun _ same => same ▸ refused lost

/-- A directory that is removed takes no file with it from a place that is not below it. -/
theorem Spares.removeTree {before : Tree} {target : Path} (spares : Spares path before tree)
    (plain : target.IsPlain) (inside : target.parts ≠ []) (directory : tree.isDirectory target = .ok true)
    (apart : target.parts <+: path.parts → target.parts = path.parts) :
    Spares path before (tree.removeTree target).2 := by
  have removed := spares.regular.removeTree_of_isDirectory plain inside directory
  obtain ⟨regular, entries⟩ := spares.regular.removeTree plain inside removed
  refine ⟨regular, spares.same ▸ ?_⟩
  by_cases below : target.parts <+: path.parts
  · have present := ((spares.regular.isDirectory_iff plain directory).mp rfl).2
    rw [contentAt?_eq_none_of_none (by rw [entries, if_pos below]),
      contentAt?_eq_none_of_directory (apart below ▸ present)]
  · exact contentAt?_congr (by rw [entries, if_neg below])

/-- What belongs to a directory of sources is removed as a whole. That it is a directory is made sure of
first, so that the descriptor is never removed this way. -/
theorem removeCounterpart_spares (source : IsSourcePath (Layout.ofRoot root) path) (rooted : root.anchor = .root)
    (plain : root.IsPlain) :
    Keeps (fun session => Spares (Layout.ofRoot root).outputDescriptor tree session.tree)
      (Output.removeCounterpart path (Layout.ofRoot root)) := by
  obtain ⟨placed, -, output⟩ := Layout.isPlaced_ofRoot (by simp [Path.isAbsolute, rooted]) plain
  obtain ⟨rest, place, whole⟩ := source.relativeTo rooted plain
  have descriptor : (Layout.ofRoot root).outputDescriptor.parts =
      (Layout.ofRoot root).output.parts ++ ["package.json"] :=
    congrArg Path.parts ((Layout.ofRoot root).output.div_of_isPart ⟨by decide, by decide, by decide⟩)
  unfold Output.removeCounterpart
  rw [place]
  dsimp only
  generalize named : (Layout.ofRoot root).output.join ⟨.relative, rest⟩ = target
  have parts : target = ⟨(Layout.ofRoot root).output.anchor, (Layout.ofRoot root).output.parts ++ rest⟩ :=
    named.symm
  have plainTarget : target.IsPlain := by
    subst parts
    intro part member
    refine (List.mem_append.mp member).elim (placed.outputPlain part) fun last => source.plain part ?_
    rw [whole]
    exact List.mem_append_right _ last
  have inside : target.parts ≠ [] := by simp [parts, output]
  split
  · exact .pure
  · rename_i other
    have apart : target.parts <+: (Layout.ofRoot root).outputDescriptor.parts →
        target.parts = (Layout.ofRoot root).outputDescriptor.parts := by
      rw [descriptor, List.prefix_concat_iff]
      rintro (same | above)
      · exact same
      · rw [parts] at above
        have short := above.length_le
        rw [List.length_append] at short
        have none : rest = [] := List.length_eq_zero_iff.mp (by omega)
        exact absurd (by rw [parts, none, List.append_nil]) other
    have asked : Ends (fun session => Spares (Layout.ofRoot root).outputDescriptor tree session.tree)
        (Action.askFiles (·.isDirectory target))
        (fun isDirectory session => session.tree.isDirectory target = .ok isDirectory ∧
          Spares (Layout.ofRoot root).outputDescriptor tree session.tree)
        (fun session => Spares (Layout.ofRoot root).outputDescriptor tree session.tree) :=
      (Ends.askFiles _).mono (fun _ spares => spares) (fun _ _ told => told) fun _ told => told.2
    refine asked.bind fun isDirectory => ?_
    cases isDirectory with
    | false => exact Ends.pure fun _ told => told.2
    | true =>
      have removes (session : Session) (told : session.tree.isDirectory target = .ok true ∧
          Spares (Layout.ofRoot root).outputDescriptor tree session.tree) :
          Spares (Layout.ofRoot root).outputDescriptor tree (session.tree.removeTree target).2 :=
        told.2.removeTree plainTarget inside told.1 apart
      exact Ends.bind (Ends.alterFiles (fun session told _ => removes session told) removes)
        fun _ => .pure fun _ spares => spares

/-- What has become of the descriptor once an event about a source that is gone has been handled: it is gone if
it belonged to the source, and otherwise it is as it was. -/
structure Clears (layout : Layout) (event : WatchEvent) (before after : Tree) : Prop where
  taken : TakesDescriptor layout event → after.IsRegular ∧ after.holdsFile layout.outputDescriptor = false
  spared : ¬ TakesDescriptor layout event → Spares layout.outputDescriptor before after

/-- When a source is removed, its destination is cleared, whether that succeeds or not. -/
theorem removeDestination_clears (source : IsSourcePath (Layout.ofRoot root) event.path)
    (rooted : root.anchor = .root) (plain : root.IsPlain) (regular : tree.IsRegular)
    (gone : event.kind = .removed) :
    Ends (·.tree = tree) (removeDestination event (Layout.ofRoot root))
      (fun _ session => Clears (Layout.ofRoot root) event tree session.tree)
      (fun session => Clears (Layout.ofRoot root) event tree session.tree) := by
  have placed := (Layout.isPlaced_ofRoot (by simp [Path.isAbsolute, rooted]) plain).1
  have absolute : event.path.isAbsolute := by simp [Path.isAbsolute, source.rooted]
  have records (message : String) (removed : Bool) :
      Ends (fun session => Clears (Layout.ofRoot root) event tree session.tree)
        (if removed then Action.record logSource .info message >>= fun _ => pure removed else pure removed)
        (fun _ session => Clears (Layout.ofRoot root) event tree session.tree)
        (fun session => Clears (Layout.ofRoot root) event tree session.tree) := by
    split
    · exact Ends.bind (.modify _ fun _ clears => clears) fun _ => .pure fun _ clears => clears
    · exact .pure fun _ clears => clears
  unfold removeDestination
  split
  · rename_i declaration
    rw [Bool.and_eq_true, decide_eq_true_eq] at declaration
    refine .pure fun session same => ?_
    subst same
    refine ⟨fun takes => ?_, fun _ => ⟨regular, rfl⟩⟩
    rw [takes.2.2, Path.div_of_isPart _ ⟨by decide, by decide, by decide⟩, Dialect.ofPath, Path.name,
      List.getLast?_concat] at declaration
    exact absurd declaration.2 (by decide)
  · dsimp only
    split
    · rename_i isDirectory
      have other : ¬ TakesDescriptor (Layout.ofRoot root) event := fun takes => by simp [takes.2.1] at isDirectory
      exact Ends.bind ((removeCounterpart_spares source rooted plain).mono (fun _ same => same ▸ ⟨same ▸ regular, rfl⟩)
        (fun _ _ spares => ⟨fun takes => absurd takes other, fun _ => spares⟩)
        fun _ spares => ⟨fun takes => absurd takes other, fun _ => spares⟩) (records _)
    · rename_i isFile
      have clears (after : Tree) (removed : Removed ((Layout.ofRoot root).destination event.path) tree after) :
          Clears (Layout.ofRoot root) event tree after := by
        constructor
        · intro takes
          have parts := (source.destination_eq_iff rooted plain).mpr takes.2.2
          obtain ⟨rest, destination, -⟩ :=
            Layout.destination_eq placed Layout.saysOfParts_isName absolute source.plain
          have same : (Layout.ofRoot root).destination event.path = (Layout.ofRoot root).outputDescriptor := by
            refine Path.eq_of_parts ?_ parts
            rw [destination]
            exact (congrArg Path.anchor (Output.descriptorOf_eq (Layout.ofRoot root).output)).symm
          exact ⟨removed.regular, same ▸ removed.absent⟩
        · intro other
          refine ⟨removed.regular, removed.elsewhere _ fun same => other ⟨gone, by simpa using isFile, ?_⟩⟩
          exact (source.destination_eq_iff rooted plain).mp same.symm
      exact Ends.bind ((invalidate_removed regular (Layout.destination_isPlain placed absolute source.plain)).mono
        (fun _ same => same) (fun _ _ known => clears _ known) fun _ known => clears _ known) (records _)

/-- An event that starts no build and is not about a source that is gone changes nothing. -/
theorem handle_idle (there : event.kind ≠ .removed) (idle : ¬ StartsBuild before.tree event) :
    (handle tools event request layout before).2 = before := by
  have asked : Action.askFiles (·.isFile event.path) before =
      ((before.tree.isFile event.path).mapError .file, before) := Action.ask_apply _ _
  unfold handle
  rw [if_neg there, rebuild, bind_apply, asked]
  cases told : before.tree.isFile event.path with
  | error fault => rfl
  | ok isFile =>
    cases isFile with
    | false => rfl
    | true =>
      have declaration : Dialect.ofPath event.path = .declaration :=
        not_not.mp fun emitted => idle ⟨there, told, emitted⟩
      dsimp only [Except.mapError]
      rw [if_neg (by simp), if_pos declaration]
      rfl

/-- After a build that an event has started the linkage is declared. -/
theorem Settles.declares (settles : Settles tools request layout event before after)
    (starts : StartsBuild before.tree event) (stops : request.settled.runtimeOnly) :
    Output.Declares request.format layout.outputDescriptor after.tree := by
  obtain ⟨there, held, emitted⟩ := starts
  have succeeded := settles.built there held emitted
  have declared : Ends (fun _ => True) (rebuilding tools event request layout)
      (fun _ session => Output.Declares request.format layout.outputDescriptor session.tree) (fun _ => True) := by
    unfold rebuilding
    refine Ends.bind ((Ends.ask _).mono (fun _ _ => trivial) (fun _ _ told => told) fun _ _ => trivial)
      fun narrowed => Ends.of_forall fun session ⟨told, _⟩ => ?_
    obtain ⟨resolved, -, told⟩ := exists_of_bind_eq_ok told
    cases told
    have same : (request.forFile resolved).settled.runtimeOnly := stops
    exact Ends.discard ((Build.run_declares tools layout rfl same).mono (fun _ _ => trivial)
      (fun _ _ declares => declares) fun _ _ => trivial)
  have handled := settles.handled
  rw [handle_apply there held emitted] at handled
  rcases ran : rebuilding tools event request layout
    (noting before .info s!"[{event.kind.name}] rebuilding {event.path}") with ⟨result, final⟩
  rw [ran] at succeeded handled
  obtain rfl : result = .ok () := succeeded
  exact handled ▸ declared.answered trivial ran

/-- Whether the linkage is declared after an event. -/
theorem Settles.declares_iff (settles : Settles tools request (Layout.ofRoot root) event before after)
    (source : IsSourcePath (Layout.ofRoot root) event.path) (rooted : root.anchor = .root) (plain : root.IsPlain)
    (regular : before.tree.IsRegular) (stops : request.settled.runtimeOnly) :
    Output.Declares request.format (Layout.ofRoot root).outputDescriptor after.tree ↔
      StartsBuild before.tree event ∨
        ¬ TakesDescriptor (Layout.ofRoot root) event ∧
          Output.Declares request.format (Layout.ofRoot root).outputDescriptor before.tree := by
  by_cases starts : StartsBuild before.tree event
  · exact iff_of_true (settles.declares starts stops) (.inl starts)
  · simp only [starts, false_or]
    have placed := (Layout.isPlaced_ofRoot (by simp [Path.isAbsolute, rooted]) plain).1
    have descriptor : (Layout.ofRoot root).outputDescriptor.IsPlain := Output.descriptorOf_isPlain placed.outputPlain
    by_cases gone : event.kind = .removed
    · have clears : Clears (Layout.ofRoot root) event before.tree after.tree := by
        have ended : Ends (·.tree = before.tree) (handle tools event request (Layout.ofRoot root))
            (fun _ session => Clears (Layout.ofRoot root) event before.tree session.tree)
            (fun session => Clears (Layout.ofRoot root) event before.tree session.tree) := by
          unfold handle
          rw [if_pos gone]
          exact Ends.discard (removeDestination_clears source rooted plain regular gone)
        have known := ended.outcome before rfl
        rw [← settles.handled]
        rcases ran : handle tools event request (Layout.ofRoot root) before with ⟨fault | answer, final⟩
        all_goals
          rw [ran] at known
          exact known
      by_cases takes : TakesDescriptor (Layout.ofRoot root) event
      · obtain ⟨regularAfter, absent⟩ := clears.taken takes
        refine iff_of_false (fun declares => ?_) fun kept => kept.1 takes
        rw [declares.holdsFile regularAfter descriptor] at absent
        cases absent
      · have spares := clears.spared takes
        rw [Output.declares_congr regular spares.regular descriptor spares.same, and_iff_right takes]
    · have same : after = before := settles.handled.symm.trans (handle_idle gone starts)
      rw [same, and_iff_right fun takes => gone takes.1]

end

/-! ### Histories -/

/-- The sources have changed, in trees without links: outside of the sources all files are as they were. -/
structure ChangesSources (layout : Layout) (before after : Tree) : Prop where
  regularBefore : before.IsRegular
  regular : after.IsRegular
  outside : ∀ location, ¬ layout.sources.parts <+: location →
    after.contentAt? location = before.contentAt? location

/-- From the start on, sources have changed and an event has been handled, again and again. What the tools do
may be different each time. The history lists the events, each with the tree in which it was handled. -/
inductive Unfolds (request : Request) (layout : Layout) (start : Session) :
    List (WatchEvent × Tree) → Session → Prop where
  | start : Unfolds request layout start [] start
  | event {history : List (WatchEvent × Tree)} {session changed after : Session} (tools : Toolchain)
      (event : WatchEvent) (before : Unfolds request layout start history session)
      (changes : ChangesSources layout session.tree changed.tree) (source : IsSourcePath layout event.path)
      (settles : Settles tools request layout event changed after) :
      Unfolds request layout start (history ++ [(event, changed.tree)]) after

/-- The source with the name of the descriptor has gone, and no event has started a build since. -/
def IsBare (layout : Layout) (history : List (WatchEvent × Tree)) : Prop :=
  ∃ front event tree back, history = front ++ (event, tree) :: back ∧ TakesDescriptor layout event ∧
    ∀ later ∈ back, ¬ StartsBuild later.2 later.1

/-- What the last event means for the history. -/
theorem isBare_concat {layout : Layout} {history : List (WatchEvent × Tree)} {event : WatchEvent} {tree : Tree} :
    IsBare layout (history ++ [(event, tree)]) ↔
      TakesDescriptor layout event ∨ IsBare layout history ∧ ¬ StartsBuild tree event := by
  constructor
  · rintro ⟨front, taking, met, back, whole, takes, quiet⟩
    rcases List.eq_nil_or_concat back with rfl | ⟨others, last, rfl⟩
    · obtain ⟨-, same⟩ := List.append_inj' whole rfl
      cases same
      exact .inl takes
    · rw [List.concat_eq_append, ← List.cons_append, ← List.append_assoc] at whole
      obtain ⟨rfl, same⟩ := List.append_inj' whole rfl
      cases same
      refine .inr ⟨⟨front, taking, met, others, rfl, takes, fun later member => quiet later (by simp [member])⟩, ?_⟩
      exact quiet (event, tree) (by simp)
  · rintro (takes | ⟨⟨front, taking, met, back, rfl, takes, quiet⟩, idle⟩)
    · exact ⟨history, event, tree, [], rfl, takes, by simp⟩
    · refine ⟨front, taking, met, back ++ [(event, tree)], by simp, takes, ?_⟩
      exact List.forall_mem_append.mpr ⟨quiet, List.forall_mem_singleton.mpr idle⟩

section

variable {root : Path} {tools : Toolchain} {request : Request} {initial start final : Session}
  {history : List (WatchEvent × Tree)} {outcome : Build.Outcome}

/-- The descriptor of the output is no source. -/
theorem outputDescriptor_outside (root : Path) :
    ¬ (Layout.ofRoot root).sources.parts <+: (Layout.ofRoot root).outputDescriptor.parts := by
  have src : Path.IsPart "src" := ⟨by decide, by decide, by decide⟩
  have dist : Path.IsPart "dist" := ⟨by decide, by decide, by decide⟩
  have package : Path.IsPart "package.json" := ⟨by decide, by decide, by decide⟩
  change ¬ (root / "src").parts <+: (root / "dist" / "package.json").parts
  rw [root.div_of_isPart src, root.div_of_isPart dist, Path.div_of_isPart _ package]
  rintro ⟨rest, whole⟩
  simp at whole

/-- While the sources of a project are watched after a build, its output declares the linkage that was asked
for, whatever happens to the sources and whatever the tools do, but for one case: the source with the name of
the descriptor has gone and nothing has been built since. In this case no linkage is declared. -/
theorem linkage_declared_iff (rooted : root.anchor = .root) (plain : root.IsPlain)
    (development : request.isDevelopment) (isFiles : request.isLiteral = false)
    (built : Build.run tools request (.ofRoot root) initial = (.ok outcome, start))
    (unfolds : Unfolds request (.ofRoot root) start history final) :
    Output.Declares request.format (Layout.ofRoot root).outputDescriptor final.tree ↔
      ¬ IsBare (.ofRoot root) history := by
  have stops : request.settled.runtimeOnly := by simp [Request.settled, development]
  have descriptor : (Layout.ofRoot root).outputDescriptor.IsPlain :=
    Output.descriptorOf_isPlain (Layout.isPlaced_ofRoot (by simp [Path.isAbsolute, rooted]) plain).1.outputPlain
  induction unfolds with
  | start =>
    have declares := (Build.run_declares tools (Layout.ofRoot root) isFiles stops).answered trivial built
    apply iff_of_true declares
    rintro ⟨_, _, _, _, impossible, _⟩
    simp at impossible
  | event tools event before changes source settles inductionHypothesis =>
    have still : Output.Declares request.format (Layout.ofRoot root).outputDescriptor _ ↔ _ :=
      (Output.declares_congr changes.regularBefore changes.regular descriptor
        (changes.outside _ (outputDescriptor_outside root))).trans inductionHypothesis
    rw [settles.declares_iff source rooted plain changes.regular stops, still, isBare_concat]
    have exclusive (tree : Tree) (starts : StartsBuild tree event) : ¬ TakesDescriptor (Layout.ofRoot root) event :=
      fun takes => starts.1 takes.1
    rw [not_or, not_and_or, not_not]
    constructor
    · rintro (starts | ⟨spared, kept⟩)
      · exact ⟨exclusive _ starts, .inr starts⟩
      · exact ⟨spared, .inl kept⟩
    · rintro ⟨spared, kept | starts⟩
      · exact .inr ⟨spared, kept⟩
      · exact .inl starts

end

/-! ### A project with a descriptor among its sources -/

/-- A project whose only source has the name of the descriptor. -/
def describedSession : Session where
  tree := ⟨[(["p"], .directory), (["p", "src"], .directory),
    (["p", "src", "package.json"], .file [123, 125] false), (["t"], .directory)]⟩
  environment := []
  directory := ⟨.root, ["p"]⟩
  temporary := ⟨.root, ["t"]⟩
  clock := 1

/-- A build for development. -/
def developing : Request := { mode := .development }

/-- The project once it has been built. -/
def describedBuilt : Session :=
  (Build.run Build.plainCompiler.toolchain developing (.ofRoot ⟨.root, ["p"]⟩) describedSession).2

/-- An event about the one source. -/
def describedEvent (kind : EventKind) : WatchEvent := { path := ⟨.root, ["p", "src", "package.json"]⟩, kind }

/-- The text of a descriptor that declares the other linkage. -/
def otherLinkage : Text.Bytes := Text.Utf8.encode "\x7b\"type\": \"commonjs\"\x7d"

/-- The project in which the source declares the other linkage. -/
def describedOtherwise : Session where
  tree := describedBuilt.tree.put ["p", "src", "package.json"] (.file otherLinkage false)
  environment := []
  directory := ⟨.root, ["p"]⟩
  temporary := ⟨.root, ["t"]⟩
  clock := 1

/-- The project in which the source is gone. -/
def describedNowhere : Session :=
  { describedBuilt with tree := describedBuilt.tree.erase ["p", "src", "package.json"] }

/-- What handling an event leaves behind in the project. -/
def describedAfter (kind : EventKind) (session : Session) : Session :=
  (handle Build.plainCompiler.toolchain (describedEvent kind) developing (.ofRoot ⟨.root, ["p"]⟩) session).2

/-- What the build of the project leaves, and what comes of the two events. All of it is read off at once, for
every part is about the same build. -/
theorem describedBuilt_evaluated :
    (Build.run Build.plainCompiler.toolchain developing (.ofRoot ⟨.root, ["p"]⟩)
      describedSession).1.toOption.isSome ∧
    (∀ item ∈ describedBuilt.tree.entries, (item.2.isFile || item.2.isDirectory) = true ∧
      (∀ part ∈ item.1, Path.IsName part) ∧
      ∀ count < item.1.length, describedBuilt.tree.get? (item.1.take count) = some .directory) ∧
    describedBuilt.tree.get? ["p", "src", "package.json"] = some (.file [123, 125] false) ∧
    (rebuilding Build.plainCompiler.toolchain (describedEvent .modified) developing (.ofRoot ⟨.root, ["p"]⟩)
      (noting describedOtherwise .info
        s!"[{EventKind.modified.name}] rebuilding {(describedEvent .modified).path}")).1.toOption = some () ∧
    (handle Build.plainCompiler.toolchain (describedEvent .removed) developing (.ofRoot ⟨.root, ["p"]⟩)
      describedNowhere).1.toOption = some () ∧
    (Session.textAt (describedAfter .removed describedNowhere).tree
      (Layout.ofRoot ⟨.root, ["p"]⟩).outputDescriptor).toOption = none := by decide +kernel

/-- The session that was built is what a successful build has left. -/
theorem describedBuilt_ran : ∃ outcome,
    Build.run Build.plainCompiler.toolchain developing (.ofRoot ⟨.root, ["p"]⟩) describedSession =
      (.ok outcome, describedBuilt) := by
  obtain ⟨outcome, told⟩ := Option.isSome_iff_exists.mp describedBuilt_evaluated.1
  refine ⟨outcome, ?_⟩
  rw [describedBuilt, ← ok_of_toOption told, Prod.mk.eta]

/-- Its tree is a regular one. -/
theorem describedBuilt_regular : describedBuilt.tree.IsRegular :=
  isRegular_of_entries describedBuilt_evaluated.2.1

/-- The one source changes, and this is reported. -/
theorem describedAfter_unfolds {kind : EventKind} {session : Session} {content : Option Text.Bytes}
    (changes : Changes ["p", "src", "package.json"] content describedBuilt.tree session.tree)
    (built : kind ≠ .removed → (rebuilding Build.plainCompiler.toolchain (describedEvent kind) developing
      (.ofRoot ⟨.root, ["p"]⟩) (noting session .info
        s!"[{kind.name}] rebuilding {(describedEvent kind).path}")).1 = .ok ()) :
    Unfolds developing (.ofRoot ⟨.root, ["p"]⟩) describedBuilt [(describedEvent kind, session.tree)]
      (describedAfter kind session) := by
  have sources : (Layout.ofRoot ⟨.root, ["p"]⟩).sources.parts = ["p", "src"] := by decide
  have below : ["p", "src"] <+: ["p", "src", "package.json"] := ⟨["package.json"], rfl⟩
  refine .event Build.plainCompiler.toolchain (describedEvent kind) .start
    ⟨describedBuilt_regular, changes.regular, fun location outside => changes.elsewhere ?_⟩
    ⟨rfl, (by decide : Path.IsPlain ⟨.root, ["p", "src", "package.json"]⟩), sources ▸ below⟩
    ⟨rfl, fun there _ _ => built there⟩
  rintro rfl
  exact outside (sources ▸ below)

/-- When the source declares the other linkage, the output goes on to declare the one that was asked for. -/
theorem linkage_declared_iff_of_other :
    Output.Declares .esm (Layout.ofRoot ⟨.root, ["p"]⟩).outputDescriptor
      (describedAfter .modified describedOtherwise).tree := by
  obtain ⟨outcome, ran⟩ := describedBuilt_ran
  obtain ⟨-, -, source, rebuilt, -, -⟩ := describedBuilt_evaluated
  have reaches : describedBuilt.tree.Reaches ["p", "src", "package.json"] := describedBuilt_regular.reached _ _ source
  have changes := describedBuilt_regular.put_file reaches (by decide) (by simp [source]) otherLinkage false
  have unfolds := @describedAfter_unfolds .modified describedOtherwise _ changes fun _ => ok_of_toOption rebuilt
  refine (linkage_declared_iff rfl (by decide) rfl rfl ran unfolds).mpr ?_
  rintro ⟨front, event, tree, back, whole, takes, -⟩
  have member : (event, tree) ∈ [(describedEvent .modified, describedOtherwise.tree)] := by simp [whole]
  obtain ⟨rfl, -⟩ := Prod.mk.inj (List.mem_singleton.mp member)
  cases takes.1

/-- When the source is gone, no linkage is declared any more, although handling the event does not fail. -/
theorem linkage_lost : ∃ outcome,
    Build.run Build.plainCompiler.toolchain developing (.ofRoot ⟨.root, ["p"]⟩) describedSession =
      (.ok outcome, describedBuilt) ∧
    Output.Declares .esm (Layout.ofRoot ⟨.root, ["p"]⟩).outputDescriptor describedBuilt.tree ∧
    Unfolds developing (.ofRoot ⟨.root, ["p"]⟩) describedBuilt
      [(describedEvent .removed, describedNowhere.tree)] (describedAfter .removed describedNowhere) ∧
    (handle Build.plainCompiler.toolchain (describedEvent .removed) developing (.ofRoot ⟨.root, ["p"]⟩)
      describedNowhere).1.toOption = some () ∧
    ¬ Output.Declares .esm (Layout.ofRoot ⟨.root, ["p"]⟩).outputDescriptor
      (describedAfter .removed describedNowhere).tree := by
  obtain ⟨outcome, ran⟩ := describedBuilt_ran
  obtain ⟨-, -, source, -, handled, lost⟩ := describedBuilt_evaluated
  have changes := describedBuilt_regular.erase
    (by simp [source] : describedBuilt.tree.get? ["p", "src", "package.json"] ≠ some .directory)
  have declares := (@Build.run_declares developing Build.plainCompiler.toolchain (.ofRoot ⟨.root, ["p"]⟩)
    rfl rfl).answered trivial ran
  refine ⟨outcome, ran, declares, describedAfter_unfolds changes fun there => absurd rfl there, handled, ?_⟩
  rintro ⟨text, fields, told, -⟩
  rw [told] at lost
  cases lost

end Watch

end TreeBuild
