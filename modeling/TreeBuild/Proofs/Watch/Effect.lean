import TreeBuild.Proofs.Build.Single
import TreeBuild.Watch.Handling

/-!
# What an event does to the output

An event about a source that is gone removes one file of the output, and an event about a source that is
there builds this source again. What either does to the files can be said exactly, unless the build fails.
-/
namespace TreeBuild.Watch

open TreeBuild.Tree

/-- The build that an event calls for. -/
def rebuilding (tools : Toolchain) (event : WatchEvent) (request : Request) (layout : Layout) :
    Action Unit := do
  let request ← Action.ask fun tree => request.forPath tree event.path
  discard (Build.run tools request layout)

/-- A session in which a record has been written. -/
def noting (session : Session) (level : Level) (message : String) : Session :=
  { session with journal := session.journal ++ [{ source := logSource, level, message }] }

/-- An event has been handled. If a build was started, it has succeeded. -/
structure Succeeds (tools : Toolchain) (request : Request) (layout : Layout) (event : WatchEvent)
    (before after : Session) : Prop where
  handled : handle tools event request layout before = (.ok (), after)
  built : event.kind ≠ .removed → before.tree.isFile event.path = .ok true →
    Dialect.ofPath event.path ≠ .declaration →
    (rebuilding tools event request layout
      (noting before .info s!"[{event.kind.name}] rebuilding {event.path}")).1 = .ok ()

/-- What handling an event does to the files. -/
inductive Effect (tools : Toolchain) (layout : Layout) (request : Request) (rewrites : Bool)
    (temporary : Path) (event : WatchEvent) (before after : Tree) : Prop where
  /-- The product of a source that is gone is removed. -/
  | removed (gone : event.kind = .removed) (emitted : Dialect.ofPath event.path ≠ .declaration)
      (regular : after.IsRegular)
      (contents : after.contentAt? =
        Function.update before.contentAt? (layout.destination event.path).parts none)
  /-- A source that is there is built again. -/
  | rebuilt (clock : Nat) (there : event.kind ≠ .removed)
      (emitted : Dialect.ofPath event.path ≠ .declaration) (held : before.holdsFile event.path = true)
      (rebuilt : Build.Rebuilt tools layout (request.forFile event.path).settled rewrites event.path
        (Configuration.copyPath temporary clock) before after)
  /-- Nothing is done for declarations, or when there is no source any more. -/
  | ignored (reason : Dialect.ofPath event.path = .declaration ∨
        event.kind ≠ .removed ∧ before.holdsFile event.path = false)
      (regular : after.IsRegular) (contents : after.contentAt? = before.contentAt?)

/-- The path of a source that is watched: it is written by names in which every character stands for itself,
and does not lie in the output. -/
structure IsPlace (layout : Layout) (path : Path) : Prop where
  rooted : path.anchor = .root
  plain : path.IsPlain
  nonempty : path.parts ≠ []
  literal : Glob.hasMagic path.toString = false
  outside : ¬ layout.output.parts <+: path.parts

/-- A place whose destination is emitted stands for one source. -/
theorem IsPlace.lone {layout : Layout} {path : Path} (place : IsPlace layout path)
    (emitted : Dialect.ofPath path ≠ .declaration) : Build.IsLone layout path :=
  ⟨place.rooted, place.plain, place.nonempty, place.literal, emitted, place.outside⟩

section

variable {tools : Toolchain} {layout : Layout} {request : Request} {event : WatchEvent}
  {before after : Session}

/-- How the build ends that an event calls for decides how its handling ends. -/
theorem handle_apply (there : event.kind ≠ .removed) (held : before.tree.isFile event.path = .ok true)
    (emitted : Dialect.ofPath event.path ≠ .declaration) :
    handle tools event request layout before =
      match rebuilding tools event request layout
        (noting before .info s!"[{event.kind.name}] rebuilding {event.path}") with
      | (.ok (), final) => (.ok (), final)
      | (.error fault, final) =>
        if fault.isExpected then
          (.ok (), noting final .error s!"[rebuild_error] {event.path}: {fault.message}")
        else (.error fault, final) := by
  have asked : Action.askFiles (·.isFile event.path) before = (.ok true, before) := by
    rw [Action.askFiles, Action.ask_apply, held]
    rfl
  have recorded : Action.record logSource .info s!"[{event.kind.name}] rebuilding {event.path}" before =
      (.ok (), noting before .info s!"[{event.kind.name}] rebuilding {event.path}") := rfl
  unfold handle
  rw [if_neg there, rebuild, bind_apply, asked]
  dsimp only
  rw [if_neg (by simp), if_neg emitted, bind_apply, recorded]
  dsimp only
  change (Action.attempt (rebuilding tools event request layout) >>= _) _ = _
  rw [bind_apply, Action.attempt]
  rcases rebuilding tools event request layout
    (noting before .info s!"[{event.kind.name}] rebuilding {event.path}") with ⟨fault | answer, final⟩
  · dsimp only
    split <;> rfl
  · rfl

/-- An event has been handled without a failure if no error has been logged. -/
theorem Succeeds.of_clean (handled : handle tools event request layout before = (.ok (), after))
    (clean : after.journal.all (·.level ≠ .error)) : Succeeds tools request layout event before after := by
  refine ⟨handled, fun there held emitted => ?_⟩
  rw [handle_apply there held emitted] at handled
  split at handled
  · rename_i ended
    rw [ended]
  · rename_i fault final ended
    split at handled
    · have last := congrArg (·.2.journal) handled
      simp only [noting] at last
      rw [← last] at clean
      simp at clean
    · cases handled

/-- What handling an event leaves behind. -/
def Leaves (tools : Toolchain) (layout : Layout) (request : Request) (event : WatchEvent)
    (before after : Session) : Prop :=
  Effect tools layout request (!Tools.rewritesDisabled before.environment) before.temporary event
    before.tree after.tree ∧ after.temporary = before.temporary ∧ after.environment = before.environment

/-- A failure leaves everything as it was, and there is no file that should have been removed or built. -/
structure Fails (layout : Layout) (event : WatchEvent) (before after : Session) : Prop where
  same : after = before
  removed : event.kind = .removed → before.tree.holdsFile (layout.destination event.path) = false
  built : event.kind ≠ .removed → before.tree.holdsFile event.path = false

/-- A destination that cannot be cleared holds no file. -/
theorem invalidate_refused (regular : before.tree.IsRegular) {destination : Path} (plain : destination.IsPlain) :
    Ends (· = before) (Output.invalidate destination) (fun _ _ => True)
      (fun after => after = before ∧ before.tree.holdsFile destination = false) := by
  unfold Output.invalidate
  refine Ends.get.bind fun now => Ends.of_forall fun state ⟨same, start⟩ => ?_
  subst same start
  split
  · exact (Ends.modify (fun _ => True) fun _ _ => trivial).bind fun _ => .pure fun _ _ => trivial
  · exact .pure fun _ _ => trivial
  · rename_i refused
    exact .throw fun state same => ⟨same, regular.holdsFile_of_unlink_error plain refused⟩

/-- The product of a source that is gone is removed. -/
theorem removeDestination_leaves (placed : layout.IsPlaced) (place : IsPlace layout event.path)
    (regular : before.tree.IsRegular) (notDirectory : event.isDirectory = false)
    (gone : event.kind = .removed) :
    Ends (· = before) (removeDestination event layout)
      (fun _ => Leaves tools layout request event before) (Fails layout event before) := by
  have absolute : event.path.isAbsolute := by simp [Path.isAbsolute, place.rooted]
  have plain := Layout.destination_isPlain placed absolute place.plain
  unfold removeDestination
  simp only [notDirectory, Bool.not_false, Bool.true_and, decide_eq_true_eq, Bool.false_eq_true, if_false]
  split
  · rename_i declaration
    refine .pure fun session same => ?_
    subst same
    exact ⟨.ignored (.inl declaration) regular rfl, rfl, rfl⟩
  · rename_i emitted
    have vacated := @Build.invalidate_vacates before.tree before.temporary before.clock regular _ plain
    have vacates := Ends.and_keeps vacated ((lasting_environment before.environment).quiet.invalidate _)
    have leaves : Ends (· = before) (Output.invalidate (layout.destination event.path))
        (fun _ => Leaves tools layout request event before) (Fails layout event before) := by
      refine (vacates.and (invalidate_refused regular plain)).mono ?_ (fun _ session shown => ?_)
        fun session failed => ?_
      · rintro _ rfl
        exact ⟨⟨⟨rfl, rfl, rfl⟩, rfl⟩, rfl⟩
      · obtain ⟨⟨shown, environment⟩, -⟩ := shown
        exact ⟨.removed gone emitted shown.tree.regular shown.tree.contents, shown.temporary, environment⟩
      · exact ⟨failed.2.1, fun _ => failed.2.2, fun there => absurd gone there⟩
    refine leaves.bind fun removed => ?_
    split
    · exact Ends.bind (.modify _ fun session shown => shown) fun _ => .pure fun _ shown => shown
    · exact .pure fun _ shown => shown

/-- A source that is there is built again. -/
theorem rebuilding_leaves (writes : tools.WritesTargets layout) (placed : layout.IsPlaced)
    (place : IsPlace layout event.path) (emitted : Dialect.ofPath event.path ≠ .declaration)
    (descriptor : layout.descriptor.parts ≠ (layout.destination event.path).parts)
    (plainTemporary : before.temporary.IsPlain) (regular : before.tree.IsRegular)
    (there : event.kind ≠ .removed) (held : before.tree.isFile event.path = .ok true)
    (stops : request.settled.runtimeOnly) :
    Ends (· = before) (rebuilding tools event request layout)
      (fun _ => Leaves tools layout request event before) (fun _ => True) := by
  obtain ⟨content, executable, status⟩ := Tree.isFile_iff.mp held
  have given : request.forPath before.tree event.path = .ok (request.forFile event.path) := by
    rw [Request.forPath, Sources.resolvePath_of_status regular.linkless place.rooted place.plain status]
    rfl
  unfold rebuilding
  refine ((Ends.ask _).mono (fun _ same => same) (fun _ _ told => told) fun _ _ => trivial).bind
    fun settled => Ends.of_forall fun session ⟨told, same⟩ => ?_
  subst same
  rw [given] at told
  cases told
  have rebuilt := @Build.run_rebuilds tools layout (request.forFile event.path) event.path session.tree
    session.temporary session.clock session.environment writes placed (place.lone emitted) descriptor
    plainTemporary regular held rfl rfl stops
  refine Ends.discard (rebuilt.mono (fun state same => ?_) (fun _ state known => ?_) fun _ _ => trivial)
  · subst same
    exact ⟨⟨rfl, rfl, rfl⟩, rfl⟩
  · obtain ⟨last, shown, same⟩ := known
    exact ⟨.rebuilt session.clock there emitted (regular.isFile_eq place.plain held) shown.tree,
      shown.temporary, same⟩

/-- What an event does to the files, unless its build fails. -/
theorem handle_leaves (writes : tools.WritesTargets layout) (placed : layout.IsPlaced)
    (place : IsPlace layout event.path)
    (descriptor : layout.descriptor.parts ≠ (layout.destination event.path).parts)
    (plainTemporary : before.temporary.IsPlain) (regular : before.tree.IsRegular)
    (notDirectory : event.isDirectory = false) (stops : request.settled.runtimeOnly)
    (built : event.kind ≠ .removed → before.tree.isFile event.path = .ok true →
      Dialect.ofPath event.path ≠ .declaration →
      (rebuilding tools event request layout
        (noting before .info s!"[{event.kind.name}] rebuilding {event.path}")).1 = .ok ()) :
    Ends (· = before) (handle tools event request layout)
      (fun _ => Leaves tools layout request event before) (Fails layout event before) := by
  unfold handle
  split
  · rename_i gone
    exact Ends.discard (removeDestination_leaves placed place regular notDirectory gone)
  · rename_i there
    unfold rebuild
    have asked : Ends (· = before) (Action.askFiles (·.isFile event.path))
        (fun answer session => before.tree.isFile event.path = .ok answer ∧ session = before)
        (Fails layout event before) := by
      refine (Ends.askFiles _).mono (fun _ same => same) ?_ ?_
      · rintro answer _ ⟨told, rfl⟩
        exact ⟨told, rfl⟩
      · rintro _ ⟨⟨fault, refused⟩, rfl⟩
        exact ⟨rfl, fun gone => absurd gone there,
          fun _ => regular.holdsFile_of_isFile_error place.plain refused⟩
    refine asked.bind fun isFile => Ends.of_and fun told => ?_
    cases isFile with
    | false =>
      refine .pure fun state same => ?_
      subst same
      exact ⟨.ignored (.inr ⟨there, regular.isFile_eq place.plain told⟩) regular rfl, rfl, rfl⟩
    | true =>
      rw [if_neg (by simp)]
      split
      · rename_i declaration
        refine .pure fun state same => ?_
        subst same
        exact ⟨.ignored (.inl declaration) regular rfl, rfl, rfl⟩
      · rename_i emitted
        refine (Ends.modify (· = noting before .info
          s!"[{event.kind.name}] rebuilding {event.path}") (by rintro _ rfl; rfl)).bind fun _ => ?_
        have succeeded := built there told emitted
        have known := (@rebuilding_leaves tools layout request event
          (noting before .info s!"[{event.kind.name}] rebuilding {event.path}") writes placed place
          emitted descriptor plainTemporary regular there told stops).outcome _ rfl
        have attempted : Ends (· = noting before .info
            s!"[{event.kind.name}] rebuilding {event.path}")
            (Action.attempt (rebuilding tools event request layout))
            (fun result state => result = .ok () ∧ Leaves tools layout request event before state)
            (Fails layout event before) := by
          refine ⟨?_⟩
          rintro _ rfl
          unfold Action.attempt
          rcases run : rebuilding tools event request layout (noting before .info
            s!"[{event.kind.name}] rebuilding {event.path}") with ⟨result, final⟩
          rw [run] at succeeded known
          change result = .ok () at succeeded
          subst succeeded
          exact ⟨rfl, known⟩
        refine attempted.bind fun result => Ends.of_and fun same => ?_
        subst same
        exact .pure fun _ shown => shown

/-- What an event does to the files if its build succeeds. -/
theorem Succeeds.leaves (succeeds : Succeeds tools request layout event before after)
    (writes : tools.WritesTargets layout) (placed : layout.IsPlaced) (place : IsPlace layout event.path)
    (descriptor : layout.descriptor.parts ≠ (layout.destination event.path).parts)
    (plainTemporary : before.temporary.IsPlain) (regular : before.tree.IsRegular)
    (notDirectory : event.isDirectory = false) (stops : request.settled.runtimeOnly) :
    Leaves tools layout request event before after := by
  have known := (handle_leaves writes placed place descriptor plainTemporary regular notDirectory stops
    succeeds.built).outcome before rfl
  rw [succeeds.handled] at known
  exact known

/-- An event has been handled, with or without a failure. If a build was started, it has succeeded. -/
structure Settles (tools : Toolchain) (request : Request) (layout : Layout) (event : WatchEvent)
    (before after : Session) : Prop where
  handled : (handle tools event request layout before).2 = after
  built : event.kind ≠ .removed → before.tree.isFile event.path = .ok true →
    Dialect.ofPath event.path ≠ .declaration →
    (rebuilding tools event request layout
      (noting before .info s!"[{event.kind.name}] rebuilding {event.path}")).1 = .ok ()

/-- What an event does to the files, whether or not it is handled without a failure. -/
theorem Settles.leaves (settles : Settles tools request layout event before after)
    (writes : tools.WritesTargets layout) (placed : layout.IsPlaced) (place : IsPlace layout event.path)
    (descriptor : layout.descriptor.parts ≠ (layout.destination event.path).parts)
    (plainTemporary : before.temporary.IsPlain) (regular : before.tree.IsRegular)
    (notDirectory : event.isDirectory = false) (stops : request.settled.runtimeOnly) :
    Leaves tools layout request event before after ∨ Fails layout event before after := by
  have known := (handle_leaves writes placed place descriptor plainTemporary regular notDirectory stops
    settles.built).outcome before rfl
  obtain ⟨rfl, -⟩ := settles
  rcases run : handle tools event request layout before with ⟨fault | answer, after⟩
  · rw [run] at known
    exact .inr known
  · rw [run] at known
    exact .inl known

end

end TreeBuild.Watch
