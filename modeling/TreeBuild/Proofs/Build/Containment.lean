import TreeBuild.Proofs.Build.Course
import TreeBuild.Proofs.Build.Outputs
import TreeBuild.Proofs.Tree.Named

/-!
# Builds stay in the output tree

A build that stops once the output can be run writes to the destinations of its sources, to the
descriptor of the output and to the copy of the compiler configuration, and to nothing else. All of that
is in the output tree, but for the copy, which is gone when the build ends, however it ends. So nothing
outside of the output tree is changed, as long as three things hold: no link leads out of the output
tree, nothing else is where the copy goes, and the destinations that follow from the request alone are
in the output tree.

The last one can fail. The destination of a source is computed from the text of its path, and two dots
behind the source directory take the destination out of the output tree again. Most sources are resolved
when they are found, so that their paths have no two dots left, but a single absolute path is used to
clear its destination before that.
-/
namespace TreeBuild

open TreeBuild.Tree

namespace Build

/-- Whether a request names one file whose output is cleared before the file is looked for. -/
structure ClearsFile (request : Request) (path : Path) : Prop where
  notLiteral : request.isLiteral = false
  given : request.input.path = .ok path
  absolute : path.isAbsolute
  notDeclaration : Dialect.ofPath path ≠ .declaration

/-- Whether the whole output tree is removed first. -/
structure ClearsOutput (request : Request) (layout : Layout) (tree : Tree) : Prop where
  notLiteral : request.isLiteral = false
  asked : request.clear
  pattern : ∀ path, request.input.path = .ok path → path.isAbsolute = false
  present : tree.isPresent layout.output = .ok true

/-- What keeps a build in the output tree. -/
structure IsContained (request : Request) (layout : Layout) (session : Session) : Prop where
  /-- The destination of a single file is in the output tree. -/
  file : ∀ path, ClearsFile request path →
    (layout.destination path).StaysIn layout.output.parts
  /-- So is that of the file that a given text stands for. -/
  place : ∀ place, request.isLiteral → request.noWrite = false →
    (request.stdinFile.getD (.proper "")).path = .ok place →
    (layout.destination (layout.resolve place)).StaysIn layout.output.parts
  /-- The output tree is not reached through a link. -/
  reached : ∀ location target, session.tree.get? location = some (.link target) →
    ¬ location <+: layout.output.parts
  /-- No link is in the output tree, or it goes with the rest. -/
  unlinked : ClearsOutput request layout session.tree ∨
    ∀ location target, session.tree.get? location = some (.link target) →
      ¬ layout.output.parts <+: location
  /-- The copy of the compiler configuration has a place of its own, where nothing is. -/
  plain : (Configuration.copyPath session.temporary session.clock).IsPlain
  copyReached : ∀ location target, session.tree.get? location = some (.link target) →
    ¬ location <+: (Configuration.copyPath session.temporary session.clock).parts
  notAbove : ¬ (Configuration.copyPath session.temporary session.clock).parts <+: layout.output.parts
  notBelow : ¬ layout.output.parts <+: (Configuration.copyPath session.temporary session.clock).parts
  free : session.tree.get? (Configuration.copyPath session.temporary session.clock).parts = none

/-! ### Trees during a build -/

/-- Where a build takes place: a project with its parts in place, and a place of its own for the copy
of the compiler configuration. -/
structure Scene where
  start : Tree
  layout : Layout
  temporary : Path
  clock : Nat
  placed : layout.IsPlaced
  inside : layout.output.parts ≠ []
  plain : (Configuration.copyPath temporary clock).IsPlain
  notAbove : ¬ (Configuration.copyPath temporary clock).parts <+: layout.output.parts
  notBelow : ¬ layout.output.parts <+: (Configuration.copyPath temporary clock).parts
  free : start.get? (Configuration.copyPath temporary clock).parts = none

namespace Scene

/-- Where the output tree is. -/
def output (scene : Scene) : Location := scene.layout.output.parts

/-- Where the copy of the compiler configuration goes. -/
def copy (scene : Scene) : Path := Configuration.copyPath scene.temporary scene.clock

/-- The output tree and the way to it. -/
def zone (scene : Scene) : Zone :=
  ⟨fun location => scene.output <+: location, fun location => location <+: scene.output⟩

/-- The same with the place of the copy. -/
def wholeZone (scene : Scene) : Zone :=
  ⟨fun location => scene.output <+: location ∨ location = scene.copy.parts,
    fun location => location <+: scene.output⟩

variable {scene : Scene} {before after tree : Tree}

/-- The place of the copy has no special parts in its path. -/
theorem copy_isPlain (scene : Scene) : scene.copy.IsPlain := scene.plain

/-- What is changed in the output tree is changed in the output tree or at the place of the copy. -/
theorem edit_wholeZone (edit : scene.zone.Edit before after) : scene.wholeZone.Edit before after :=
  edit.mono (fun _ inside => .inl inside) fun _ above => .inr above

/-- What changes in the output tree leaves the place of the copy as it was. -/
theorem get?_copy (edit : scene.zone.Edit before after) :
    after.get? scene.copy.parts = before.get? scene.copy.parts := by
  rcases edit.spares scene.copy.parts scene.notBelow with same | ⟨above, -, -⟩
  · exact same
  · exact absurd above scene.notAbove

variable (scene) in
/-- What holds of every tree once the output has been cleared. -/
structure Spared (tree : Tree) : Prop where
  straight : tree.Straight scene.output
  reached : ∀ location target, tree.get? location = some (.link target) →
    ¬ location <+: scene.copy.parts
  spares : scene.wholeZone.Spares scene.start tree

/-- A change in the output tree or at the place of the copy spares everything else. -/
theorem Spared.edit (spared : scene.Spared before) (edit : scene.wholeZone.Edit before after) :
    scene.Spared after where
  straight := spared.straight.edit edit
  reached location target link := spared.reached location target (edit.links location target link)
  spares := spared.spares.trans edit.spares

/-- On the way to the place of the copy there is no link as long as everything else is spared. -/
theorem Spared.unlinked (spared : scene.Spared tree) : tree.Unlinked [] scene.copy.parts :=
  unlinked_of_isName scene.copy_isPlain spared.reached

variable (scene) in
/-- The trees without a copy of the configuration. -/
def quiet : Ground where
  zone := scene.zone
  holds tree := scene.Spared tree ∧ tree.get? scene.copy.parts = none
  kept := fun ⟨spared, free⟩ edit => ⟨spared.edit (edit_wholeZone edit), (get?_copy edit).trans free⟩

variable (scene) in
/-- A copy that can be taken away again. -/
structure HasCopy (tree : Tree) : Prop where
  fits : scene.copy.Fits
  reaches : tree.Reaches scene.copy.parts
  isFile : ∃ content executable, tree.get? scene.copy.parts = some (.file content executable)

variable (scene) in
/-- The trees with a copy of the configuration. -/
def copying : Ground where
  zone := scene.zone
  holds tree := scene.Spared tree ∧ scene.HasCopy tree
  kept := by
    rintro before after ⟨spared, hasCopy⟩ edit
    refine ⟨spared.edit (edit_wholeZone edit), hasCopy.fits, fun above front other => ?_, ?_⟩
    · exact edit.directories above (hasCopy.reaches above front other)
    · rw [get?_copy edit]
      exact hasCopy.isFile

variable (scene) in
/-- Nothing outside of the output tree has changed, but for directories on the way to it. -/
def IsSpared (tree : Tree) : Prop := scene.zone.Spares scene.start tree

/-- A tree without a copy of the configuration has all that is to be spared. -/
theorem isSpared_of_quiet (held : scene.quiet.holds tree) : scene.IsSpared tree := by
  obtain ⟨spared, free⟩ := held
  intro location outside
  by_cases same : location = scene.copy.parts
  · left
    rw [same, free]
    exact scene.free.symm
  · exact spared.spares location fun inside => inside.elim outside same

/-! ### The copy of the configuration -/

/-- The copy is written where nothing is. -/
theorem hasCopy_of_write (held : scene.quiet.holds before) {content : Text.Bytes}
    (written : before.write scene.copy content = .ok after) :
    scene.copying.holds after ∧ after.get? scene.copy.parts = some (.file content false) := by
  obtain ⟨spared, free⟩ := held
  unfold write at written
  split at written
  · cases written
  · rename_i location found
    obtain ⟨same, fits, reaches⟩ := (locatePath_iff scene.copy_isPlain spared.unlinked).mp found
    subst location
    rw [free] at written
    cases written
    have edit : scene.wholeZone.Edit before (before.put scene.copy.parts (.file content false)) :=
      .put (Or.inr rfl) (by simp [free]) content false
    have inside : scene.copy.parts ≠ [] := by
      intro root
      rw [root] at free
      cases free
    have isFile := get?_put_self before inside (.file content false)
    refine ⟨⟨spared.edit edit, fits, fun above front other => ?_, content, false, isFile⟩, isFile⟩
    exact edit.directories above (reaches above front other)

/-- The copy can be taken away. -/
theorem unlink_copy (held : scene.copying.holds before) :
    ∃ after, before.unlink scene.copy = .ok after ∧ scene.quiet.holds after := by
  obtain ⟨spared, hasCopy⟩ := held
  obtain ⟨content, executable, isFile⟩ := hasCopy.isFile
  have found : before.locatePath .entry scene.copy = .ok scene.copy.parts :=
    (locatePath_iff scene.copy_isPlain spared.unlinked).mpr ⟨rfl, hasCopy.fits, hasCopy.reaches⟩
  have inside : scene.copy.parts ≠ [] := by
    intro root
    rw [root] at isFile
    cases isFile
  have edit : scene.wholeZone.Edit before (before.erase scene.copy.parts) :=
    .erase (Or.inr rfl) (by simp [isFile])
  refine ⟨before.erase scene.copy.parts, ?_, spared.edit edit, get?_erase_self before inside⟩
  unfold unlink
  simp only [found, isFile]

/-- Making the copy writes to its place, and leaves everything else if it fails. -/
theorem makeCopy_ends (path : Path) :
    Ends (Session.Shows scene.quiet.holds scene.temporary scene.clock) (Configuration.makeCopy path)
      (fun copy session => copy = scene.copy ∧
        Session.Shows scene.copying.holds scene.temporary (scene.clock + 1) session)
      (Session.Leaves scene.IsSpared) := by
  refine Configuration.makeCopy_ends (fun session shown => isSpared_of_quiet shown.tree) path
    fun value _ _ _ => ?_
  refine .changeFiles (fun session tree shown written => ?_) fun session fault shown _ => ?_
  · exact ⟨(hasCopy_of_write shown.tree written).1, shown.temporary, shown.clock⟩
  · exact isSpared_of_quiet shown.tree

/-- Removing the copy does not fail. -/
theorem removeCopy_ends {temporary : Path} {clock : Nat} {failed : Session → Prop} :
    Ends (Session.Shows scene.copying.holds temporary clock) (Configuration.removeCopy scene.copy)
      (fun _ => Session.Shows scene.quiet.holds temporary clock) failed := by
  refine .changeFiles (fun session tree shown removed => ?_) fun session fault shown refused => ?_
  · obtain ⟨after, unlinked, quiet⟩ := unlink_copy shown.tree
    simp only [unlinked] at removed
    cases removed
    exact ⟨quiet, shown.temporary, shown.clock⟩
  · obtain ⟨after, unlinked, -⟩ := unlink_copy shown.tree
    simp only [unlinked] at refused
    cases refused

/-! ### Where the build writes -/

/-- Where everything outside is spared, there is room for outputs. -/
theorem room {ground : Ground} (sameZone : ground.zone = scene.zone)
    (spared : ∀ tree, ground.holds tree → scene.Spared tree) : ground.Room scene.output where
  names := scene.placed.outputPlain
  straight tree held := (spared tree held).straight
  inside location below := by
    rw [sameZone]
    exact below
  above location higher := by
    rw [sameZone]
    exact .inr higher

/-- There is room for outputs in the trees without a copy. -/
theorem roomQuiet : scene.quiet.Room scene.output :=
  room rfl fun _ held => held.1

/-- There is room for outputs in the trees with a copy. -/
theorem roomCopying : scene.copying.Room scene.output :=
  room rfl fun _ held => held.1

/-- The output tree hosts a toolchain that writes to its outputs only. -/
theorem hosts {tools : Toolchain} (writes : tools.WritesOutputsOnly) {ground : Ground}
    (sameZone : ground.zone = scene.zone) (room : ground.Room scene.output) :
    ground.Hosts tools fun output => output.StaysIn scene.output := by
  intro invocation accepted tree held
  rw [sameZone]
  exact writes invocation tree scene.output room.names (room.straight tree held) accepted

variable (scene) in
/-- A source whose destination stays in the output tree. -/
structure Sends (path : Path) : Prop where
  absolute : path.isAbsolute
  proper : path.IsProper
  stays : (scene.layout.destination path).StaysIn scene.output

/-- A source whose destination stays in the output tree can be compiled to it. -/
theorem Sends.serves {path : Path} (sends : scene.Sends path) {ground : Ground}
    (room : ground.Room scene.output) :
    ground.Serves (fun output => output.StaysIn scene.output) scene.layout path where
  absolute := sends.absolute
  proper := sends.proper
  owns := room.owns sends.stays
  opens := room.opens sends.stays
  receives := by
    refine room.receives sends.stays ?_
    rcases path.name_cases with ⟨-, nameless⟩ | member
    · exact .inl nameless
    · exact .inr (sends.proper path.name member)
  accepted := sends.stays

/-- The destination of a path that has been resolved stays in the output tree. -/
theorem sends_of_isResolved {path : Path} (resolved : path.IsResolved) : scene.Sends path where
  absolute := resolved.absolute
  proper := resolved.plain.proper
  stays := Layout.destination_staysIn scene.placed resolved.absolute resolved.plain

variable (scene) in
/-- Sources of which none has a destination elsewhere. -/
def Found (files : List SourceFile) : Prop :=
  ∀ file ∈ files, file.dialect = Dialect.ofPath file.path ∧
    (file.dialect ≠ .declaration → scene.Sends file.path)

/-- A source that is found has been resolved, unless it is the one that was given. -/
theorem found_of_discover {request : Request} {tree : Tree} {files : List SourceFile} {path : Path}
    (notLiteral : request.isLiteral = false) (given : request.input.path = .ok path)
    (stays : ∀ path, ClearsFile request path → (scene.layout.destination path).StaysIn scene.output)
    (told : Sources.discover tree scene.layout request.input.shown = .ok files) :
    scene.Found files := by
  intro file member
  obtain ⟨dialect, origin⟩ := Sources.isResolved_of_discover told file member
  refine ⟨dialect, fun notDeclaration => ?_⟩
  rcases origin with resolved | ⟨same, absolute⟩
  · exact sends_of_isResolved resolved
  · have read : Path.ofString request.input.shown = path := by
      cases input : request.input with
      | proper text =>
        rw [input] at given
        exact Except.ok.inj given
      | stray value =>
        rw [input] at given
        cases given
    rw [dialect] at notDeclaration
    rw [read] at same absolute
    rw [same] at notDeclaration ⊢
    exact ⟨absolute, read ▸ Path.ofString_proper _,
      stays path ⟨notLiteral, given, absolute, notDeclaration⟩⟩

/-- What is found for an input has destinations in the output tree, if a single file has one that is cleared. -/
theorem discoverInput_ends {request : Request} (notLiteral : request.isLiteral = false)
    (stays : ∀ path, ClearsFile request path →
      (scene.layout.destination path).StaysIn scene.output) :
    Ends (Session.Shows scene.quiet.holds scene.temporary scene.clock)
      (discoverInput request scene.layout)
      (fun files => Session.Shows (fun tree => scene.Found files ∧ scene.quiet.holds tree)
        scene.temporary scene.clock)
      (Session.Leaves scene.IsSpared) := by
  unfold discoverInput
  refine (Ends.ask _).mono (fun _ shown => shown) (fun files session told => ?_)
    fun session told => isSpared_of_quiet told.2.tree
  obtain ⟨answered, shown⟩ := told
  obtain ⟨_, given, answered⟩ := exists_of_bind_eq_ok answered
  cases path : request.input.path with
  | error fault =>
    rw [path] at given
    cases given
  | ok path' =>
    have found := found_of_discover notLiteral path stays answered
    exact ⟨⟨found, shown.tree⟩, shown.temporary, shown.clock⟩

/-! ### Clearing the output -/

variable (scene) in
/-- What a request and the tree have to be like for a build to stay in the output tree. -/
structure Admits (request : Request) : Prop where
  file : ∀ path, ClearsFile request path → (scene.layout.destination path).StaysIn scene.output
  place : ∀ place, request.isLiteral → request.noWrite = false →
    (request.stdinFile.getD (.proper "")).path = .ok place →
    (scene.layout.destination (scene.layout.resolve place)).StaysIn scene.output
  reached : ∀ location target, scene.start.get? location = some (.link target) →
    ¬ location <+: scene.output
  unlinked : ClearsOutput request scene.layout scene.start ∨
    ∀ location target, scene.start.get? location = some (.link target) → ¬ scene.output <+: location
  copyReached : ∀ location target, scene.start.get? location = some (.link target) →
    ¬ location <+: scene.copy.parts

variable {request : Request}

/-- No link leads astray unless the output tree is removed. -/
theorem Admits.straight (admits : scene.Admits request)
    (kept : ¬ ClearsOutput request scene.layout scene.start) : scene.start.Straight scene.output :=
  fun location target link =>
    ⟨admits.reached location target link, admits.unlinked.resolve_left kept location target link⟩

/-- If no link leads astray, the build starts from a tree without a copy. -/
theorem Admits.quiet_of_straight (admits : scene.Admits request)
    (straight : scene.start.Straight scene.output) : scene.quiet.holds scene.start :=
  ⟨⟨straight, admits.copyReached, Zone.Spares.refl _ _⟩, scene.free⟩

/-- A build of a text removes nothing, so no link leads astray from the start. -/
theorem Admits.quiet_of_literal (admits : scene.Admits request) (isLiteral : request.isLiteral) :
    scene.quiet.holds scene.start := by
  refine admits.quiet_of_straight (admits.straight fun clears => ?_)
  rw [clears.notLiteral] at isLiteral
  cases isLiteral

/-- The path of the output tree leads to the output tree, whatever is in it. -/
theorem Admits.leadsTo_output (admits : scene.Admits request) :
    scene.start.LeadsTo scene.layout.output scene.output := by
  intro other same location found
  have unlinked : other.Unlinked [] scene.layout.output.parts := by
    refine unlinked_of_isName scene.placed.outputPlain fun place target link front => ?_
    have notBelow : ¬ isBelow place scene.output := by
      intro below
      simp only [isBelow, Bool.and_eq_true, List.isPrefixOf_iff_prefix, decide_eq_true_eq] at below
      exact below.2 (front.eq_of_length_le below.1.length_le)
    rw [same place notBelow] at link
    exact admits.reached place target link front
  exact ((locatePath_iff scene.placed.outputPlain unlinked).mp found).1

/-- Once the output tree has been removed, no link is left in it. -/
theorem Admits.quiet_of_removeTree (admits : scene.Admits request)
    (removed : (scene.start.removeTree scene.layout.output).1 = .ok ()) :
    scene.quiet.holds (scene.start.removeTree scene.layout.output).2 := by
  have spared := removeTree_spares admits.leadsTo_output
  have gone := removeTree_clears admits.leadsTo_output scene.inside removed
  have old : ∀ location target,
      (scene.start.removeTree scene.layout.output).2.get? location = some (.link target) →
        ¬ scene.output <+: location ∧ scene.start.get? location = some (.link target) := by
    intro location target link
    have outside : ¬ scene.output <+: location := by
      intro below
      rw [gone location below] at link
      cases link
    exact ⟨outside, spared location outside ▸ link⟩
  refine ⟨⟨fun location target link => ?_, fun location target link => ?_, ?_⟩, ?_⟩
  · have known := old location target link
    exact ⟨admits.reached location target known.2, known.1⟩
  · exact admits.copyReached location target (old location target link).2
  · exact fun location outside => .inl (spared location fun below => outside (.inl below))
  · exact (spared scene.copy.parts scene.notBelow).trans scene.free

/-- Removing the output tree leaves no link in it, and nothing else changes. -/
theorem Admits.outputClear_ends (admits : scene.Admits request) :
    Ends (Session.Shows (· = scene.start) scene.temporary scene.clock)
      (Output.clear scene.layout.output)
      (fun _ => Session.Shows scene.quiet.holds scene.temporary scene.clock)
      (Session.Leaves scene.IsSpared) := by
  unfold Output.clear
  refine ((Ends.askFiles _).mono (fun _ shown => shown) (fun _ _ told => told)
    fun session told => ?_).bind fun present => ?_
  · rw [Session.Leaves, told.2.tree]
    exact Zone.Spares.refl _ _
  split
  · refine .alterFiles (fun session told removed => ?_) fun session told => ?_
    · obtain ⟨-, tree, temporary, clock⟩ := told
      rw [tree] at removed ⊢
      exact ⟨admits.quiet_of_removeTree removed, temporary, clock⟩
    · rw [told.2.tree]
      exact fun location outside => .inl (removeTree_spares admits.leadsTo_output location outside)
  · rename_i absent
    refine .pure fun session ⟨told, tree, temporary, clock⟩ => ⟨?_, temporary, clock⟩
    rw [tree] at told ⊢
    refine admits.quiet_of_straight (admits.straight fun clears => ?_)
    rw [clears.present] at told
    exact absent (Except.ok.inj told).symm

/-- What a build clears is in the output tree. -/
theorem Admits.clear_ends (admits : scene.Admits request) (notLiteral : request.isLiteral = false) :
    Ends (Session.Shows (· = scene.start) scene.temporary scene.clock) (clear request scene.layout)
      (fun _ => Session.Shows scene.quiet.holds scene.temporary scene.clock)
      (Session.Leaves scene.IsSpared) := by
  have lost : ∀ session, Session.Shows (· = scene.start) scene.temporary scene.clock session →
      Session.Leaves scene.IsSpared session := by
    intro session shown
    rw [Session.Leaves, shown.tree]
    exact Zone.Spares.refl _ _
  have quiet (kept : ¬ ClearsOutput request scene.layout scene.start) : ∀ session,
      Session.Shows (· = scene.start) scene.temporary scene.clock session →
        Session.Shows scene.quiet.holds scene.temporary scene.clock session :=
    fun session shown => ⟨shown.tree ▸ admits.quiet_of_straight (admits.straight kept),
      shown.temporary, shown.clock⟩
  unfold clear
  refine ((Ends.ask _).mono (fun _ shown => shown) (fun _ _ told => told)
    fun session told => lost session told.2).bind fun single => Ends.of_and fun told => ?_
  have input : request.input.path.map Path.isAbsolute = .ok single := by
    simpa [Request.isSinglePath, notLiteral] using told
  split
  · rename_i isSingle
    refine ((Ends.ask _).mono (fun _ shown => shown) (fun _ _ told => told)
      fun session told => lost session told.2).bind fun path => Ends.of_and fun given => ?_
    have absolute : path.isAbsolute := by
      rw [given] at input
      exact (Except.ok.inj input).trans isSingle
    have kept : ¬ ClearsOutput request scene.layout scene.start := by
      intro clears
      rw [clears.pattern path given] at absolute
      cases absolute
    split
    · rename_i notDeclaration
      have stays := admits.file path ⟨notLiteral, given, absolute, notDeclaration⟩
      refine Ends.discard ((invalidate_keeps (roomQuiet.owns stays)).mono (quiet kept)
        (fun _ _ shown => shown) fun session shown => isSpared_of_quiet shown.tree)
    · exact .pure (quiet kept)
  · split
    · exact admits.outputClear_ends
    · rename_i notAsked
      exact .pure (quiet fun clears => notAsked clears.asked)

/-! ### Whole builds -/

/-- Copying the configuration writes the copy and nothing else. -/
theorem copyConfiguration_ends (request : Request) {holds : Tree → Prop}
    (quiet : ∀ tree, holds tree → scene.quiet.holds tree) :
    Ends (Session.Shows holds scene.temporary scene.clock)
      (copyConfiguration request scene.layout)
      (fun copy => Session.Shows (fun tree => copy = scene.copy ∧ scene.copying.holds tree)
        scene.temporary (scene.clock + 1))
      (Session.Leaves scene.IsSpared) := by
  unfold copyConfiguration
  refine ((Keeps.ask _).mono (Session.Shows.mono quiet) (fun _ _ shown => shown)
    fun session shown => isSpared_of_quiet shown.tree).bind fun path => ?_
  refine (makeCopy_ends _).mono (fun _ shown => shown) (fun copy session told => ?_) fun _ left => left
  exact ⟨⟨told.1, told.2.tree⟩, told.2.temporary, told.2.clock⟩

/-- A copy is removed also when the build has failed. -/
theorem clean_ends (copy : Path) :
    Ends (Session.Leaves fun tree => copy = scene.copy ∧ scene.copying.holds tree)
      (Configuration.removeCopy copy) (fun _ => Session.Leaves scene.IsSpared)
      (Session.Leaves scene.IsSpared) := by
  refine Ends.of_forall fun session ⟨same, held⟩ => ?_
  subst copy
  have removed := @removeCopy_ends scene session.temporary session.clock
    (Session.Leaves scene.IsSpared)
  refine removed.mono ?_ (fun _ session shown => isSpared_of_quiet shown.tree) fun _ left => left
  rintro _ rfl
  exact ⟨held, rfl, rfl⟩

variable {compiler : Compiler} {files : List SourceFile} {clock : Nat}

/-- The output tree stays in the output tree. -/
theorem accepts_output : scene.layout.output.StaysIn scene.output :=
  scene.placed.outputPlain.staysIn (List.prefix_refl _)

/-- What is compiled goes to the output tree. -/
theorem compile_ends (writes : compiler.tools.WritesOutputsOnly) (found : scene.Found files)
    (options : CompilerOptions) :
    Ends (Session.Shows scene.copying.holds scene.temporary clock)
      (compile compiler options scene.layout files)
      (fun outputs => Session.Shows (fun tree =>
        (∀ output ∈ outputs, output.StaysIn scene.output) ∧ scene.copying.holds tree)
        scene.temporary clock)
      (Session.Leaves scene.copying.holds) := by
  have serves : ∀ file ∈ files, file.dialect ≠ .declaration →
      scene.copying.Serves (fun output => output.StaysIn scene.output) scene.layout file.path :=
    fun file member notDeclaration => ((found file member).2 notDeclaration).serves roomCopying
  refine (Build.compile_ends (hosts writes rfl roomCopying).minds scene.placed accepts_output
    (fun file member => (found file member).1)
    fun file member other => (serves file member other).toServes).mono (fun _ held => held)
    (fun outputs session told => ?_) fun session held => held.tree
  refine ⟨⟨fun output member => ?_, told.2.tree⟩, told.2.temporary, told.2.clock⟩
  obtain ⟨file, listed, notDeclaration, rfl⟩ := told.1 output member
  exact ((found file listed).2 notDeclaration).stays

/-- Assets are copied into the output tree. -/
theorem copyAssets_ends (found : scene.Found files) :
    Ends (Session.Shows scene.quiet.holds scene.temporary clock)
      (Output.copyAssets (Sources.ofDialect .asset files) scene.layout)
      (fun _ => Session.Shows scene.quiet.holds scene.temporary clock)
      (Session.Leaves scene.IsSpared) := by
  have serves : ∀ file ∈ Sources.ofDialect .asset files,
      scene.quiet.Serves (fun output => output.StaysIn scene.output) scene.layout file.path := by
    intro file member
    obtain ⟨listed, asset⟩ : file ∈ files ∧ file.dialect = .asset := by
      simpa [Sources.ofDialect] using member
    exact ((found file listed).2 (by simp [asset])).serves roomQuiet
  exact (copyAssets_keeps serves).mono (fun _ held => held) (fun _ _ held => held)
    fun session held => isSpared_of_quiet held.tree

/-- Rewriting the specifiers of outputs changes the output tree only. -/
theorem normalizeFiles_ends {outputs : List Path}
    (stays : ∀ output ∈ outputs, output.StaysIn scene.output) (source : Path → Option SourceFile) :
    Ends (Session.Shows scene.quiet.holds scene.temporary clock)
      (Specifier.normalizeFiles outputs source)
      (fun _ => Session.Shows scene.quiet.holds scene.temporary clock)
      (Session.Leaves scene.IsSpared) :=
  (Specifier.normalizeFiles_keeps Session.Shows.silent
    (fun output member text => writeText_keeps (roomQuiet.owns (stays output member)) text)
    source).mono (fun _ held => held) (fun _ _ held => held)
    fun _ held => isSpared_of_quiet held.tree

/-- Patching the descriptor of the output tree changes the output tree only. -/
theorem patchType_ends (format : OutputFormat) :
    Ends (Session.Shows scene.quiet.holds scene.temporary clock)
      (Output.patchType scene.layout.output format)
      (fun _ => Session.Shows scene.IsSpared scene.temporary clock)
      (Session.Leaves scene.IsSpared) := by
  have name : Path.IsName "package.json" := by decide
  have plain : (scene.layout.output / "package.json").IsPlain := by
    rw [Path.div_of_isPart _ name.toIsPart]
    intro part member
    rcases List.mem_append.mp member with above | last
    · exact scene.placed.outputPlain part above
    · exact List.mem_singleton.mp last ▸ name
  have stays : (scene.layout.output / "package.json").StaysIn scene.output := by
    refine plain.staysIn ?_
    rw [Path.div_of_isPart _ name.toIsPart]
    exact List.prefix_append _ _
  exact (patchType_keeps (roomQuiet.owns stays) (roomQuiet.opens accepts_output) format).mono
    (fun _ held => held) (fun _ => Session.Shows.mono fun _ => isSpared_of_quiet)
    fun session held => isSpared_of_quiet held.tree

/-- The copy is removed, and what is known of other things is known still. -/
theorem remove_ends {fact : Prop} (copy : Path) :
    Ends (Session.Shows (fun tree => copy = scene.copy ∧ fact ∧ scene.copying.holds tree)
        scene.temporary clock) (Configuration.removeCopy copy)
      (fun _ => Session.Shows (fun tree => fact ∧ scene.quiet.holds tree) scene.temporary clock)
      (Session.Leaves scene.IsSpared) := by
  have removed : Ends (Session.Shows (fun tree => copy = scene.copy ∧ fact ∧ scene.copying.holds tree)
        scene.temporary clock) (Configuration.removeCopy copy)
      (fun _ => Session.Shows (fun tree => copy = scene.copy ∧ fact ∧ scene.quiet.holds tree)
        scene.temporary clock) (Session.Leaves scene.IsSpared) :=
    Ends.knowing fun same => Ends.knowing fun _ => same ▸ removeCopy_ends
  exact removed.mono (fun _ shown => shown) (fun _ => Session.Shows.mono fun _ known => known.2)
    fun _ left => left

/-- What holds between the stages of a build of files that stays in the output tree. -/
def course (admits : scene.Admits request) (notLiteral : request.isLiteral = false)
    (writes : compiler.tools.WritesOutputsOnly) :
    Course compiler request scene.layout environment scene.temporary scene.clock (· = scene.start)
      scene.IsSpared scene.IsSpared where
  cleared := scene.quiet.holds
  found files tree := scene.Found files ∧ scene.quiet.holds tree
  copied files copy tree := scene.Found files ∧ copy = scene.copy ∧ scene.copying.holds tree
  broken copy tree := copy = scene.copy ∧ scene.copying.holds tree
  compiled files copy outputs tree := scene.Found files ∧ copy = scene.copy ∧
    (∀ output ∈ outputs, output.StaysIn scene.output) ∧ scene.copying.holds tree
  emitted files outputs tree := scene.Found files ∧
    (∀ output ∈ outputs, output.StaysIn scene.output) ∧ scene.quiet.holds tree
  complete files outputs tree := scene.Found files ∧
    (∀ output ∈ outputs, output.StaysIn scene.output) ∧ scene.quiet.holds tree
  normalized := scene.quiet.holds
  clears := admits.clear_ends notLiteral
  discovers := discoverInput_ends notLiteral admits.file
  copies files := Ends.knowing fun _ => copyConfiguration_ends request fun _ held => held
  chosen _ _ := True
  chooses files copy := (CompilerOptions.ofRequest_keeps request scene.layout (some copy)).mono
    (fun _ shown => shown) (fun _ => Session.Shows.mono fun _ known => ⟨trivial, known⟩)
    fun _ shown => shown.tree.2
  compiles files copy options _ := by
    refine Ends.knowing fun found => Ends.knowing fun same => ?_
    exact (compile_ends writes found options).mono (fun _ held => held) (fun _ _ held => held)
      fun _ held => ⟨same, held⟩
  removes files copy outputs := Ends.knowing fun _ => remove_ends copy
  cleans := clean_ends
  copiesAssets files outputs := Ends.knowing fun found => Ends.knowing fun _ => copyAssets_ends found
  normalizes _ files outputs := by
    refine Ends.mono (Ends.knowing fun _ => Ends.knowing fun stays => normalizeFiles_ends stays _)
      (fun _ shown => shown) (fun _ => Session.Shows.mono fun _ known => known.2.2) fun _ left => left
  skips _ _ _ _ known := known.2.2
  patches := patchType_ends request.format

/-- A path that is given has no empty parts. -/
theorem isProper_of_given {given : Given String} {path : Path} (told : given.path = .ok path) :
    path.IsProper := by
  cases given with
  | proper text => exact Except.ok.inj told ▸ Path.ofString_proper text
  | stray value => cases told

/-- What holds between the parts of a build of a text that stays in the output tree. -/
def textCourse (admits : scene.Admits request) (isLiteral : request.isLiteral)
    (writes : compiler.tools.WritesOutputsOnly) :
    TextCourse compiler request scene.layout scene.temporary scene.clock (· = scene.start)
      scene.IsSpared scene.IsSpared where
  copied copy tree := copy = scene.copy ∧ scene.copying.holds tree
  broken copy tree := copy = scene.copy ∧ scene.copying.holds tree
  compiled copy tree := copy = scene.copy ∧ True ∧ scene.copying.holds tree
  fails tree same := same ▸ Zone.Spares.refl _ _
  transforms source label options :=
    (Compiler.transform_keeps (hosts writes rfl roomQuiet).minds source label).mono
      (Session.Shows.mono fun tree same => same ▸ admits.quiet_of_literal isLiteral)
      (fun _ => Session.Shows.mono fun _ => isSpared_of_quiet)
      fun _ shown => isSpared_of_quiet shown.tree
  copies := copyConfiguration_ends request fun tree same => same ▸ admits.quiet_of_literal isLiteral
  breaks _ _ known := known
  compiles place writesFile given copy source options := by
    refine Ends.knowing fun same => ?_
    have absolute := Layout.resolve_isAbsolute scene.placed place
    have proper := Layout.resolve_isProper scene.placed (isProper_of_given given)
    refine (Compiler.buildBuffer_keeps (hosts writes rfl roomCopying).minds
      (Layout.destination_isAbsolute scene.placed absolute proper)
      (Layout.destination_isProper scene.placed absolute proper)
      (admits.place place isLiteral writesFile given) source _).mono (fun _ held => held)
      (fun _ => Session.Shows.mono fun _ held => ⟨trivial, held⟩) fun _ held => ⟨same, held.tree⟩
  removes copy := (remove_ends copy).mono (fun _ shown => shown)
    (fun _ => Session.Shows.mono fun _ known => isSpared_of_quiet known.2) fun _ left => left
  cleans := clean_ends

end Scene

/-- The scene of a build that is contained. -/
def IsContained.scene {request : Request} {layout : Layout} {session : Session}
    (contained : IsContained request layout session) (placed : layout.IsPlaced)
    (inside : layout.output.parts ≠ []) : Scene where
  start := session.tree
  layout := layout
  temporary := session.temporary
  clock := session.clock
  placed := placed
  inside := inside
  plain := contained.plain
  notAbove := contained.notAbove
  notBelow := contained.notBelow
  free := contained.free

/-- A build that is contained has a scene that admits its request. -/
theorem IsContained.admits {request : Request} {layout : Layout} {session : Session}
    (contained : IsContained request layout session) (placed : layout.IsPlaced)
    (inside : layout.output.parts ≠ []) : (contained.scene placed inside).Admits request.settled where
  file path clears := contained.file path
    ⟨clears.notLiteral, clears.given, clears.absolute, clears.notDeclaration⟩
  place := contained.place
  reached := contained.reached
  unlinked := contained.unlinked.imp_left fun clears =>
    ⟨clears.notLiteral, clears.asked, clears.pattern, clears.present⟩
  copyReached := contained.copyReached

/-- What is where the destination of a single file leads is removed before anything else is done, be it
in the output tree or not. -/
theorem clear_removes {request : Request} {layout : Layout} {session : Session} {path : Path}
    {location : Location} {entry : Entry} (clears : ClearsFile request path)
    (leads : session.tree.locatePath .entry (layout.destination path) = .ok location)
    (present : session.tree.get? location = some entry) (notDirectory : entry ≠ .directory) :
    (clear request layout session).2.tree.get? location = none := by
  have notRoot : location ≠ [] := by
    rintro rfl
    exact notDirectory (Option.some.inj present).symm
  have unlinked : session.tree.unlink (layout.destination path) = .ok (session.tree.erase location) := by
    unfold unlink
    simp only [leads, present]
  have single : request.isSinglePath = .ok true := by
    simp [Request.isSinglePath, clears.notLiteral, clears.given, clears.absolute, Except.map]
  have invalidated : Ends (· = session) (Output.invalidate (layout.destination path))
      (fun _ after => after.tree.get? location = none) (fun _ => False) := by
    unfold Output.invalidate
    refine Ends.get.bind fun now => Ends.of_forall fun state ⟨same, start⟩ => ?_
    subst same start
    rw [unlinked]
    refine (Ends.modify (fun after => after.tree.get? location = none) ?_).bind fun _ => ?_
    · rintro _ rfl
      exact get?_erase_self _ notRoot
    · exact .pure fun _ gone => gone
  have ends : Ends (· = session) (clear request layout)
      (fun _ after => after.tree.get? location = none) (fun _ => False) := by
    unfold clear
    refine ((Ends.ask _).mono (fun _ start => start) (fun _ _ told => told)
      fun _ told => ?_).bind fun answer => Ends.of_and fun told => ?_
    · rw [single] at told
      obtain ⟨⟨fault, impossible⟩, -⟩ := told
      cases impossible
    · rw [single] at told
      cases told
      refine ((Ends.ask _).mono (fun _ start => start) (fun _ _ told => told)
        fun _ told => ?_).bind fun answer => Ends.of_and fun told => ?_
      · rw [clears.given] at told
        obtain ⟨⟨fault, impossible⟩, -⟩ := told
        cases impossible
      · rw [clears.given] at told
        cases told
        rw [if_pos clears.notDeclaration]
        exact Ends.discard invalidated
  have ended := ends.outcome session rfl
  rcases finished : clear request layout session with ⟨fault | answer, after⟩
  · rw [finished] at ended
    exact ended.elim
  · rw [finished] at ended
    exact ended

/-- A build that stops once the output can be run leaves everything outside of the output tree as it
was, however it ends: at most it makes the directories on the way there. Also the copy of the compiler
configuration is gone. All that this takes is that the build is contained, and a build is not contained
if the destination of its single file leads to a file elsewhere, because that file is removed. -/
theorem run_changes_output_only {tools : Toolchain} (writes : tools.WritesOutputsOnly) {root : Path}
    (absolute : root.isAbsolute) (plain : root.IsPlain) {request : Request}
    (stops : request.settled.runtimeOnly) (session : Session) :
    (IsContained request (.ofRoot root) session →
      ∀ location, ¬ (Layout.ofRoot root).output.parts <+: location →
        (run tools request (.ofRoot root) session).2.tree.get? location =
            session.tree.get? location ∨
          location <+: (Layout.ofRoot root).output.parts ∧ session.tree.get? location = none ∧
            (run tools request (.ofRoot root) session).2.tree.get? location = some .directory) ∧
      ∀ path location entry, ClearsFile request path →
        session.tree.locatePath .entry ((Layout.ofRoot root).destination path) = .ok location →
        session.tree.get? location = some entry → entry ≠ .directory →
          (clear request (.ofRoot root) session).2.tree.get? location = none := by
  constructor
  · intro contained location outside
    obtain ⟨placed, -, output⟩ := Layout.isPlaced_ofRoot absolute plain
    have inside : (Layout.ofRoot root).output.parts ≠ [] := by
      rw [output]
      simp
    have admits := contained.admits placed inside
    have ends := @run_ends request (.ofRoot root) session.environment session.temporary session.clock
      (· = session.tree) (contained.scene placed inside).IsSpared (contained.scene placed inside).IsSpared tools
      (fun tree same => same ▸ Zone.Spares.refl _ _)
      (fun _ isLiteral compiler sameTools _ => Scene.textCourse admits isLiteral (sameTools ▸ writes))
      (fun _ notLiteral compiler sameTools _ => Scene.course admits notLiteral (sameTools ▸ writes))
      stops
    have ended := ends.outcome session ⟨⟨rfl, rfl, rfl⟩, rfl⟩
    rcases finished : run tools request (.ofRoot root) session with ⟨fault | answer, after⟩
    · rw [finished] at ended
      exact ended location outside
    · rw [finished] at ended
      obtain ⟨last, shown, -⟩ := ended
      exact shown.tree location outside
  · intro path location entry clears leads present notDirectory
    exact clear_removes clears leads present notDirectory

/-! ### A project with one style sheet -/

/-- A project whose only source is a style sheet, and which has been built before. -/
def sheetSession : Session where
  tree := ⟨[(["p"], .directory), (["p", "src"], .directory), (["p", "src", "a.css"], .file [98] false),
    (["p", "dist"], .directory), (["p", "dist", "a.css"], .file [98] false), (["t"], .directory)]⟩
  environment := []
  directory := ⟨.root, ["p"]⟩
  temporary := ⟨.root, ["t"]⟩
  clock := 1

/-- A compiler that leaves every text as it is. -/
def plainCompiler : TextCompiler where
  compile _ text := .ok (text, "")
  display _ compiled := compiled

/-- A request for a single file, which stops once the output can be run. -/
def sheetRequest (input : String) : Request := { input := .proper input, runtimeOnly := true }

/-- The project with the style sheet has no links. -/
theorem sheetSession_unlinked (location : Location) (target : String) :
    sheetSession.tree.get? location ≠ some (.link target) := by
  intro link
  have inside : location ≠ [] := by
    rintro rfl
    cases link
  have member := mem_entries_of_get? link inside
  simp [sheetSession] at member

/-- The project has no links, and nothing is where the copy of the compiler configuration goes. -/
theorem sheetSession_isContained :
    IsContained (sheetRequest "/p/src/a.css") (.ofRoot ⟨.root, ["p"]⟩) sheetSession where
  file path clears := by
    have given : path = Path.ofString "/p/src/a.css" := (Except.ok.inj clears.given).symm
    have plain : path.IsPlain := by
      rw [given]
      decide
    have placed := (Layout.isPlaced_ofRoot rfl (by decide : Path.IsPlain ⟨.root, ["p"]⟩)).1
    exact Layout.destination_staysIn placed clears.absolute plain
  place place isLiteral := by cases isLiteral
  reached location target link := absurd link (sheetSession_unlinked location target)
  unlinked := .inr fun location target link => absurd link (sheetSession_unlinked location target)
  plain := by decide
  copyReached location target link := absurd link (sheetSession_unlinked location target)
  notAbove := by decide
  notBelow := by decide
  free := by decide

/-- The style sheet is built, and it is still there afterwards. -/
theorem run_changes_output_only_of_sheet :
    (run plainCompiler.toolchain (sheetRequest "/p/src/a.css") (.ofRoot ⟨.root, ["p"]⟩)
      sheetSession).2.tree.get? ["p", "src", "a.css"] = some (.file [98] false) := by
  have plain : Path.IsPlain ⟨.root, ["p"]⟩ := by decide
  have outside : ¬ (Layout.ofRoot ⟨.root, ["p"]⟩).output.parts <+: ["p", "src", "a.css"] := by decide
  have spared := (run_changes_output_only plainCompiler.toolchain_writesOutputsOnly rfl plain rfl
    sheetSession).1 sheetSession_isContained ["p", "src", "a.css"] outside
  rcases spared with same | ⟨-, none, -⟩
  · rw [same]
    decide
  · exact absurd none (by decide)

/-- Given by way of the directory above the sources, the style sheet is removed in place of its output:
its path and that of its output lead to the same place. -/
theorem run_removes_source :
    plainCompiler.toolchain.WritesOutputsOnly ∧
      (sheetRequest "/p/src/../src/a.css").settled.runtimeOnly ∧
      (sheetRequest "/p/src/../src/a.css").fault? = none ∧
      ¬ (Layout.ofRoot ⟨.root, ["p"]⟩).output.parts <+: ["p", "src", "a.css"] ∧
      sheetSession.tree.get? ["p", "src", "a.css"] = some (.file [98] false) ∧
      (run plainCompiler.toolchain (sheetRequest "/p/src/../src/a.css") (.ofRoot ⟨.root, ["p"]⟩)
        sheetSession).2.tree.get? ["p", "src", "a.css"] = none := by
  refine ⟨plainCompiler.toolchain_writesOutputsOnly, ?_, ?_, ?_, ?_, ?_⟩ <;> decide +kernel

end Build

end TreeBuild
