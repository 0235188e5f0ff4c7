import TreeBuild.Proofs.Build.Containment
import TreeBuild.Proofs.Build.Handing
import TreeBuild.Proofs.Project.Collisions
import TreeBuild.Proofs.Text.Encoding
import TreeBuild.Proofs.Tree.Below

/-!
# A text that is given, and the same text in a file

A module with markup is built from its file, or from a text that is given for its path. Either way the compiler
is called once, for the same output, with the same flags but for the name of the copy of the configuration, and
in the directory of the path. What is handed over is not the same: a text that is read from a file is put behind
the imports that markup needs, and a text that is given is handed over as it is.

Before the call, a build of the file removes its old output, and both builds write a copy of the configuration.
Of the tree nothing is asked but that this leaves alone what the builds read: the file and the descriptor of the
project. It does where there are no links.
-/
namespace TreeBuild

/-! ### The options for a text and for a file -/

namespace CompilerOptions

variable {request : Request} {content : Option Text.Bytes} {copy : Option Path} {options : CompilerOptions}

/-- The configuration that the chosen options name is the copy. -/
theorem Chosen.tsconfig (chosen : Chosen request content copy options) : options.tsconfig = copy := by
  obtain ⟨value, -, chosen⟩ := chosen
  obtain ⟨external, -, chosen⟩ := exists_of_bind_eq_ok chosen
  obtain ⟨platform, -, chosen⟩ := exists_of_bind_eq_ok chosen
  cases chosen
  rfl

/-- A call for one text does not tell whether bundles share chunks of code. -/
theorem flags_buffer (options : CompilerOptions) (splitting : Bool) :
    { options with splitting }.flags .buffer = options.flags .buffer := by
  simp [flags, bundleFlags, commonFlags]

end CompilerOptions

/-- The request to build a text in place of a file, and to write the output. -/
def Request.forText (request : Request) (place text : String) : Request :=
  { request with literalSource := some text, stdinFile := some (.proper place), noWrite := false }

/-- The options for a text are those for a file, but that bundles share no chunks of code. -/
theorem CompilerOptions.choose_forText (request : Request) (path : Path) (place text : String) (descriptor : Json)
    (copy : Option Path) :
    choose (request.forText place text).settled descriptor copy =
      (choose (request.forFile path).settled descriptor copy).map fun options =>
        { options with splitting := false } := by
  have members : externalsOf (request.forText place text).settled =
      externalsOf (request.forFile path).settled := rfl
  have unshared : (request.forText place text).settled.splitting = false := by
    simp [Request.splitting, Request.forText, Request.settled, Request.isLiteral]
  unfold choose
  rw [members, unshared]
  cases externalsOf (request.forFile path).settled with
  | error fault => rfl
  | ok external => cases Descriptor.givenIn? descriptor "platform" <;> rfl

namespace Tree

variable {tree : Tree} {path : Path} {bytes : Text.Bytes}

/-- A file that can be read lies in a directory. -/
theorem isDirectory_parent_of_read (inside : path.parts ≠ []) (held : tree.read path = .ok bytes) :
    tree.isDirectory path.parent = .ok true := by
  unfold read at held
  split at held
  · cases held
  · rename_i status
    unfold Tree.status at status
    split at status
    · cases status
    · rename_i location led
      obtain ⟨directory, found, isDirectory⟩ := locatePath_parent inside led
      rw [isDirectory_of_locatePath found, isDirectory]
  · cases held

end Tree

namespace Build

/-! ### Making ready for the call -/

/-- What builds of a path do to the tree before they call the compiler: its old output is removed, and the copy
of the configuration is written. -/
inductive Readies (layout : Layout) (path copy : Path) (tree after : Tree) : Prop where
  | clears (removed : tree.unlink (layout.destination path) = .ok after)
  | copies (content : Text.Bytes) (written : tree.write copy content = .ok after)

/-- The trees in which the compiler may be called for a path in a build from this session. -/
def IsReadied (layout : Layout) (path : Path) (start : Session) : Tree → Prop :=
  Relation.ReflTransGen (Readies layout path (Configuration.copyPath start.temporary start.clock)) start.tree

/-- Making ready leaves alone what the builds read: the file at the path, and the descriptor of the project. -/
def SparesReading (layout : Layout) (path : Path) (start : Session) : Prop :=
  ∀ tree, IsReadied layout path start tree → ∀ place ∈ [path, layout.descriptor],
    (tree.read place).toOption = (start.tree.read place).toOption

/-- A session of a build that has called no tool and has done nothing but make ready. -/
structure Readied (layout : Layout) (path : Path) (start : Session) (clock : Nat) (session : Session) : Prop where
  since : Since start [] session
  shown : Session.Shows (IsReadied layout path start) start.temporary clock session

/-- That nothing but making ready has been done does not depend on the log. -/
theorem Readied.silent {layout : Layout} {path : Path} {start : Session} {clock : Nat} :
    Silent (Readied layout path start clock) :=
  fun session journal ready => ⟨Since.quiet.silent session journal ready.since,
    Session.Shows.silent session journal ready.shown⟩

/-- At the start nothing has been done. -/
theorem Readied.refl (layout : Layout) (path : Path) (start : Session) :
    Readied layout path start start.clock start :=
  ⟨⟨(List.append_nil _).symm, rfl⟩, .refl, rfl, rfl⟩

/-- A call that hands over a text for a path, with the options for a request where the descriptor has this
content. -/
inductive HandsText (program : String) (layout : Layout) (request : Request) (content : Option Text.Bytes)
    (path : Path) (text : String) : Invocation × Tree → Prop where
  | intro (copy : Path) (options : CompilerOptions) (tree : Tree)
      (chosen : CompilerOptions.Chosen request content (some copy) options) :
      HandsText program layout request content path text
        (Compiler.textCall program options path (layout.destination path) text path.parent, tree)

/-- A call for a text that is given is one that a build of the file may make for this text. -/
theorem HandsText.forFile {program : String} {layout : Layout} {request : Request} {content : Option Text.Bytes}
    {path : Path} {place source text : String} {call : Invocation × Tree}
    (hands : HandsText program layout (request.forText place source).settled content path text call) :
    HandsText program layout (request.forFile path).settled content path text call := by
  obtain ⟨copy, options, tree, value, told, chosen⟩ := hands
  rw [CompilerOptions.choose_forText request path] at chosen
  cases forFile : CompilerOptions.choose (request.forFile path).settled value (some copy) with
  | error fault => simp [forFile, Except.map] at chosen
  | ok same =>
    simp only [forFile, Except.map, Except.ok.injEq] at chosen
    subst chosen
    rw [Compiler.textCall, CompilerOptions.flags_buffer]
    exact .intro copy same tree ⟨value, told, forFile⟩

section

variable {compiler : Compiler} {request : Request} {layout : Layout} {path : Path} {start : Session} {clock : Nat}

/-- Clearing the destination of the path is a part of making ready. -/
theorem clear_readies (absolute : path.isAbsolute) (proper : path.IsProper)
    (given : request.input = .proper path.toString) (files : request.isLiteral = false) :
    Ends (Readied layout path start clock) (clear request layout) (fun _ => Readied layout path start clock)
      (Since start []) := by
  have invalidated : Ends (Readied layout path start clock) (Output.invalidate (layout.destination path))
      (fun _ => Readied layout path start clock) (Since start []) := by
    unfold Output.invalidate
    refine Ends.get.bind fun now => Ends.of_forall fun session ⟨same, ready⟩ => ?_
    subst same
    split
    · rename_i after removed
      refine (Ends.modify (Readied layout path start clock) ?_).bind fun _ => .pure fun _ told => told
      rintro _ rfl
      exact ⟨⟨ready.since.calls, ready.since.environment⟩,
        ready.shown.tree.tail (.clears removed), ready.shown.temporary, ready.shown.clock⟩
    · exact .pure fun _ same => same ▸ ready
    · exact .throw fun _ same => same ▸ ready.since
  rw [clear_of_path absolute proper given files]
  split
  · exact invalidated.discard
  · exact .pure fun _ ready => ready

/-- So is copying the configuration. -/
theorem copyConfiguration_readies : Ends (Readied layout path start start.clock) (copyConfiguration request layout)
    (fun _ => Readied layout path start (start.clock + 1)) (Since start []) := by
  have shows : Ends (Session.Shows (IsReadied layout path start) start.temporary start.clock)
      (copyConfiguration request layout)
      (fun _ => Session.Shows (IsReadied layout path start) start.temporary (start.clock + 1))
      (fun _ => True) := by
    unfold copyConfiguration
    refine ((Ends.ask _).mono (fun _ shown => shown) (fun _ _ told => told.2)
      fun _ _ => trivial).bind fun asked => ?_
    refine (Configuration.makeCopy_ends (fun _ _ => trivial) _ fun value taken _ _ => ?_).mono
      (fun _ shown => shown) (fun _ _ told => told.2) fun _ _ => trivial
    refine .changeFiles (fun session tree shown written => ?_) fun _ _ _ _ => trivial
    exact ⟨shown.tree.tail (.copies _ written), shown.temporary, shown.clock⟩
  exact (shows.and (Since.quiet.copyConfiguration request layout)).mono
    (fun _ ready => ⟨ready.shown, ready.since⟩) (fun _ _ known => ⟨known.2, known.1⟩) fun _ left => left.2

variable (spares : SparesReading layout path start)

include spares

/-- The options are chosen as if the build had not made ready. -/
theorem ofRequest_chooses (copy : Path) :
    Ends (Readied layout path start clock) (CompilerOptions.ofRequest request layout (some copy))
      (fun options session => CompilerOptions.Chosen request (start.tree.read layout.descriptor).toOption
        (some copy) options ∧ Readied layout path start clock session)
      (Since start []) := by
  refine (CompilerOptions.ofRequest_tells request layout (some copy)).mono (fun _ ready => ready)
    (fun options session told => ?_) fun _ ready => ready.since
  obtain ⟨⟨content, yields, chosen⟩, ready⟩ := told
  rw [← spares _ ready.shown.tree layout.descriptor (by simp), ← yields.eq]
  exact ⟨chosen, ready⟩

variable {bytes : Text.Bytes} (held : start.tree.read path = .ok bytes)

include held

/-- What was at the path is still read there. -/
theorem Readied.read {session : Session} (ready : Readied layout path start clock session) :
    session.tree.read path = .ok bytes := by
  have same := spares _ ready.shown.tree path (by simp)
  rw [held] at same
  cases read : session.tree.read path with
  | error fault => simp [read, Except.toOption] at same
  | ok content => simpa [read, Except.toOption] using same

/-- Handing over a text for the path is one call, in the directory of the path. -/
theorem buildBuffer_hands (inside : path.parts ≠ []) {copy : Path} {options : CompilerOptions}
    {content : Option Text.Bytes} (chosen : CompilerOptions.Chosen request content (some copy) options)
    (text : String) :
    Ends (Readied layout path start clock) (compiler.buildBuffer text path (layout.destination path) options)
      (fun _ => Made (HandsText compiler.program layout request content path text) start 1)
      (MadeAtMost (HandsText compiler.program layout request content path text) start) := by
  unfold Compiler.buildBuffer
  refine Ends.of_forall fun session ready => ?_
  have there := Tree.isDirectory_parent_of_read inside (ready.read spares held)
  refine ((Ends.askFiles _).mono (fun _ same => same) (fun _ _ told => told)
    fun other told => Since.atMost (told.2 ▸ ready.since)).bind fun present => ?_
  refine Ends.of_forall fun other ⟨told, same⟩ => ?_
  subst same
  obtain rfl : true = present := Except.ok.inj (there.symm.trans told)
  refine Ends.discard ((run_calls _ _ _ (.intro copy options other.tree chosen)).mono ?_ (fun _ _ made => made)
    fun _ made => made)
  rintro _ rfl
  exact ⟨rfl, ready.since⟩

end

section

variable {layout : Layout} {path : Path} {start : Session}

/-- A module with markup is not its own destination, which is a plain module. -/
theorem markup_ne_destination (placed : layout.IsPlaced) (absolute : path.isAbsolute) (proper : path.IsProper)
    (isMarkup : Dialect.ofPath path = .templatedUi) : path.parts ≠ (layout.destination path).parts := by
  obtain ⟨stem, last⟩ := Layout.getLast?_destination placed absolute proper (by simp [isMarkup, Dialect.isCompiled])
  intro same
  rw [← same] at last
  have dialect : Dialect.ofName (stem ++ Layout.compiledSuffix) = .templatedUi := by
    rw [← isMarkup, Dialect.ofPath, Path.name, last]
    rfl
  by_cases empty : stem = ""
  · subst empty
    exact absurd dialect (by decide)
  · rw [Dialect.ofName_append_compiledSuffix empty] at dialect
    cases dialect

/-- Where there are no links, making ready leaves alone what builds of a module with markup read. -/
theorem sparesReading_of_regular (placed : layout.IsPlaced) (regular : start.tree.IsRegular)
    (temporary : start.temporary.IsPlain) (absolute : path.isAbsolute) (plain : path.IsPlain)
    (isMarkup : Dialect.ofPath path = .templatedUi) : SparesReading layout path start := by
  have isPlain : ∀ place ∈ [path, layout.descriptor], place.IsPlain := by
    simpa using ⟨plain, descriptor_isPlain placed⟩
  have notRemoved : ∀ place ∈ [path, layout.descriptor], place.parts ≠ (layout.destination path).parts := by
    have name : Path.IsPart "package.json" := ⟨by decide, by decide, by decide⟩
    have descriptor : layout.descriptor.parts ≠ (layout.destination path).parts := by
      obtain ⟨stem, last⟩ := Layout.getLast?_destination placed absolute plain.proper
        (by simp [isMarkup, Dialect.isCompiled])
      intro same
      rw [← same, Layout.descriptor, Path.div_of_isPart _ name] at last
      simp only [List.getLast?_append, List.getLast?_singleton, Option.some_or, Option.some.injEq] at last
      have letters : "package.json".toList = "package".toList ++ ".json".toList := by decide
      exact append_compiledSuffix_ne letters last.symm
    simpa using ⟨markup_ne_destination placed absolute plain.proper isMarkup, descriptor⟩
  have notWritten : ∀ place ∈ [path, layout.descriptor],
      place.parts ≠ (Configuration.copyPath start.temporary start.clock).parts := by
    have other : path.parts ≠ (Configuration.copyPath start.temporary start.clock).parts := by
      intro same
      have asset := dialect_copyPath start.temporary start.clock
      rw [Dialect.ofPath, Path.name, ← same] at asset
      rw [Dialect.ofPath, Path.name, asset] at isMarkup
      cases isMarkup
    simpa using ⟨other, descriptor_ne_copyPath layout start.temporary start.clock⟩
  have kept {tree : Tree} (ready : IsReadied layout path start tree) : tree.IsRegular ∧
      ∀ place ∈ [path, layout.descriptor], tree.contentAt? place.parts = start.tree.contentAt? place.parts := by
    induction ready with
    | refl => exact ⟨regular, fun _ _ => rfl⟩
    | tail _ step inductionHypothesis =>
      obtain ⟨before, same⟩ := inductionHypothesis
      cases step with
      | clears removed =>
        have changes := before.unlink (Layout.destination_isPlain placed absolute plain) removed
        exact ⟨changes.regular, fun place member =>
          (changes.elsewhere (notRemoved place member)).trans (same place member)⟩
      | copies content written =>
        have changes := (before.write (Configuration.copyPath_isPlain temporary start.clock) written).2
        exact ⟨changes.regular, fun place member =>
          (changes.elsewhere (notWritten place member)).trans (same place member)⟩
  intro tree ready place member
  obtain ⟨after, same⟩ := kept ready
  have told (content : Text.Bytes) : tree.read place = .ok content ↔ start.tree.read place = .ok content := by
    rw [after.read_iff (isPlain place member), regular.read_iff (isPlain place member), same place member]
  cases read : start.tree.read place with
  | ok content => rw [(told content).mpr read]
  | error fault =>
    cases again : tree.read place with
    | error other => rfl
    | ok content => simp [(told content).mp again] at read

end

/-! ### The builds -/

section

variable {compiler : Compiler} {request : Request} {layout : Layout} {path : Path} {start : Session}
  {place text : String}

/-- A build of the file hands over its text behind the imports that markup needs. -/
def handoverText (names : Names start.tree path) (isMarkup : Dialect.ofPath path = .templatedUi)
    (given : request.input = .proper path.toString) (files : request.isLiteral = false)
    (spares : SparesReading layout path start) (held : start.tree.read path = .ok (Text.Utf8.encode text))
    (noReturn : '\r' ∉ text.toList) :
    Handover compiler request layout path start (HandsText compiler.program layout request
      (start.tree.read layout.descriptor).toOption path (Compiler.withPreamble text)) where
  cleared session := StillNames layout path start session ∧ Readied layout path start start.clock session
  found := Readied layout path start start.clock
  equipped _ := Readied layout path start (start.clock + 1)
  chosen copy options session := CompilerOptions.Chosen request (start.tree.read layout.descriptor).toOption
    (some copy) options ∧ Readied layout path start (start.clock + 1) session
  clears := by
    refine ((clear_stillNames names given files).and
      (clear_readies names.absolute names.plain.proper given files)).mono (fun session relogs => ?_)
      (fun _ _ known => known) fun _ left => left.1
    obtain ⟨journal, rfl⟩ := relogs
    exact ⟨⟨journal, rfl⟩, Readied.silent start journal (.refl layout path start)⟩
  discovers := ((discoverInput_finds given).and (Keeps.ask _)).mono (fun _ known => known)
    (fun _ _ known => ⟨known.1.1, known.2⟩) fun _ left => left.1
  copies := copyConfiguration_readies
  chooses copy := ofRequest_chooses spares copy
  compiles copy options := Ends.of_and fun chosen => by
    rw [compile_markup isMarkup]
    unfold compileMarkup
    refine Ends.through (fun output session => output = layout.destination path ∧
      Made (HandsText compiler.program layout request (start.tree.read layout.descriptor).toOption path
        (Compiler.withPreamble text)) start 1 session) ?_ fun output => .pure fun session told => ?_
    · refine Ends.through (fun source session => source = text ∧
        Readied layout path start (start.clock + 1) session) ?_ fun source => Ends.of_and fun same => ?_
      · refine (Ends.readText_textAt path).mono (fun _ ready => ready) (fun source session told => ⟨?_, told.2⟩)
          fun _ ready => ready.since.atMost
        have read := Session.textAt_encode (told.2.read spares held) noReturn
        exact Except.ok.inj (told.1.symm.trans read)
      · subst same
        exact (buildBuffer_hands spares held names.nonempty chosen _).bind fun _ =>
          .pure fun _ made => ⟨rfl, made⟩
    · simpa [tallyOf, timesOf, isMarkup, Dialect.isCompiled] using told
  silentCleared session journal known := ⟨StillNames.silent session journal known.1,
    Readied.silent session journal known.2⟩
  silentFound := Readied.silent
  silentChosen _ _ session journal known := ⟨known.1, Readied.silent session journal known.2⟩

/-- A build of the text hands it over as it is. -/
theorem buildLiteral_hands (resolves : layout.resolve (Path.ofString place) = path) (inside : path.parts ≠ [])
    (spares : SparesReading layout path start) {bytes : Text.Bytes} (held : start.tree.read path = .ok bytes) :
    Ends (Amid fun _ => Readied layout path start start.clock)
      (buildLiteral compiler (request.forText place text).settled layout)
      (fun _ => Amid fun _ => Made (HandsText compiler.program layout (request.forText place text).settled
        (start.tree.read layout.descriptor).toOption path text) start 1)
      (Amid fun _ => MadeAtMost (HandsText compiler.program layout (request.forText place text).settled
        (start.tree.read layout.descriptor).toOption path text) start) := by
  let good := HandsText compiler.program layout (request.forText place text).settled
    (start.tree.read layout.descriptor).toOption path text
  let chosen (copy : Path) (options : CompilerOptions) (session : Session) : Prop :=
    CompilerOptions.Chosen (request.forText place text).settled (start.tree.read layout.descriptor).toOption
      (some copy) options ∧ Readied layout path start (start.clock + 1) session
  have silent (copy : Path) (options : CompilerOptions) : Silent (chosen copy options) :=
    fun session journal told => ⟨told.1, Readied.silent session journal told.2⟩
  have built (copy : Path) (options : CompilerOptions) : Ends (chosen copy options)
      (compiler.buildBuffer text path (layout.destination path) options) (fun _ => Made good start 1)
      (MadeAtMost good start) :=
    Ends.of_and fun known => buildBuffer_hands spares held inside known text
  unfold buildLiteral
  dsimp only
  rw [show (request.forText place text).settled.noWrite = false from rfl, if_neg Bool.false_ne_true,
    show (request.forText place text).settled.literalSource.getD "" = text from rfl,
    show (request.forText place text).settled.stdinFile.getD (.proper "") = .proper place from rfl]
  refine Ends.through (fun given state => given = Path.ofString place ∧
    Amid (fun _ => Readied layout path start start.clock) state) ?_ fun given => Ends.of_and fun same => ?_
  · have placed : Ends (Readied layout path start start.clock) (Action.ask fun _ => (Given.proper place).path)
        (fun given session => given = Path.ofString place ∧ Readied layout path start start.clock session)
        (MadeAtMost good start) :=
      (Ends.ask _).mono (fun _ ready => ready)
        (fun _ _ told => ⟨(Except.ok.inj told.1).symm, told.2⟩) fun _ told => told.2.since.atMost
    exact Ends.ofAction fun _ => placed
  subst same
  rw [resolves]
  refine Ends.through (fun _ => Amid fun _ => Readied layout path start (start.clock + 1))
    (Ends.ofAction fun _ => copyConfiguration_readies.mono (fun _ ready => ready) (fun _ _ ready => ready)
      fun _ since => since.atMost) fun copy => ?_
  refine Ends.through (fun _ => Amid fun _ => Made good start 1) (Ends.closingPass
    (?_ : Ends _ _ (fun _ => Amid fun _ => Made good start 1) (Amid fun _ => MadeAtMost good start))
    (fun _ _ => (Made.quiet.removeCopy copy).mono (fun _ made => made) (fun _ _ made => made)
      fun _ made => ⟨1, Nat.le_refl 1, made⟩) fun _ => MadeAtMost.quiet.removeCopy copy) fun _ => ?_
  · refine Ends.through (fun options => Amid fun _ => chosen copy options)
      (Ends.ofAction fun _ => (ofRequest_chooses spares copy).mono (fun _ ready => ready)
        (fun _ _ told => told) fun _ since => since.atMost) fun options => ?_
    refine Ends.discard ((Ends.stage rfl (fun _ => silent copy options) (fun _ _ => Made.quiet.silent)
      (fun _ => MadeAtMost.quiet.silent) (Ends.ofAction fun _ => built copy options) _ _).mono
        (fun _ told => told) ?_ fun _ left => left)
    rintro answer state ⟨given, -, made⟩
    exact made
  · refine Ends.bind ((Keeps.log (fun _ => Made.quiet.silent) _ _ _ _).mono (fun _ made => made)
      (fun _ _ made => made) fun _ made => ⟨1, Nat.le_refl 1, made⟩) fun _ => ?_
    exact .pure fun _ made => made

variable {tools : Toolchain} {program : String}
  (finds : ∀ compiler, Compiler.ofLayout tools layout none start = (.ok compiler, start) → compiler.program = program)

include finds

/-- A build of the text calls the compiler once, unless it fails before that, and calls nothing else. -/
theorem run_forText_hands (resolves : layout.resolve (Path.ofString place) = path) (inside : path.parts ≠ [])
    (spares : SparesReading layout path start) {bytes : Text.Bytes} (held : start.tree.read path = .ok bytes) :
    ∃ calls, Since start calls (run tools (request.forText place text) layout start).2 ∧ calls.length ≤ 1 ∧
      ((run tools (request.forText place text) layout start).1.isOk → calls.length = 1) ∧
      ∀ call ∈ calls, HandsText program layout (request.forText place text).settled
        (start.tree.read layout.descriptor).toOption path text call := by
  rcases run_cases tools (request.forText place text) layout start with
    ⟨fault, refused, -⟩ | ⟨compiler, result, state, found, -, ended, ran⟩
  · rw [refused]
    exact ⟨[], ⟨(List.append_nil _).symm, rfl⟩, Nat.zero_le 1, nofun, by simp⟩
  · obtain rfl := finds compiler found
    rw [ran]
    rw [show (request.forText place text).settled.isLiteral = true from rfl, if_pos rfl] at ended
    have ends : Ends _ (buildLiteral compiler (request.forText place text).settled layout) _ _ :=
      buildLiteral_hands resolves inside spares held
    have hands := ends.outcome
      { session := start, report := { mode := (request.forText place text).settled.mode.name } }
      (Readied.refl layout path start)
    rw [ended] at hands
    cases result with
    | ok outcome =>
      obtain ⟨calls, since, length, all⟩ := hands
      exact ⟨calls, since, length.le, fun _ => length, all⟩
    | error fault =>
      obtain ⟨times, most, calls, since, rfl, all⟩ := hands
      exact ⟨calls, since, most, nofun, all⟩

/-- A build of the file calls the compiler once, unless it fails before that, and then at most other tools. -/
theorem run_forFile_hands (names : Names start.tree path) (isMarkup : Dialect.ofPath path = .templatedUi)
    (spares : SparesReading layout path start) (held : start.tree.read path = .ok (Text.Utf8.encode text))
    (noReturn : '\r' ∉ text.toList) :
    ∃ calls others, Since start (calls ++ others) (run tools (request.forFile path) layout start).2 ∧
      calls.length ≤ 1 ∧ ((run tools (request.forFile path) layout start).1.isOk → calls.length = 1) ∧
      (∀ call ∈ calls, HandsText program layout (request.forFile path).settled
        (start.tree.read layout.descriptor).toOption path (Compiler.withPreamble text) call) ∧
      ∀ call ∈ others, Auxiliary.Calls layout call.1 := by
  rcases run_cases tools (request.forFile path) layout start with
    ⟨fault, refused, -⟩ | ⟨compiler, result, state, found, -, ended, ran⟩
  · rw [refused]
    exact ⟨[], [], ⟨by simp, rfl⟩, Nat.zero_le 1, nofun, by simp, by simp⟩
  · obtain rfl := finds compiler found
    rw [ran]
    have files : (request.forFile path).settled.isLiteral = false := rfl
    rw [files, if_neg Bool.false_ne_true] at ended
    let handover : Handover compiler (request.forFile path).settled layout path start _ :=
      handoverText names isMarkup rfl files spares held noReturn
    have hands := handover.buildFiles_tells tools (request.forFile path).settled.mode.name
    cases result with
    | ok outcome =>
      obtain ⟨report, -, tells⟩ := hands.answered rfl ended
      obtain ⟨calls, others, since, length, all, aside⟩ := tells.session.1
      have once : calls.length = 1 := by simpa [timesOf, isMarkup, Dialect.isCompiled] using length
      exact ⟨calls, others, since, once.le, fun _ => once, all, aside⟩
    | error fault =>
      obtain ⟨times, most, calls, others, since, rfl, all, aside⟩ := hands.refused rfl ended
      exact ⟨calls, others, since, most, nofun, all, aside⟩

end

/-- All calls for texts in place of one path are made with the same options, but for the name of the copy of the
configuration. -/
theorem exists_options (program : String) (layout : Layout) (request : Request) (content : Option Text.Bytes)
    (path : Path) : ∃ options : CompilerOptions, ∀ text call,
      HandsText program layout request content path text call →
        ∃ copy, call.1 = Compiler.textCall program { options with tsconfig := some copy } path
          (layout.destination path) text path.parent := by
  by_cases chooses : ∃ copy options, CompilerOptions.Chosen request content copy options
  · obtain ⟨copy, options, chosen⟩ := chooses
    refine ⟨options, ?_⟩
    rintro text call ⟨another, others, tree, also⟩
    have same : others = { options with tsconfig := some another } := by
      have unique := congrArg (fun options => { options with tsconfig := some another }) (also.unique chosen)
      rwa [← also.tsconfig] at unique ⊢
    exact ⟨another, by rw [← same]⟩
  · refine ⟨⟨"", .esm, false, false, false, [], [], "", none, none, [], "", ""⟩, ?_⟩
    rintro text call ⟨copy, options, tree, chosen⟩
    exact absurd ⟨_, _, chosen⟩ chooses

/-- A module with markup in a file, and a text that is given for its path: where the file holds this text, a
build of either calls the compiler once, unless it fails before that, and both calls are the same but for what is
handed over and for the name of the copy of the configuration. The text that is given is handed over as it is,
without the imports that markup needs, and the text of the file behind them. -/
theorem run_text_without_imports (tools : Toolchain) (request : Request) (layout : Layout) (start : Session)
    {path : Path} {place text : String} (names : Names start.tree path)
    (isMarkup : Dialect.ofPath path = .templatedUi) (resolves : layout.resolve (Path.ofString place) = path)
    (held : start.tree.read path = .ok (Text.Utf8.encode text)) (noReturn : '\r' ∉ text.toList)
    (spares : SparesReading layout path start) :
    ∃ (program : String) (options : CompilerOptions) (given read others : List (Invocation × Tree)),
      (Since start given (run tools (request.forText place text) layout start).2 ∧ given.length ≤ 1 ∧
        ((run tools (request.forText place text) layout start).1.isOk → given.length = 1) ∧
        ∀ call ∈ given, ∃ copy, call.1 = Compiler.textCall program { options with tsconfig := some copy } path
          (layout.destination path) text path.parent) ∧
      Since start (read ++ others) (run tools (request.forFile path) layout start).2 ∧ read.length ≤ 1 ∧
        ((run tools (request.forFile path) layout start).1.isOk → read.length = 1) ∧
        (∀ call ∈ read, ∃ copy, call.1 = Compiler.textCall program { options with tsconfig := some copy } path
          (layout.destination path) (Compiler.withPreamble text) path.parent) ∧
        ∀ call ∈ others, Auxiliary.Calls layout call.1 := by
  obtain ⟨program, finds⟩ : ∃ program, ∀ compiler, Compiler.ofLayout tools layout none start = (.ok compiler, start) →
      compiler.program = program := by
    rcases looked : Compiler.ofLayout tools layout none start with ⟨fault | compiler, after⟩
    · exact ⟨"", nofun⟩
    · refine ⟨compiler.program, fun other same => ?_⟩
      cases same
      rfl
  obtain ⟨options, same⟩ := exists_options program layout (request.forFile path).settled
    (start.tree.read layout.descriptor).toOption path
  obtain ⟨given, sinceText, mostText, onceText, fromText⟩ :=
    @run_forText_hands request layout path start place text tools program finds resolves names.nonempty spares _ held
  obtain ⟨read, others, sinceFile, mostFile, onceFile, fromFile, aside⟩ :=
    @run_forFile_hands request layout path start text tools program finds names isMarkup spares held noReturn
  exact ⟨program, options, given, read, others,
    ⟨sinceText, mostText, onceText, fun call member => same text call (fromText call member).forFile⟩,
    sinceFile, mostFile, onceFile, fun call member => same _ call (fromFile call member), aside⟩

/-- A project with a module with markup. -/
def badgeSession : Session where
  tree := ⟨[(["p"], .directory), (["p", "src"], .directory),
    (["p", "src", "badge.tsx"], .file (Text.Utf8.encode "let badge") false), (["t"], .directory)]⟩
  environment := []
  directory := ⟨.root, ["p"]⟩
  temporary := ⟨.root, ["t"]⟩
  clock := 1

/-- Where that project is. -/
def badgeLayout : Layout := .ofRoot ⟨.root, ["p"]⟩

/-- The path of the module. -/
def badgePath : Path := ⟨.root, ["p", "src", "badge.tsx"]⟩

/-- A request that stops once the output can be run. -/
def badgeRequest : Request := { runtimeOnly := true }

/-- The project with the badge is a regular tree. -/
theorem badgeSession_isRegular : badgeSession.tree.IsRegular := Tree.isRegular_of_entries (by decide +kernel)

/-- The path of the badge names a file of that project. -/
theorem badgeSession_names : Names badgeSession.tree badgePath where
  rooted := rfl
  plain := by decide
  literal := by decide +kernel
  unlinked := badgeSession_isRegular.linkless.unlinked [] _
  isFile := ok_of_toOption (by decide +kernel)

/-- Both builds hand over one text, and the one of the file comes to its end. -/
theorem badge_inputs :
    (run plainCompiler.toolchain (badgeRequest.forText "src/badge.tsx" "let badge") badgeLayout
      badgeSession).2.invocations.map (fun call => call.1.input) = [some "let badge"] ∧
    (run plainCompiler.toolchain (badgeRequest.forFile badgePath) badgeLayout
      badgeSession).2.invocations.map (fun call => call.1.input) =
        [some "import React from \"react\";\nimport ReactDOM from \"react-dom\";\nlet badge"] ∧
    (run plainCompiler.toolchain (badgeRequest.forFile badgePath) badgeLayout badgeSession).1.isOk := by
  decide +kernel

/-- The text of the module is given for its path, and read from its file: the calls are the same but for the
imports, and for the name of the copy of the configuration. -/
theorem run_text_without_imports_of_badge : ∃ (program : String) (options : CompilerOptions) (copy other : Path),
    (run plainCompiler.toolchain (badgeRequest.forText "src/badge.tsx" "let badge") badgeLayout
      badgeSession).2.invocations.map Prod.fst =
        [Compiler.textCall program { options with tsconfig := some copy } badgePath
          (badgeLayout.destination badgePath) "let badge" badgePath.parent] ∧
    (run plainCompiler.toolchain (badgeRequest.forFile badgePath) badgeLayout
      badgeSession).2.invocations.map Prod.fst =
        [Compiler.textCall program { options with tsconfig := some other } badgePath
          (badgeLayout.destination badgePath) (Compiler.withPreamble "let badge") badgePath.parent] := by
  obtain ⟨inputText, inputFile, ends⟩ := badge_inputs
  have onlyText := congrArg List.length inputText
  have onlyFile := congrArg List.length inputFile
  simp only [List.length_map, List.length_cons, List.length_nil] at onlyText onlyFile
  have placed : badgeLayout.IsPlaced := (Layout.isPlaced_ofRoot rfl (by decide)).1
  obtain ⟨program, options, given, read, others, ⟨sinceText, -, -, fromText⟩, sinceFile, -, onceFile, fromFile, -⟩ :=
    @run_text_without_imports plainCompiler.toolchain badgeRequest badgeLayout badgeSession badgePath "src/badge.tsx"
      "let badge" badgeSession_names (by decide +kernel) (by decide +kernel) (ok_of_toOption (by decide +kernel))
      (by decide) (sparesReading_of_regular placed badgeSession_isRegular (by decide) rfl (by decide)
        (by decide +kernel))
  rw [sinceText.calls] at onlyText
  rw [sinceFile.calls] at onlyFile
  have nothing : badgeSession.invocations = [] := rfl
  rw [nothing, List.nil_append] at onlyText onlyFile
  rw [List.length_append, onceFile ends] at onlyFile
  obtain ⟨call, rfl⟩ := List.length_eq_one_iff.mp onlyText
  obtain ⟨second, rfl⟩ := List.length_eq_one_iff.mp (onceFile ends)
  obtain rfl : others = [] := List.length_eq_zero_iff.mp (by omega)
  obtain ⟨copy, same⟩ := fromText call (by simp)
  obtain ⟨other, sameFile⟩ := fromFile second (by simp)
  refine ⟨program, options, copy, other, ?_, ?_⟩
  · simp [sinceText.calls, nothing, same]
  · simp [sinceFile.calls, nothing, sameFile]

/-- What is handed over for the module is not the same if its text is given: the imports are missing. -/
theorem run_text_lacks_imports :
    (run plainCompiler.toolchain (badgeRequest.forText "src/badge.tsx" "let badge") badgeLayout
      badgeSession).2.invocations.map (fun call => call.1.input) = [some "let badge"] ∧
    (run plainCompiler.toolchain (badgeRequest.forFile badgePath) badgeLayout
      badgeSession).2.invocations.map (fun call => call.1.input) =
        [some "import React from \"react\";\nimport ReactDOM from \"react-dom\";\nlet badge"] :=
  ⟨badge_inputs.1, badge_inputs.2.1⟩

end Build

end TreeBuild
