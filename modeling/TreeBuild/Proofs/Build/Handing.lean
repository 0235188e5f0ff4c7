import TreeBuild.Proofs.Build.Passage
import TreeBuild.Proofs.Build.Single
import TreeBuild.Proofs.Build.Steps

/-!
# What a build of one path hands to the compiler

A path that is written out names one source: the file that is there, wherever links lead elsewhere, and
also the path itself if clearing its destination has removed it. So of all that a build of such a path calls
the compiler for, this source is the only one, and the report lists its destination and no other. Tools
that are called later, for styles, executables and declarations, are none of the compiler.

All this holds of every tree and of every toolchain, and also of builds that fail.
-/
namespace TreeBuild

/-- A call of one of the tools that are not the compiler. -/
def Auxiliary.Calls (layout : Layout) (invocation : Invocation) : Prop :=
  ∃ name ∈ ["tailwindcss", "pkg", "tsc"], ∃ session program arguments,
    Tools.resolve session (some layout.root) name = .ok program ∧ invocation.command = program :: arguments

/-- A call, made in this session, of one of the tools that are not the compiler. -/
def Auxiliary.CallsIn (session : Session) (layout : Layout) (invocation : Invocation) : Prop :=
  ∃ name ∈ ["tailwindcss", "pkg", "tsc"], ∃ program arguments,
    Tools.resolve session (some layout.root) name = .ok program ∧ invocation.command = program :: arguments

/-- What was called in a session is a call of one of the tools that are not the compiler. -/
theorem Auxiliary.CallsIn.calls {session : Session} {layout : Layout} {invocation : Invocation}
    (called : CallsIn session layout invocation) : Calls layout invocation := by
  obtain ⟨name, other, program, arguments, resolved, same⟩ := called
  exact ⟨name, other, session, program, arguments, resolved, same⟩

namespace Build

/-- A call, in a tree, that hands a source over to the compiler and no other one: its path is given if it is
plain, and otherwise its text, for its own destination. -/
inductive Hands (program : String) (layout : Layout) (path : Path) : Invocation × Tree → Prop where
  | plain (options : CompilerOptions) (tree : Tree) (isPlain : Dialect.ofPath path = .plain) :
      Hands program layout path (Compiler.filesCall program layout options [path], tree)
  | markup (options : CompilerOptions) (text : String) (directory : Path) (tree : Tree)
      (isMarkup : Dialect.ofPath path = .templatedUi) (read : Session.textAt tree path = .ok text) :
      Hands program layout path (Compiler.textCall program options path (layout.destination path)
        (Compiler.withPreamble text) directory, tree)

/-- A session of a build in which these calls have been made since the start. -/
structure Since (start : Session) (calls : List (Invocation × Tree)) (session : Session) : Prop where
  calls : session.invocations = start.invocations ++ calls
  environment : session.environment = start.environment

/-- Which calls were made since the start does not depend on the tree, the log or the clock. -/
theorem Since.quiet {start : Session} {calls : List (Invocation × Tree)} : Quiet (Since start calls) :=
  fun _ _ _ _ since => ⟨since.calls, since.environment⟩

/-- A session of a build in which this many calls have been made since the start, all of them like this. -/
def Made (good : Invocation × Tree → Prop) (start : Session) (times : Nat) (session : Session) : Prop :=
  ∃ calls, Since start calls session ∧ calls.length = times ∧ ∀ call ∈ calls, good call

/-- How often such a call was made since the start does not depend on the tree, the log or the clock. -/
theorem Made.quiet {good : Invocation × Tree → Prop} {start : Session} {times : Nat} :
    Quiet (Made good start times) :=
  fun session tree clock journal ⟨calls, since, rest⟩ =>
    ⟨calls, since.quiet session tree clock journal, rest⟩

/-- At most one call has been made since the start, and it is like this. -/
def MadeAtMost (good : Invocation × Tree → Prop) (start session : Session) : Prop :=
  ∃ times ≤ 1, Made good start times session

/-- That at most one call was made does not depend on the tree, the log or the clock. -/
theorem MadeAtMost.quiet {good : Invocation × Tree → Prop} {start : Session} : Quiet (MadeAtMost good start) :=
  fun session tree clock journal ⟨times, most, made⟩ => ⟨times, most, made.quiet session tree clock journal⟩

/-- Where nothing has been called, no such call was made. -/
theorem Since.made {good : Invocation × Tree → Prop} {start session : Session} (since : Since start [] session) :
    Made good start 0 session :=
  ⟨[], since, rfl, by simp⟩

/-- Where nothing has been called, at most one call was made. -/
theorem Since.atMost {good : Invocation × Tree → Prop} {start session : Session} (since : Since start [] session) :
    MadeAtMost good start session :=
  ⟨0, Nat.zero_le 1, since.made⟩

/-- A session of a build in which the source of a path was handed over this often. -/
def Handed (program : String) (layout : Layout) (path : Path) (start : Session) (times : Nat)
    (session : Session) : Prop :=
  ∃ calls, Since start calls session ∧ calls.length = times ∧ ∀ call ∈ calls, Hands program layout path call

/-- How often a source is handed over. -/
def timesOf (path : Path) : Nat := if (Dialect.ofPath path).isCompiled then 1 else 0

/-- A source is handed over at most once. -/
theorem timesOf_le (path : Path) : timesOf path ≤ 1 := by
  unfold timesOf
  split <;> omega

/-- A path names a file of a tree: it is written by names from the root in which every character stands
for itself, the file is there, and no link is met on the way to it. -/
structure Names (tree : Tree) (path : Path) : Prop where
  rooted : path.anchor = .root
  plain : path.IsPlain
  literal : Glob.hasMagic path.toString = false
  unlinked : tree.Unlinked [] path.parts
  isFile : tree.isFile path = .ok true

namespace Names

variable {tree : Tree} {path : Path} {layout : Layout} (names : Names tree path)

include names

/-- A path that names a file is absolute. -/
theorem absolute : path.isAbsolute := by simp [Path.isAbsolute, names.rooted]

/-- The root is no path of a file. -/
theorem nonempty : path.parts ≠ [] := by
  intro empty
  obtain ⟨content, executable, status⟩ := Tree.isFile_iff.mp names.isFile
  obtain ⟨-, -, here⟩ := (Tree.status_iff names.plain names.unlinked).mp status
  rw [empty, Tree.get?_nil] at here
  cases here

/-- The search finds the one source that a path stands for. -/
theorem discover : Sources.discover tree layout path.toString = .ok [SourceFile.ofPath layout path] :=
  Sources.discover_of_unlinked names.unlinked names.rooted names.plain names.nonempty names.literal names.isFile

/-- The path still names this source once a file or a link is gone, even if it was the file itself. -/
theorem discover_erase {location : Location} (notDirectory : tree.get? location ≠ some .directory) :
    Sources.discover (tree.erase location) layout path.toString = .ok [SourceFile.ofPath layout path] := by
  have inside : location ≠ [] := by
    rintro rfl
    exact notDirectory rfl
  have same {other : Location} (different : other ≠ location) :
      (tree.erase location).get? other = tree.get? other := Tree.get?_erase_of_ne tree different
  have unlinked : (tree.erase location).Unlinked [] path.parts := by
    intro front before target link
    by_cases here : Location.follow [] front = location
    · rw [here, Tree.get?_erase_self tree inside] at link
      cases link
    · exact names.unlinked front before target (same here ▸ link)
  by_cases gone : path.parts = location
  · refine Sources.discover_of_absent unlinked names.rooted names.plain names.nonempty names.literal ?_
    rw [gone, Tree.get?_erase_self tree inside]
  · obtain ⟨content, executable, status⟩ := Tree.isFile_iff.mp names.isFile
    obtain ⟨fits, reaches, here⟩ := (Tree.status_iff names.plain names.unlinked).mp status
    refine Sources.discover_of_unlinked unlinked names.rooted names.plain names.nonempty names.literal
      (Tree.isFile_iff.mpr ⟨content, executable, (Tree.status_iff names.plain unlinked).mpr ⟨fits, ?_, ?_⟩⟩)
    · intro above before other
      have directory := reaches above before other
      have different : above ≠ location := by
        rintro rfl
        exact notDirectory (by simpa [Tree.isDirectoryAt] using directory)
      simpa [Tree.isDirectoryAt, same different] using directory
    · rw [same gone, here]

end Names

/-- A session of a build, before any call, in which a path stands for the source at it. -/
structure StillNames (layout : Layout) (path : Path) (start session : Session) : Prop where
  found : Sources.discover session.tree layout path.toString = .ok [SourceFile.ofPath layout path]
  since : Since start [] session

/-! ### Single files -/

section

variable {compiler : Compiler} {options : CompilerOptions} {layout : Layout} {path : Path} {start : Session}
  {file : SourceFile}

/-- A single action by itself fails if it is interrupted, and otherwise tells how it ended. -/
theorem settle_apply {Answer : Type} (action : Action Answer) (session : Session) :
    Action.settle [action] session =
      match action session with
      | (.error .interrupted, final) => (.error .interrupted, final)
      | (result, final) => (.ok [result], final) := by
  unfold Action.settle Action.attempt
  rw [bind_apply]
  rcases action session with ⟨fault | answer, final⟩
  · cases fault <;> rfl
  · rfl

/-- A plain file is compiled alone by the call for plain files. -/
theorem compile_plain (isPlain : file.dialect = .plain) :
    compile compiler options layout [file] = compilePlain compiler options layout [file] := by
  have plain : Sources.ofDialect .plain [file] = [file] := by simp [Sources.ofDialect, isPlain]
  have markup : Sources.ofDialect .templatedUi [file] = [] := by simp [Sources.ofDialect, isPlain]
  funext session
  unfold compile
  rw [plain, markup, bind_apply, settle_apply]
  rcases compilePlain compiler options layout [file] session with ⟨fault | outputs, final⟩
  · cases fault <;> rfl
  · have told : verdict [] ((Action.allOrFirst [Except.ok outputs]).map List.flatten) = .ok outputs := by
      simp [verdict, Action.allOrFirst, Except.map, bind, Except.bind, pure, Except.pure]
    have empty : Action.settle [] final = (.ok ([] : List (Except Fault Path)), final) := rfl
    dsimp only
    rw [List.map_nil, bind_apply, empty]
    dsimp only
    rw [told]
    rfl

/-- A file with markup is compiled alone by a call of its own. -/
theorem compile_markup (isMarkup : file.dialect = .templatedUi) :
    compile compiler options layout [file] = (do
      let output ← compileMarkup compiler options layout file
      return [output]) := by
  have plain : Sources.ofDialect .plain [file] = [] := by simp [Sources.ofDialect, isMarkup]
  have markup : Sources.ofDialect .templatedUi [file] = [file] := by simp [Sources.ofDialect, isMarkup]
  have nothing (session : Session) : compilePlain compiler options layout [] session = (.ok [], session) := rfl
  funext session
  unfold compile
  rw [plain, markup, bind_apply, settle_apply, nothing]
  dsimp only
  rw [List.map_singleton, bind_apply, settle_apply, bind_apply]
  rcases compileMarkup compiler options layout file session with ⟨fault | output, final⟩
  · cases fault <;> rfl
  · rfl

/-- What is no module is not compiled. -/
theorem compile_other (copied : file.dialect.isCompiled = false) :
    compile compiler options layout [file] = pure [] := by
  have plain : Sources.ofDialect .plain [file] = [] := by
    cases dialect : file.dialect <;> simp_all [Sources.ofDialect, Dialect.isCompiled]
  have markup : Sources.ofDialect .templatedUi [file] = [] := by
    cases dialect : file.dialect <;> simp_all [Sources.ofDialect, Dialect.isCompiled]
  funext session
  unfold compile
  rw [plain, markup]
  rfl

/-- A run of the compiler makes one call. -/
theorem run_calls {good : Invocation × Tree → Prop} (arguments : List String) (input : Option String)
    (directory : Path) {tree : Tree} (isGood : good (⟨compiler.program :: arguments, directory, input⟩, tree)) :
    Ends (fun session => session.tree = tree ∧ Since start [] session)
      (compiler.run arguments input directory) (fun _ => Made good start 1) (MadeAtMost good start) := by
  have called (session : Session) (after : Tree) (same : session.tree = tree) (since : Since start [] session) :
      Made good start 1 (session.called ⟨compiler.program :: arguments, directory, input⟩ after) := by
    refine ⟨[(⟨compiler.program :: arguments, directory, input⟩, tree)], ⟨?_, since.environment⟩, rfl, ?_⟩
    · have before := since.calls
      rw [List.append_nil] at before
      simp [Session.called, before, same]
    · simpa using isGood
  exact Compiler.run_ends compiler arguments input directory (fun _ => Made.quiet.silent)
    (fun session _ _ after told _ => called session after told.1 told.2)
    fun session _ after told _ => ⟨1, Nat.le_refl 1, called session after told.1 told.2⟩

/-- The compilation of a single file hands over this file if it is a module, and nothing else. -/
theorem compile_hands :
    Ends (Since start []) (compile compiler options layout [SourceFile.ofPath layout path])
      (fun outputs session =>
        outputs = (if (Dialect.ofPath path).isCompiled then [layout.destination path] else []) ∧
          Made (Hands compiler.program layout path) start (timesOf path) session)
      (MadeAtMost (Hands compiler.program layout path) start) := by
  cases dialect : Dialect.ofPath path with
  | plain =>
    rw [compile_plain dialect]
    unfold compilePlain Compiler.buildEntryPoints
    refine Ends.bind (Ends.of_forall fun session since => Ends.discard ?_) fun _ =>
      .pure fun session made =>
        ⟨by simp [Dialect.isCompiled], by simpa [timesOf, dialect, Dialect.isCompiled] using made⟩
    refine (run_calls _ _ _ (.plain options session.tree dialect)).mono ?_ (fun _ _ made => made)
      fun _ made => made
    rintro _ rfl
    exact ⟨rfl, since⟩
  | templatedUi =>
    rw [compile_markup dialect]
    unfold compileMarkup Compiler.buildBuffer
    refine Ends.through (fun output session => output = layout.destination path ∧
      Made (Hands compiler.program layout path) start 1 session) ?_ fun output => .pure fun session told =>
        ⟨by simp [told.1, Dialect.isCompiled], by simpa [timesOf, dialect, Dialect.isCompiled] using told.2⟩
    refine ((Ends.readText_textAt path).mono (fun _ since => since) (fun _ _ told => told)
      fun session since => since.atMost).bind fun text => Ends.of_forall fun session told => ?_
    refine Ends.through (fun _ => Made (Hands compiler.program layout path) start 1) ?_
      fun _ => .pure fun _ made => ⟨rfl, made⟩
    refine ((Keeps.askFiles _).mono (fun _ same => same) (fun _ _ same => same)
      fun other same => Since.atMost (same ▸ told.2)).bind fun present => Ends.discard ?_
    refine (run_calls _ _ _ (.markup options text _ session.tree dialect told.1)).mono ?_
      (fun _ _ made => made) fun _ made => made
    rintro _ rfl
    exact ⟨rfl, told.2⟩
  | asset =>
    rw [compile_other (by simp [dialect, Dialect.isCompiled])]
    exact .pure fun session since => ⟨by simp [Dialect.isCompiled], by
      simpa [timesOf, dialect, Dialect.isCompiled] using since.made⟩
  | declaration =>
    rw [compile_other (by simp [dialect, Dialect.isCompiled])]
    exact .pure fun session since => ⟨by simp [Dialect.isCompiled], by
      simpa [timesOf, dialect, Dialect.isCompiled] using since.made⟩

/-- Removing any file leaves nothing else to be found in place of the path. -/
theorem invalidate_discovers (names : Names start.tree path) (destination : Path) :
    Ends (· = start) (Output.invalidate destination)
      (fun _ => StillNames layout path start) (Since start []) := by
  have unchanged : Since start [] start := ⟨(List.append_nil _).symm, rfl⟩
  unfold Output.invalidate
  refine Ends.get.bind fun now => Ends.of_forall fun session ⟨same, atStart⟩ => ?_
  subst same
  subst atStart
  split
  · rename_i after removed
    obtain ⟨location, entry, -, present, notDirectory, rfl⟩ := Tree.unlink_cases removed
    have free : now.tree.get? location ≠ some .directory := by
      rw [present]
      exact fun same => notDirectory (Option.some.inj same)
    refine (Ends.modify (StillNames layout path now) ?_).bind fun _ => .pure fun _ told => told
    rintro _ rfl
    exact ⟨names.discover_erase free, unchanged.calls, rfl⟩
  · refine .pure fun session same => ?_
    subst same
    exact ⟨names.discover, unchanged⟩
  · refine .throw fun session same => ?_
    subst same
    exact unchanged

/-- Clearing the destination of a path leaves nothing else to be found in its place. -/
theorem clear_discovers {request : Request} (names : Names start.tree path)
    (given : request.input = .proper path.toString) (files : request.isLiteral = false) :
    Ends (· = start) (clear request layout)
      (fun _ => StillNames layout path start) (Since start []) := by
  rw [clear_of_path names.absolute names.plain.proper given files]
  split
  · exact Ends.discard (invalidate_discovers names _)
  · refine .pure fun session same => ?_
    subst same
    exact ⟨names.discover, (List.append_nil _).symm, rfl⟩

/-- The assets that a single file comes to. -/
def assetsOf (layout : Layout) (path : Path) : List Path :=
  if Dialect.ofPath path = .asset then [layout.destination path] else []

/-- An asset is copied alone to its destination, and nothing is copied in place of anything else. -/
theorem copyAssets_alone {before after : Session → Prop}
    (copies : Dialect.ofPath path = .asset →
      Ends before (Output.copyAsset layout (SourceFile.ofPath layout path)) (fun _ => after) fun _ => True)
    (spares : Dialect.ofPath path ≠ .asset → ∀ session, before session → after session) :
    Ends before (Output.copyAssets (Sources.ofDialect .asset [SourceFile.ofPath layout path]) layout)
      (fun outputs session => outputs = assetsOf layout path ∧ after session) (fun _ => True) := by
  refine copyAssets_answers ?_
  by_cases asset : Dialect.ofPath path = .asset
  · have only : Sources.ofDialect .asset [SourceFile.ofPath layout path] =
        [SourceFile.ofPath layout path] := by simp [Sources.ofDialect, asset]
    rw [only, List.map_singleton, assetsOf, if_pos asset]
    have both : Ends before (Output.copyAsset layout (SourceFile.ofPath layout path))
        (fun output session => output = layout.destination path ∧ after session) (fun _ => True) :=
      (copyAsset_answers.and (copies asset)).mono (fun _ start => ⟨start, start⟩) (fun _ _ known => known)
        fun _ _ => trivial
    refine (Ends.all_singleton both).mono (fun _ start => start) ?_ fun _ _ => trivial
    rintro outputs session ⟨output, rfl, rfl, holds⟩
    exact ⟨rfl, holds⟩
  · have none : Sources.ofDialect .asset [SourceFile.ofPath layout path] = [] := by
      simp [Sources.ofDialect, asset]
    rw [none, List.map_nil, assetsOf, if_neg asset]
    exact .pure fun session start => ⟨rfl, spares asset session start⟩

end

/-! ### The stages of a build -/

section

variable {tools : Toolchain} {compiler : Compiler} {request : Request} {layout : Layout} {path : Path}
  {start : Session}

/-- What the report of a build of one path says once all that has to succeed has done so. -/
def tallyOf (layout : Layout) (path : Path) : Tally where
  compiled := if (Dialect.ofPath path).isCompiled then [layout.destination path] else []
  copied := assetsOf layout path
  declarations := if Dialect.ofPath path = .declaration then 1 else 0

/-- That a path still names its source does not depend on the log. -/
theorem StillNames.silent : Silent (StillNames layout path start) :=
  fun _ _ still => ⟨still.found, still.since.calls, still.since.environment⟩

/-- To differ only in the log is a property that no record of the log changes. -/
theorem Relogs.silent : Silent (Relogs start) := fun _ journal relogs => relogs.log journal

/-- The sources that are found are the one that the path stands for. -/
theorem discoverInput_finds (given : request.input = .proper path.toString) :
    Ends (StillNames layout path start) (discoverInput request layout)
      (fun files session => files = [SourceFile.ofPath layout path] ∧ Since start [] session)
      (Since start []) := by
  refine (Ends.ask _).mono (fun _ still => still) (fun files session told => ⟨?_, told.2.since⟩)
    fun _ told => told.2.since
  obtain ⟨-, -, answer⟩ := exists_of_bind_eq_ok told.1
  rw [given] at answer
  exact Except.ok.inj (answer.symm.trans told.2.found)

/-- Clearing the destination of a path, in the session of the start but for the log. -/
theorem clear_stillNames (names : Names start.tree path) (given : request.input = .proper path.toString)
    (files : request.isLiteral = false) :
    Ends (Relogs start) (clear request layout) (fun _ => StillNames layout path start) (Since start []) := by
  refine Ends.of_forall fun session relogs => ?_
  obtain ⟨journal, rfl⟩ := relogs
  have ends : Ends (· = ({ start with journal } : Session)) (clear request layout)
      (fun _ => StillNames layout path { start with journal }) (Since { start with journal } []) :=
    clear_discovers names given files
  exact ends.mono (fun _ same => same)
    (fun _ session still => ⟨still.found, still.since.calls, still.since.environment⟩)
    fun session since => ⟨since.calls, since.environment⟩

/-- The assets of a build of one path are copied, and no call is made for it. -/
theorem copyAssets_lists {good : Invocation × Tree → Prop} :
    Ends (Made good start (timesOf path))
      (Output.copyAssets (Sources.ofDialect .asset [SourceFile.ofPath layout path]) layout)
      (fun outputs session => outputs = assetsOf layout path ∧ Made good start (timesOf path) session)
      (MadeAtMost good start) :=
  ((copyAssets_alone (fun _ => Ends.any _) fun _ _ _ => trivial).and
    (Made.quiet.copyAssets _ layout)).mono (fun _ made => ⟨made, made⟩)
    (fun _ _ told => ⟨told.1.1, told.2⟩) fun _ left => ⟨_, timesOf_le path, left.2⟩

/-- What is known of a build of one path up to the only call for its source: when the destination is cleared,
when the source is found, when there is a copy of the configuration, and when the options are chosen. The call
is then like this. -/
structure Handover (compiler : Compiler) (request : Request) (layout : Layout) (path : Path) (start : Session)
    (good : Invocation × Tree → Prop) where
  cleared : Session → Prop
  found : Session → Prop
  equipped : Path → Session → Prop
  chosen : Path → CompilerOptions → Session → Prop
  clears : Ends (Relogs start) (clear request layout) (fun _ => cleared) (Since start [])
  discovers : Ends cleared (discoverInput request layout)
    (fun files session => files = [SourceFile.ofPath layout path] ∧ found session) (Since start [])
  copies : Ends found (copyConfiguration request layout) equipped (Since start [])
  chooses : ∀ copy, Ends (equipped copy) (CompilerOptions.ofRequest request layout (some copy)) (chosen copy)
    (Since start [])
  compiles : ∀ copy options, Ends (chosen copy options)
    (compile compiler options layout [SourceFile.ofPath layout path])
    (fun outputs session => outputs = (tallyOf layout path).compiled ∧ Made good start (timesOf path) session)
    (MadeAtMost good start)
  silentCleared : Silent cleared
  silentFound : Silent found
  silentChosen : ∀ copy options, Silent (chosen copy options)

/-- What holds between the actions of a build of one path: its source is found, then it is handed over if it
is compiled, and then copied if it is an asset. -/
def Handover.passage {good : Invocation × Tree → Prop}
    (handover : Handover compiler request layout path start good) :
    Passage compiler request layout (Relogs start) (MadeAtMost good start) where
  cleared := handover.cleared
  found found session := found = [SourceFile.ofPath layout path] ∧ handover.found session
  copied found copy session := found = [SourceFile.ofPath layout path] ∧ handover.equipped copy session
  chosen found copy options session := found = [SourceFile.ofPath layout path] ∧
    handover.chosen copy options session
  compiled found _ outputs session := found = [SourceFile.ofPath layout path] ∧
    outputs = (tallyOf layout path).compiled ∧ Made good start (timesOf path) session
  emitted found outputs session := found = [SourceFile.ofPath layout path] ∧
    outputs = (tallyOf layout path).compiled ∧ Made good start (timesOf path) session
  complete found outputs assets session := found = [SourceFile.ofPath layout path] ∧
    outputs = (tallyOf layout path).compiled ∧ assets = assetsOf layout path ∧
      Made good start (timesOf path) session
  clears := handover.clears.mono (fun _ relogs => relogs) (fun _ _ cleared => cleared) fun _ since => since.atMost
  discovers := handover.discovers.mono (fun _ cleared => cleared) (fun _ _ told => told) fun _ since => since.atMost
  copies _ := Ends.of_and fun same => handover.copies.mono (fun _ found => found)
    (fun _ _ equipped => ⟨same, equipped⟩) fun _ since => since.atMost
  chooses _ copy := Ends.of_and fun same => (handover.chooses copy).mono (fun _ equipped => equipped)
    (fun _ _ chosen => ⟨same, chosen⟩) fun _ since => since.atMost
  compiles _ copy options := Ends.of_and fun same => by
    subst same
    exact (handover.compiles copy options).mono (fun _ chosen => chosen) (fun _ _ told => ⟨rfl, told⟩)
      fun _ left => left
  removes _ copy _ := Ends.of_and fun same => Ends.of_and fun outputs =>
    (Made.quiet.removeCopy copy).mono (fun _ made => made) (fun _ _ made => ⟨same, outputs, made⟩)
      fun _ made => ⟨_, timesOf_le path, made⟩
  cleans := MadeAtMost.quiet.removeCopy
  copiesAssets _ _ := Ends.of_and fun same => Ends.of_and fun outputs => by
    subst same
    exact copyAssets_lists.mono (fun _ made => made) (fun _ _ told => ⟨rfl, outputs, told⟩) fun _ left => left
  fails _ _ _ _ told := ⟨_, timesOf_le path, told.2.2.2⟩
  silentStart := Relogs.silent
  silentCleared := handover.silentCleared
  silentFound _ session journal told := ⟨told.1, handover.silentFound session journal told.2⟩
  silentChosen _ copy options session journal told :=
    ⟨told.1, handover.silentChosen copy options session journal told.2⟩
  silentCompiled _ _ _ session journal told :=
    ⟨told.1, told.2.1, Made.quiet.silent session journal told.2.2⟩
  silentEmitted _ _ session journal told := ⟨told.1, told.2.1, Made.quiet.silent session journal told.2.2⟩
  quietComplete _ _ _ session tree clock journal told :=
    ⟨told.1, told.2.1, told.2.2.1, Made.quiet session tree clock journal told.2.2.2⟩
  silentFailed := MadeAtMost.quiet.silent

/-- A build of one path, as far as all has to succeed, hands over the source of this path if it is compiled,
copies it if it is an asset, and otherwise counts it as a declaration. -/
theorem Handover.requiredStages_tells {good : Invocation × Tree → Prop}
    (handover : Handover compiler request layout path start good) :
    Ends (Tells {} (Relogs start)) (requiredStages compiler request layout)
      (fun _ => Tells (tallyOf layout path) (Made good start (timesOf path)))
      (fun state => MadeAtMost good start state.session) := by
  have counted : (Sources.ofDialect .declaration [SourceFile.ofPath layout path]).length =
      (tallyOf layout path).declarations := by
    by_cases declares : Dialect.ofPath path = .declaration <;>
      simp [Sources.ofDialect, tallyOf, declares]
  refine handover.passage.requiredStages_tells.mono (fun _ told => told) ?_ fun _ left => left
  rintro _ state ⟨found, outputs, assets, tally, rfl, rfl, rfl, made⟩
  exact ⟨tally.trans (by rw [counted]; rfl), made⟩

/-- The source that a path stands for is handed over, whatever the options are. -/
def handoverAlone (compiler : Compiler) (names : Names start.tree path)
    (given : request.input = .proper path.toString) (files : request.isLiteral = false) :
    Handover compiler request layout path start (Hands compiler.program layout path) where
  cleared := StillNames layout path start
  found := Since start []
  equipped _ := Since start []
  chosen _ _ := Since start []
  clears := clear_stillNames names given files
  discovers := discoverInput_finds given
  copies := Since.quiet.copyConfiguration request layout
  chooses copy := CompilerOptions.ofRequest_keeps request layout (some copy)
  compiles _ _ := compile_hands
  silentCleared := StillNames.silent
  silentFound := Since.quiet.silent
  silentChosen _ _ := Since.quiet.silent

/-- A session of a build in which calls like this were made this often, and only other tools were called after
that. -/
def MadeBefore (layout : Layout) (good : Invocation × Tree → Prop) (start : Session) (times : Nat)
    (session : Session) : Prop :=
  ∃ calls others, Since start (calls ++ others) session ∧ calls.length = times ∧
    (∀ call ∈ calls, good call) ∧ ∀ call ∈ others, Auxiliary.Calls layout call.1

/-- A session of a build in which the source was handed over this often, and only other tools were called
after that. -/
def HandedBefore (program : String) (layout : Layout) (path : Path) (start : Session) (times : Nat)
    (session : Session) : Prop :=
  ∃ calls others, Since start (calls ++ others) session ∧ calls.length = times ∧
    (∀ call ∈ calls, Hands program layout path call) ∧ ∀ call ∈ others, Auxiliary.Calls layout call.1

/-- How often the source was handed over before the other tools were called does not depend on the tree, the log
or the clock. -/
theorem MadeBefore.quiet {good : Invocation × Tree → Prop} {times : Nat} :
    Quiet (MadeBefore layout good start times) :=
  fun session tree clock journal ⟨calls, others, since, rest⟩ =>
    ⟨calls, others, since.quiet session tree clock journal, rest⟩

/-- As long as no other tool was called, all calls were made before. -/
theorem Made.before {good : Invocation × Tree → Prop} {times : Nat} {session : Session}
    (made : Made good start times session) : MadeBefore layout good start times session := by
  obtain ⟨calls, since, length, all⟩ := made
  exact ⟨calls, [], (List.append_nil calls).symm ▸ since, length, all, by simp⟩

/-- A property that the tools behind the compiler leave alone, and what is done for them. -/
structure Endures (tools : Toolchain) (layout : Layout) (property : Session → Prop) : Prop where
  silent : Silent property
  directories : ∀ session path, property session →
    property { session with tree := (session.tree.makeDirectories path).2 }
  call : ∀ (session : Session) (invocation : Invocation),
    Auxiliary.CallsIn session layout invocation → property session → property { session with
      tree := (tools.run invocation session.tree).2
      invocations := session.invocations ++ [(invocation, session.tree)] }

/-- The tools behind the compiler hand over no source. -/
theorem MadeBefore.endures {good : Invocation × Tree → Prop} {times : Nat} :
    Endures tools layout (MadeBefore layout good start times) where
  silent := MadeBefore.quiet.silent
  directories session path := MadeBefore.quiet session _ session.clock session.journal
  call session invocation other := by
    rintro ⟨calls, others, since, length, all, aside⟩
    refine ⟨calls, others ++ [(invocation, session.tree)], ⟨?_, since.environment⟩, length, all, ?_⟩
    · simp [since.calls]
    · intro call member
      rcases List.mem_append.mp member with early | last
      · exact aside call early
      · rw [List.mem_singleton.mp last]
        exact other.calls

section

variable {property : Session → Prop} {tally : Tally}

/-- A tool that is not the compiler is called. -/
theorem runTool_keeps (endures : Endures tools layout property) {name : String}
    (other : name ∈ ["tailwindcss", "pkg", "tsc"]) (arguments : List String) :
    Keeps property (Auxiliary.runTool tools layout name arguments) := by
  unfold Auxiliary.runTool
  have found : Ends property (Tools.find (some layout.root) name)
      (fun found session => Tools.resolve session (some layout.root) name = .ok found ∧
        property session) property := by
    unfold Tools.find
    refine Ends.get.bind fun session => ?_
    split
    · rename_i known resolved
      exact .pure fun _ told => ⟨told.1 ▸ resolved, told.2⟩
    · exact .throw fun _ told => told.2
  refine found.bind fun program => ?_
  refine Ends.through (fun _ => property) (Ends.call fun session told => ?_) fun outcome => ?_
  · exact endures.call session _ ⟨name, other, program, arguments, told.1, rfl⟩ told.2
  · split
    · exact .throw fun _ told => told
    · exact .throw fun _ told => told
    · split
      · exact .pure fun _ told => told
      · exact .throw fun _ told => told

/-- Processing one style sheet makes a directory and calls one tool. -/
theorem buildStylesheet_keeps (endures : Endures tools layout property) (development : Bool) (entry output : Path) :
    Keeps property (Auxiliary.buildStylesheet tools layout development entry output) := by
  unfold Auxiliary.buildStylesheet
  have directories : Keeps property (Action.alterFiles (·.makeDirectories output.parent)) :=
    Ends.alterFiles (fun session holds _ => endures.directories session _ holds)
      fun session holds => endures.directories session _ holds
  refine directories.bind fun _ => ?_
  exact (runTool_keeps endures (by simp) _).discard.bind fun _ => .pure

/-- Where the processed style sheet goes is asked of the descriptor. -/
theorem stylesheetPath_keeps : Keeps property (Auxiliary.stylesheetPath layout) := by
  unfold Auxiliary.stylesheetPath Descriptor.path
  refine Keeps.bind (Descriptor.given?_keeps layout "style") fun given => ?_
  split
  · exact .pure
  · split
    · exact .pure
    · exact .throw

/-- Processing all style sheets is a row of such calls. -/
theorem bundleStyles_keeps (endures : Endures tools layout property) :
    Keeps property (bundleStyles tools request layout) := by
  unfold bundleStyles Auxiliary.buildStyles
  refine (Keeps.ask _).bind fun entry => (Keeps.askFiles _).bind fun present => ?_
  split
  · refine stylesheetPath_keeps.bind fun output => (buildStylesheet_keeps endures _ _ _).bind fun first => ?_
    split
    · refine Keeps.bind ?_ fun sheets => Keeps.bind (Keeps.all fun action member => ?_) fun _ => .pure
      · unfold Auxiliary.emittedStylesheets
        exact (Keeps.askFiles _).bind fun _ => .pure
      · obtain ⟨sheet, -, rfl⟩ := List.mem_map.mp member
        exact buildStylesheet_keeps endures _ _ _
    · exact .pure
  · exact (Keeps.record endures.silent _ _ _).bind fun _ => .pure

/-- Where the program of a package begins is asked of the descriptor. -/
theorem binaryEntry_keeps (layout : Layout) : Keeps property (Auxiliary.binaryEntry layout) := by
  unfold Auxiliary.binaryEntry
  refine (Descriptor.read_keeps layout).bind fun value => ?_
  split
  · exact .throw
  · dsimp only
    split
    · exact .pure
    · split
      · exact .pure
      · exact .throw

/-- Packing the binaries calls one tool. -/
theorem buildBinaries_keeps (endures : Endures tools layout property) (targets : Option String) :
    Keeps property (Auxiliary.buildBinaries tools layout targets) := by
  refine (binaryEntry_keeps layout).bind fun entry => (Keeps.askFiles _).bind fun present => ?_
  split
  · refine (Keeps.record endures.silent _ _ _).bind fun _ => Keeps.get.bind fun session => ?_
    exact (runTool_keeps endures (by simp) _).discard.bind fun _ => .pure
  · exact .throw

/-- Writing the declarations calls one tool. -/
theorem emitDeclarations_keeps (endures : Endures tools layout property) (tsconfig : Path) :
    Keeps property (Auxiliary.emitDeclarations tools layout tsconfig) := by
  unfold Auxiliary.emitDeclarations
  refine (Keeps.askFiles _).bind fun present => ?_
  refine Keeps.bind (runTool_keeps endures (by simp) _).discard fun _ => ?_
  exact (Keeps.askFiles _).bind fun _ => .pure

/-- The stages that need not succeed call tools that are not the compiler. -/
theorem optionalStages_keeps (endures : Endures tools layout property) :
    Keeps (Tells tally property) (optionalStages tools request layout) := by
  have declares (context : List (String × Json)) (texts : StageTexts) :
      Keeps (Tells tally property)
        (discard (Pass.stage context .declarations texts (do
          let tsconfig ← Pass.ofAction (Action.ask fun _ => request.tsconfig.path)
          let emitted ← Pass.ofAction (Auxiliary.emitDeclarations tools layout tsconfig)
          Pass.update fun report => { report with declarationsEmitted := emitted }))) := by
    refine tells_kept_stage endures.silent ?_ context texts
    refine (tells_kept_action (Keeps.ask _)).bind fun tsconfig => ?_
    refine (tells_kept_action (emitDeclarations_keeps endures tsconfig)).bind fun emitted => ?_
    exact tells_update fun _ => ⟨rfl, rfl, rfl⟩
  unfold optionalStages
  dsimp only
  split
  · refine Keeps.bind (tells_kept_stage endures.silent (tells_kept_action (bundleStyles_keeps endures)) _ _) fun _ => ?_
    split
    · exact Keeps.bind (tells_kept_stage endures.silent (tells_kept_action (buildBinaries_keeps endures none)) _ _)
        fun _ => declares _ _
    · exact declares _ _
  · exact declares _ _

end

/-! ### Whole builds -/

/-- A build of files leads from one end to the other if the stages that have to succeed do so, and the other
ones as well unless they are left out. Of the log and the state of the report nothing is asked. -/
theorem buildFiles_leads {before middle after failed : BuildState → Prop}
    (required : Ends before (requiredStages compiler request layout) (fun _ => middle) failed)
    (optional : request.runtimeOnly = false →
      Ends middle (optionalStages tools request layout) (fun _ => after) failed)
    (stops : request.runtimeOnly → ∀ state, middle state → after state)
    (logs : ∀ state journal, before state →
      before { state with session := { state.session with journal } })
    (notes : ∀ state journal stage, after state → after
      { session := { state.session with journal }, report := { state.report with state := stage } }) :
    Ends before (buildFiles tools compiler request layout)
      (fun outcome state => ∃ report, outcome = .report report ∧ after { state with report }) failed := by
  have noted : Ends after (Pass.update fun report => { report with state := .done }) (fun _ => after)
      failed := .modify _ fun state holds => notes state state.session.journal .done holds
  unfold buildFiles
  dsimp only
  refine Ends.bind (.modify before fun state holds => logs state _ holds) fun _ => required.bind fun _ => ?_
  split
  · rename_i isLast
    refine Ends.bind (noted.mono (stops isLast) (fun _ _ holds => holds) fun _ left => left) fun _ =>
      Ends.get.bind fun state => ?_
    exact .pure fun other ⟨same, holds⟩ => ⟨state.report, rfl, by rw [same]; exact holds⟩
  · rename_i goesOn
    refine (optional (by simpa using goesOn)).bind fun _ => noted.bind fun _ => Ends.get.bind fun _ => ?_
    refine Ends.bind (.modify after fun state holds => ?_) fun _ => Ends.get.bind fun state => ?_
    · exact notes state _ state.report.state holds.2
    · exact .pure fun other ⟨same, holds⟩ => ⟨state.report, rfl, by rw [same]; exact holds⟩

/-- A build of one path makes the call for its source if that is compiled, and calls the compiler for nothing
else. -/
theorem Handover.buildFiles_tells {good : Invocation × Tree → Prop} (tools : Toolchain)
    (handover : Handover compiler request layout path start good) (mode : String) :
    Ends (· = { session := start, report := { mode } }) (buildFiles tools compiler request layout)
      (fun outcome state => ∃ report, outcome = .report report ∧
        Tells (tallyOf layout path) (fun session => MadeBefore layout good start (timesOf path) session ∧
          (request.runtimeOnly → Made good start (timesOf path) session)) { state with report })
      (fun state => ∃ times ≤ 1, MadeBefore layout good start times state.session) := by
  refine (buildFiles_leads (handover.requiredStages_tells.mono (fun _ told => told)
    (fun _ _ told => told) fun state ⟨times, most, made⟩ => ⟨times, most, made.before⟩) (fun goesOn => ?_)
    (fun _ state told => ⟨told.tally, told.session.before, fun _ => told.session⟩)
    (fun state journal told => ⟨told.tally, Relogs.silent state.session journal told.session⟩)
    fun state journal stage told => ⟨told.tally, MadeBefore.quiet.silent
      state.session journal told.session.1, fun isLast =>
        Made.quiet.silent state.session journal (told.session.2 isLast)⟩).mono ?_ (fun _ _ told => told)
    fun _ left => left
  · refine (optionalStages_keeps MadeBefore.endures).mono (fun state told =>
      ⟨told.tally, told.session.before⟩) (fun _ state told => ⟨told.tally, told.session, ?_⟩)
      fun state told => ⟨_, timesOf_le path, told.session⟩
    intro isLast
    rw [goesOn] at isLast
    cases isLast
  · rintro state rfl
    exact ⟨rfl, .refl start⟩

end

end Build

end TreeBuild
