import Mathlib.Data.List.Count
import TreeBuild.Proofs.Build.Containment
import TreeBuild.Proofs.Build.Handing
import TreeBuild.Proofs.Build.Products
import TreeBuild.Proofs.Project.Everything
import TreeBuild.Proofs.Tree.Kinds

/-!
# Every source is handled once

The sources that a build finds are apart by their paths, and the path of a source tells its dialect. The
dialect alone decides what becomes of the source: the plain modules are listed in one call of the compiler, the
text of each module with markup is handed over in a call of its own, assets are copied, and declarations are
counted. As there is one dialect to each source, each is handled once, and the report accounts for all of them.

None of this depends on the tree or on the tools. If links or several matches lead to one file, it is found
once, and if a call fails, there is no report.
-/
namespace TreeBuild

/-! ### The sources by their dialects -/

namespace Sources

variable {tree : Tree} {layout : Layout} {pattern : String} {files : List SourceFile}

/-- No path is found twice. -/
theorem nodup_of_discover (found : discover tree layout pattern = .ok files) :
    (files.map SourceFile.path).Nodup := by
  obtain ⟨texts, -, found⟩ := exists_of_bind_eq_ok found
  obtain ⟨paths, listed, found⟩ := exists_of_bind_eq_ok found
  split at found
  · cases found
    exact List.nodup_singleton _
  · cases found
    have same : SourceFile.path ∘ SourceFile.ofPath layout = id := rfl
    rw [List.map_map, same, List.map_id]
    exact (mem_of_foldlM listed .nil (by simp)).1

/-- Among the sources of a dialect a source is listed once if it has this dialect, and else it is not. -/
theorem count_ofDialect (distinct : (files.map SourceFile.path).Nodup) {file : SourceFile}
    (member : file ∈ files) (dialect : Dialect) :
    ((ofDialect dialect files).map SourceFile.path).count file.path =
      if file.dialect = dialect then 1 else 0 := by
  have within : ((ofDialect dialect files).map SourceFile.path).Nodup :=
    distinct.sublist (List.filter_sublist.map _)
  split
  · rename_i same
    exact List.count_eq_one_of_mem within (List.mem_map_of_mem (Build.mem_ofDialect.mpr ⟨member, same⟩))
  · rename_i different
    refine List.count_eq_zero_of_not_mem fun listed => ?_
    obtain ⟨other, found, samePath⟩ := List.mem_map.mp listed
    obtain ⟨inside, isOf⟩ := Build.mem_ofDialect.mp found
    have same : other = file := List.inj_on_of_nodup_map distinct inside member samePath
    exact different (same ▸ isOf)

/-- Every source has one of the dialects. -/
theorem length_ofDialect (files : List SourceFile) :
    (ofDialect .templatedUi files).length + (ofDialect .plain files).length +
      (ofDialect .asset files).length + (ofDialect .declaration files).length = files.length := by
  induction files with
  | nil => rfl
  | cons file rest inductionHypothesis =>
    have here (dialect : Dialect) : (ofDialect dialect (file :: rest)).length =
        (if file.dialect = dialect then 1 else 0) + (ofDialect dialect rest).length := by
      unfold ofDialect
      rw [List.filter_cons]
      split <;> rename_i same <;> simp_all [Nat.add_comm]
    rw [here, here, here, here, List.length_cons, ← inductionHypothesis]
    cases file.dialect <;> simp <;> omega

end Sources

namespace Build

/-! ### What is handed to the compiler -/

/-- What one call hands to the compiler: paths of plain modules, or the text of the module at a path. -/
inductive Handing where
  | files (paths : List Path)
  | text (path : Path)
  deriving DecidableEq

namespace Handing

/-- Whether paths are handed over. -/
def isFiles : Handing → Bool
  | files _ => true
  | text _ => false

/-- The paths that are listed in the call. -/
def listed : Handing → List Path
  | files paths => paths
  | text _ => []

/-- The paths of all sources that the call hands over. -/
def paths : Handing → List Path
  | files paths => paths
  | text path => [path]

/-- A call of the compiler, made in a tree, is one for plain modules or one for the text of a module with
markup. A text is handed over as the file holds it in this tree, behind the imports that markup needs. -/
inductive Made (program : String) (layout : Layout) (options : CompilerOptions) :
    Handing → Invocation × Tree → Prop where
  | files (paths : List Path) (tree : Tree) :
      Made program layout options (.files paths) (Compiler.filesCall program layout options paths, tree)
  | text {tree : Tree} {path : Path} {source : String} (directory : Path)
      (read : Session.textAt tree path = .ok source) :
      Made program layout options (.text path) (Compiler.textCall program options path
        (layout.destination path) (Compiler.withPreamble source) directory, tree)

end Handing

/-- The call for plain modules, if there are any. -/
def filesHanding : List Path → List Handing
  | [] => []
  | paths => [.files paths]

/-- What a build of these sources hands to the compiler. -/
def handings (files : List SourceFile) : List Handing :=
  filesHanding ((Sources.ofDialect .plain files).map SourceFile.path) ++
    (Sources.ofDialect .templatedUi files).map fun file => .text file.path

/-- Among what is handed to the compiler and what is copied, a source has the one place that its dialect gives
it: in a call with its text, in the list of a call, or among the copies. A declaration has none. -/
structure HandledOnce (given : List Handing) (copied : List SourceFile) (file : SourceFile) : Prop where
  text : given.count (.text file.path) = if Dialect.ofPath file.path = .templatedUi then 1 else 0
  listed : (given.flatMap Handing.listed).count file.path =
    if Dialect.ofPath file.path = .plain then 1 else 0
  copied : (copied.map SourceFile.path).count file.path = if Dialect.ofPath file.path = .asset then 1 else 0

/-- Each source is handled once, plain modules all by one call, and nothing else is handled. -/
structure HandlesEach (files : List SourceFile) (given : List Handing) (copied : List SourceFile) : Prop where
  single : given.countP Handing.isFiles ≤ 1
  each : ∀ file ∈ files, HandledOnce given copied file
  givenOnly : ∀ handing ∈ given, ∀ path ∈ handing.paths, path ∈ files.map SourceFile.path
  copiedOnly : ∀ file ∈ copied, file ∈ files

/-- Handing over files lists exactly these files. -/
theorem listed_filesHanding (paths : List Path) : (filesHanding paths).flatMap Handing.listed = paths := by
  cases paths <;> simp [filesHanding, Handing.listed]

/-- What hands over files hands over all of them at once. -/
theorem isFiles_of_mem_filesHanding {paths : List Path} {handing : Handing}
    (member : handing ∈ filesHanding paths) : handing = .files paths := by
  cases paths with
  | nil => cases member
  | cons path rest => exact List.mem_singleton.mp member

/-- The plain modules are the ones that calls list. -/
theorem listed_handings (files : List SourceFile) : (handings files).flatMap Handing.listed =
    (Sources.ofDialect .plain files).map SourceFile.path := by
  have none (texts : List SourceFile) :
      (texts.map fun file => Handing.text file.path).flatMap Handing.listed = [] := by
    simp [List.flatMap_map, Handing.listed]
  rw [handings, List.flatMap_append, listed_filesHanding, none, List.append_nil]

/-- The text of a module is handed over as often as the module is listed among those with markup. -/
theorem count_handings (files : List SourceFile) (path : Path) : (handings files).count (.text path) =
    ((Sources.ofDialect .templatedUi files).map SourceFile.path).count path := by
  have apart : Handing.text path ∉ filesHanding ((Sources.ofDialect .plain files).map SourceFile.path) :=
    fun member => by cases isFiles_of_mem_filesHanding member
  have injective : Function.Injective Handing.text := fun _ _ same => Handing.text.inj same
  have texts : ((Sources.ofDialect .templatedUi files).map fun file => Handing.text file.path) =
      ((Sources.ofDialect .templatedUi files).map SourceFile.path).map Handing.text := by
    rw [List.map_map]
    rfl
  rw [handings, List.count_append, List.count_eq_zero_of_not_mem apart, Nat.zero_add, texts,
    List.count_map_of_injective _ _ injective]

/-- Sources that are apart, each of the dialect that its path tells, are each handled once. -/
theorem handlesEach {files : List SourceFile} (distinct : (files.map SourceFile.path).Nodup)
    (dialects : ∀ file ∈ files, file.dialect = Dialect.ofPath file.path) :
    HandlesEach files (handings files) (Sources.ofDialect .asset files) where
  single := by
    have plain (paths : List Path) : (filesHanding paths).countP Handing.isFiles ≤ 1 := by
      cases paths <;> simp [filesHanding, Handing.isFiles]
    have texts : ((Sources.ofDialect .templatedUi files).map fun file =>
        Handing.text file.path).countP Handing.isFiles = 0 := by
      rw [List.countP_map, List.countP_eq_zero]
      intro file _
      simp [Handing.isFiles]
    rw [handings, List.countP_append, texts, Nat.add_zero]
    exact plain _
  each file member := by
    have counted := Sources.count_ofDialect distinct member
    rw [dialects file member] at counted
    refine ⟨?_, ?_, counted .asset⟩
    · rw [count_handings, counted]
    · rw [listed_handings, counted]
  givenOnly handing member path inside := by
    have within {dialect : Dialect} {file : SourceFile} (found : file ∈ Sources.ofDialect dialect files) :
        file.path ∈ files.map SourceFile.path := List.mem_map_of_mem (mem_ofDialect.mp found).1
    rcases List.mem_append.mp member with plain | markup
    · obtain rfl := isFiles_of_mem_filesHanding plain
      obtain ⟨file, found, rfl⟩ := List.mem_map.mp inside
      exact within found
    · obtain ⟨file, found, rfl⟩ := List.mem_map.mp markup
      obtain rfl := List.mem_singleton.mp inside
      exact within found
  copiedOnly file member := (mem_ofDialect.mp member).1

/-! ### Steps that have been taken -/

section

variable {tools : Toolchain} {compiler : Compiler} {request : Request} {layout : Layout} {start : Session}
  {files : List SourceFile} {options : CompilerOptions} {effect : Step → Work → Action Work}

/-- A build has taken these steps, and has done this work. -/
def Took (effect : Step → Work → Action Work) (start : Session) (done : List Step) (work : Work)
    (session : Session) : Prop :=
  ∃ endings left, Leads effect start done endings work left ∧ Relogs left session

/-- What a build has done does not depend on the log. -/
theorem Took.silent {done : List Step} {work : Work} : Silent (Took effect start done work) :=
  fun _ journal ⟨endings, left, leads, relogs⟩ => ⟨endings, left, leads, relogs.log journal⟩

/-- A session that differs from the start only in its log has been reached without a step. -/
theorem Relogs.took {session : Session} (relogs : Relogs start session) : Took effect start [] {} session :=
  ⟨[], start, .start, relogs⟩

/-- An action takes the step that it is a part of. -/
theorem took_action {Result : Type} (effect : Step → Work → Action Work) (start : Session) (done : List Step)
    (work : Work) (step : Step) (action : Action Result) (add : Result → Work)
    (same : effect step work = action >>= fun result => pure (add result)) :
    Ends (Took effect start done work) action
      (fun result => Took effect start (done ++ [step]) (add result)) (fun _ => True) := by
  refine ⟨fun session took => ?_⟩
  obtain ⟨endings, left, leads, relogs⟩ := took
  rcases ran : action session with ⟨fault | result, after⟩
  · trivial
  · have does : effect step work session = (.ok (add result), after) := by
      rw [same, bind_apply, ran]
      rfl
    exact ⟨_, after, leads.passed step relogs does, .refl after⟩

/-! ### The calls of the compiler -/

/-- A session of a build in which this has been handed to the compiler since the start. -/
def HandedOver (program : String) (layout : Layout) (options : CompilerOptions) (start : Session)
    (given : List Handing) (session : Session) : Prop :=
  ∃ calls, List.Forall₂ (Handing.Made program layout options) given calls ∧ Since start calls session

/-- What has been handed over is told by the calls, so it does not depend on the tree, the log or the clock. -/
theorem HandedOver.quiet {program : String} {given : List Handing} :
    Quiet (HandedOver program layout options start given) :=
  fun session tree clock journal ⟨calls, made, since⟩ =>
    ⟨calls, made, since.quiet session tree clock journal⟩

/-- A call of the compiler is the last one to hand something over. -/
theorem run_handsOver (arguments : List String) (input : Option String) (directory : Path) {tree : Tree}
    {handing : Handing} {given : List Handing} (made : Handing.Made compiler.program layout options handing
      (⟨compiler.program :: arguments, directory, input⟩, tree)) :
    Ends (fun session => session.tree = tree ∧ HandedOver compiler.program layout options start given session)
      (compiler.run arguments input directory)
      (fun _ => HandedOver compiler.program layout options start (given ++ [handing])) (fun _ => True) := by
  refine Compiler.run_ends compiler arguments input directory (fun _ => HandedOver.quiet.silent)
    (fun session output errors after ⟨here, calls, each, since⟩ _ => ?_) fun _ _ _ _ _ => trivial
  refine ⟨calls ++ [(⟨compiler.program :: arguments, directory, input⟩, tree)],
    List.rel_append each (.cons made .nil), ?_, since.environment⟩
  simp [Session.called, since.calls, here]

/-- The plain sources are handed over together, and their outputs are their destinations. -/
theorem compilePlain_handsOver (files : List SourceFile) :
    Ends (Since start []) (compilePlain compiler options layout files)
      (fun outputs session => outputs = files.map (fun file => layout.destination file.path) ∧
        HandedOver compiler.program layout options start (filesHanding (files.map SourceFile.path)) session)
      (fun _ => True) := by
  cases files with
  | nil => exact ⟨fun session since => ⟨rfl, [], .nil, since⟩⟩
  | cons file rest =>
    unfold compilePlain Compiler.buildEntryPoints
    refine Ends.bind (Ends.of_forall fun session since => Ends.discard ?_) fun _ =>
      .pure fun session handed => ⟨rfl, handed⟩
    have hands : Ends (fun other => other.tree = session.tree ∧
        HandedOver compiler.program layout options start [] other) _ _ _ :=
      run_handsOver _ _ _ (.files ((file :: rest).map SourceFile.path) session.tree)
    refine hands.mono ?_ (fun _ _ handed => handed) fun _ _ => trivial
    rintro _ rfl
    exact ⟨rfl, [], .nil, since⟩

/-- A source with markup is handed over behind what was handed over before, and its output is its destination.
-/
theorem compileMarkup_handsOver (file : SourceFile) (given : List Handing) :
    Ends (HandedOver compiler.program layout options start given) (compileMarkup compiler options layout file)
      (fun output session => output = layout.destination file.path ∧
        HandedOver compiler.program layout options start (given ++ [.text file.path]) session)
      (fun _ => True) := by
  unfold compileMarkup Compiler.buildBuffer
  refine ((Ends.readText_textAt file.path).mono (fun _ handed => handed) (fun _ _ told => told)
    fun _ _ => trivial).bind fun source => Ends.of_forall fun session told => ?_
  refine Ends.through (fun _ => HandedOver compiler.program layout options start
    (given ++ [.text file.path])) ?_ fun _ => .pure fun _ handed => ⟨rfl, handed⟩
  refine ((Keeps.askFiles _).mono (fun _ same => same) (fun _ _ same => same) fun _ _ => trivial).bind
    fun present => Ends.discard ?_
  refine (run_handsOver _ _ _ (.text _ told.1)).mono ?_ (fun _ _ handed => handed) fun _ _ => trivial
  rintro _ rfl
  exact ⟨rfl, told.2⟩

/-- A compilation hands over the modules among the sources, and answers with their destinations. -/
theorem compile_handsOver (files : List SourceFile) :
    Ends (Since start []) (compile compiler options layout files)
      (fun outputs session => outputs = (modules files).map (fun file => layout.destination file.path) ∧
        HandedOver compiler.program layout options start (handings files) session)
      (fun _ => True) := by
  refine @compile_answers compiler layout files options _ (fun front => HandedOver compiler.program layout
    options start (filesHanding ((Sources.ofDialect .plain files).map SourceFile.path) ++
      front.map fun file => .text file.path)) ?_ fun front file back _ => ?_
  · rw [List.map_nil, List.append_nil]
    exact compilePlain_handsOver _
  · rw [List.map_append, ← List.append_assoc]
    exact compileMarkup_handsOver file _

/-! ### The copies of assets -/

/-- From one tree to another, each of these files has been copied to its destination, one after another. -/
inductive CopiesEach (layout : Layout) (before : Tree) : List SourceFile → Tree → Prop where
  | none : CopiesEach layout before [] before
  | next {front : List SourceFile} {file : SourceFile} {middle after : Tree}
      (earlier : CopiesEach layout before front middle)
      (copies : Tree.Copies file.path (layout.destination file.path) middle after) :
      CopiesEach layout before (front ++ [file]) after

/-- One file is copied to its destination. -/
theorem copyAsset_copies (file : SourceFile) (start : Session) :
    Ends (· = start) (Output.copyAsset layout file)
      (fun output session => output = layout.destination file.path ∧
        Tree.Copies file.path (layout.destination file.path) start.tree session.tree) (fun _ => True) := by
  unfold Output.copyAsset
  have directories : Ends (· = start)
      (Action.alterFiles (·.makeDirectories (layout.destination file.path).parent))
      (fun _ session => session.tree = (start.tree.makeDirectories (layout.destination file.path).parent).2)
      (fun _ => True) := by
    apply Ends.alterFiles
    · rintro _ rfl _
      rfl
    · exact fun _ _ => trivial
  have copied : Ends
      (fun session => session.tree = (start.tree.makeDirectories (layout.destination file.path).parent).2)
      (Action.changeFiles (·.copyFile file.path (layout.destination file.path)))
      (fun _ session => Tree.Copies file.path (layout.destination file.path) start.tree session.tree)
      (fun _ => True) := by
    apply Ends.changeFiles
    · intro session after made changed
      rw [made] at changed
      refine Tree.copies_of_copyFile (fun location => ?_) changed
      exact ((Tree.Ground.makeDirectories_grows start.tree _).spares location id).imp_right And.right
    · exact fun _ _ _ _ => trivial
  exact directories.bind fun _ => copied.bind fun _ => .pure fun _ copies => ⟨rfl, copies⟩

/-- One more file is copied. -/
theorem copyAsset_copiesEach (file : SourceFile) (front : List SourceFile) {before : Session → Prop} :
    Ends (fun session => ∃ first, before first ∧ CopiesEach layout first.tree front session.tree)
      (Output.copyAsset layout file)
      (fun output session => output = layout.destination file.path ∧
        ∃ first, before first ∧ CopiesEach layout first.tree (front ++ [file]) session.tree)
      (fun _ => True) := by
  refine Ends.of_forall fun session ⟨first, holds, earlier⟩ =>
    (copyAsset_copies file session).mono (fun _ same => same) (fun output after known => ?_) fun _ _ => trivial
  exact ⟨known.1, first, holds, earlier.next known.2⟩

/-- All files are copied, from the session that was there before. -/
theorem copyAssets_copiesEach (files : List SourceFile) {before : Session → Prop} :
    Ends before (Output.copyAssets files layout)
      (fun outputs session => outputs = files.map (fun file => layout.destination file.path) ∧
        ∃ first, before first ∧ CopiesEach layout first.tree files session.tree) (fun _ => True) := by
  have all := @Ends.all_list _ _ files (Output.copyAsset layout)
    (fun front session => ∃ first, before first ∧ CopiesEach layout first.tree front session.tree)
    (fun file output => output = layout.destination file.path) fun front file _ _ =>
      copyAsset_copiesEach file front
  apply copyAssets_answers
  refine all.mono (fun session holds => ⟨session, holds, .none⟩) ?_ fun _ _ => trivial
  rintro outputs session ⟨answers, known⟩
  have pairs := List.forall₂_map_left_iff.mpr (answers.imp fun _ _ same => same.symm)
  rw [List.forall₂_eq_eq_eq] at pairs
  exact ⟨pairs.symm, known⟩

/-! ### Whole builds -/

/-- The sources of a build are those that are found when it has cleared what it is going to write. -/
def FoundBy (effect : Step → Work → Action Work) (request : Request) (layout : Layout) (start : Session)
    (files : List SourceFile) : Prop :=
  ∃ cleared, Took effect start [.stage .clearing] {} cleared ∧
    Sources.discover cleared.tree layout request.input.shown = .ok files

/-- The steps of a build before assets are copied. -/
def stepsBeforeCopies : List Step :=
  [.stage .clearing, .stage .classifying, .copyConfiguration, .chooseOptions, .stage .compiling, .removeCopy]

/-- How a build deals with its sources, once it has found them. First the compiler is called, to hand over what
is given, and behind it only tools for styles, executables and declarations are. The assets are copied behind
the last step that has to do with the modules. -/
structure DealsWith (effect : Step → Work → Action Work) (program : String) (request : Request) (layout : Layout)
    (start : Session) (files : List SourceFile) (given : List Handing) (assets : List SourceFile)
    (session : Session) : Prop where
  found : FoundBy effect request layout start files
  hands : ∃ options calls others, List.Forall₂ (Handing.Made program layout options) given calls ∧
    Since start (calls ++ others) session ∧ ∀ call ∈ others, Auxiliary.Calls layout call.1
  copies : ∃ work before after, work.files = files ∧ Took effect start stepsBeforeCopies work before ∧
    CopiesEach layout before.tree assets after.tree ∧
    Took effect start (stepsBeforeCopies ++ [.stage .copyingAssets]) work after

/-- What has been called and copied so far stays as it is when the tree changes. -/
theorem DealsWith.quiet {program : String} {given : List Handing} {assets : List SourceFile} :
    Quiet (DealsWith effect program request layout start files given assets) := by
  rintro session tree clock journal ⟨found, ⟨options, calls, others, made, since, aside⟩, copies⟩
  exact ⟨found, ⟨options, calls, others, made, since.quiet session tree clock journal, aside⟩, copies⟩

/-- The tools that are called behind the compiler hand over no source. -/
theorem DealsWith.endures {program : String} {given : List Handing} {assets : List SourceFile} :
    Endures tools layout (DealsWith effect program request layout start files given assets) where
  silent := DealsWith.quiet.silent
  directories session path := DealsWith.quiet session _ session.clock session.journal
  call session invocation other := by
    rintro ⟨found, ⟨options, calls, others, made, since, aside⟩, copies⟩
    refine ⟨found, ⟨options, calls, others ++ [(invocation, session.tree)], made, ⟨?_, since.environment⟩,
      ?_⟩, copies⟩
    · simp [since.calls]
    · refine List.forall_mem_append.mpr ⟨aside, fun call member => ?_⟩
      rw [List.mem_singleton.mp member]
      exact other.calls

/-- A build that has taken these steps has found its sources, and has not called a tool. -/
structure Prepares (tools : Toolchain) (compiler : Compiler) (request : Request) (layout : Layout)
    (start : Session) (done : List Step) (work : Work) (session : Session) : Prop where
  found : FoundBy (Step.effect tools compiler request layout) request layout start work.files
  took : Took (Step.effect tools compiler request layout) start done work session
  since : Since start [] session

/-- A build that has taken these steps has handed over the modules among its sources. -/
structure Delivers (tools : Toolchain) (compiler : Compiler) (request : Request) (layout : Layout)
    (start : Session) (done : List Step) (work : Work) (session : Session) : Prop where
  found : FoundBy (Step.effect tools compiler request layout) request layout start work.files
  outputs : work.outputs = (modules work.files).map fun file => layout.destination file.path
  took : Took (Step.effect tools compiler request layout) start done work session
  handed : ∃ options, HandedOver compiler.program layout options start (handings work.files) session

section

variable {done : List Step} {work : Work} {copy : Path} {outputs : List Path}

/-- What a build has found does not depend on the log. -/
theorem Prepares.silent : Silent (Prepares tools compiler request layout start done work) :=
  fun session journal ⟨found, took, since⟩ =>
    ⟨found, took.silent session journal, Since.quiet.silent session journal since⟩

/-- What a build has handed over does not depend on the log. -/
theorem Delivers.silent : Silent (Delivers tools compiler request layout start done work) :=
  fun session journal ⟨found, outputs, took, options, handed⟩ =>
    ⟨found, outputs, took.silent session journal, options, HandedOver.quiet.silent session journal handed⟩

/-- Clearing is the first step of a build, and it calls no tool. -/
theorem clear_takes : Ends (Relogs start) (clear request layout)
    (fun _ session => Took (Step.effect tools compiler request layout) start [.stage .clearing] {} session ∧
      Since start [] session) (fun _ => True) := by
  have takes := took_action (Step.effect tools compiler request layout) start [] {} (.stage .clearing)
    (clear request layout) (fun _ => {}) rfl
  have kept : Keeps (Since start []) (clear request layout) := Since.quiet.buildClear request layout
  refine (takes.and kept).mono (fun session relogs => ⟨relogs.took, ?_⟩) (fun _ _ known => known)
    fun _ _ => trivial
  obtain ⟨journal, rfl⟩ := relogs
  exact ⟨(List.append_nil _).symm, rfl⟩

/-- Classifying is the second step of a build, and it calls no tool either. -/
theorem discoverInput_prepares : Ends
    (fun session => Took (Step.effect tools compiler request layout) start [.stage .clearing] {} session ∧
      Since start [] session)
    (discoverInput request layout) (fun files => Prepares tools compiler request layout start
      [.stage .clearing, .stage .classifying] { files }) (fun _ => True) := by
  have takes := took_action (Step.effect tools compiler request layout) start [.stage .clearing] {}
    (.stage .classifying) (discoverInput request layout) (fun files => { files }) rfl
  refine (takes.and (Ends.ask _)).mono (fun session known => ⟨known.1, known⟩) ?_ fun _ _ => trivial
  rintro found session ⟨took, told, cleared, since⟩
  obtain ⟨-, -, answer⟩ := exists_of_bind_eq_ok told
  exact ⟨⟨session, cleared, answer⟩, took, since⟩

/-- A step that calls no tool and leaves the sources alone. -/
theorem Prepares.takes {Result : Type} (step : Step) {action : Action Result} (add : Result → Work)
    (same : Step.effect tools compiler request layout step work = action >>= fun result => pure (add result))
    (files : ∀ result, (add result).files = work.files) (kept : Keeps (Since start []) action) :
    Ends (Prepares tools compiler request layout start done work) action
      (fun result => Prepares tools compiler request layout start (done ++ [step]) (add result))
      (fun _ => True) := by
  have takes := took_action (Step.effect tools compiler request layout) start done work step action add same
  refine Ends.of_forall fun session ⟨found, took, since⟩ => ?_
  refine (takes.and kept).mono ?_ (fun result after known => ?_) fun _ _ => trivial
  · rintro _ rfl
    exact ⟨took, since⟩
  · exact ⟨(files result).symm ▸ found, known.1, known.2⟩

/-- When the modules are compiled, they are handed over. -/
theorem Prepares.compiles :
    Ends (Prepares tools compiler request layout start done { files, copy, options })
      (compile compiler options layout files)
      (fun outputs => Delivers tools compiler request layout start (done ++ [.stage .compiling])
        { files, copy, options, outputs }) (fun _ => True) := by
  have takes := took_action (Step.effect tools compiler request layout) start done { files, copy, options }
    (.stage .compiling) (compile compiler options layout files)
    (fun outputs => { files, copy, options, outputs }) rfl
  have hands : Ends (Since start []) (compile compiler options layout files) _ _ := compile_handsOver files
  refine Ends.of_forall fun session ⟨found, took, since⟩ => ?_
  refine (takes.and hands).mono ?_ (fun outputs after known => ?_) fun _ _ => trivial
  · rintro _ rfl
    exact ⟨took, since⟩
  · exact ⟨found, known.2.1, known.1, options, known.2.2⟩

/-- Removing the copy of the configuration hands nothing over and keeps the outputs. -/
theorem Delivers.removes :
    Ends (Delivers tools compiler request layout start done { files, copy, options, outputs })
      (Configuration.removeCopy copy)
      (fun _ => Delivers tools compiler request layout start (done ++ [.removeCopy])
        { files, options, outputs }) (fun _ => True) := by
  have takes := took_action (Step.effect tools compiler request layout) start done
    { files, copy, options, outputs } .removeCopy (Configuration.removeCopy copy)
    (fun _ => { files, options, outputs }) rfl
  refine Ends.of_forall fun session ⟨found, same, took, chosen, handed⟩ => ?_
  have kept : Keeps (HandedOver compiler.program layout chosen start (handings files))
      (Configuration.removeCopy copy) := HandedOver.quiet.removeCopy copy
  refine (takes.and kept).mono ?_ (fun _ after known => ?_) fun _ _ => trivial
  · rintro _ rfl
    exact ⟨took, handed⟩
  · exact ⟨found, same, known.1, chosen, known.2⟩

/-- When the assets are copied behind that, all sources have been dealt with. -/
theorem Delivers.copies (ofWork : work.files = files) :
    Ends (Delivers tools compiler request layout start stepsBeforeCopies work)
      (Output.copyAssets (Sources.ofDialect .asset files) layout)
      (fun assets session => work.outputs = (modules files).map (fun file => layout.destination file.path) ∧
        assets = (Sources.ofDialect .asset files).map (fun file => layout.destination file.path) ∧
        DealsWith (Step.effect tools compiler request layout) compiler.program request layout start files
          (handings files) (Sources.ofDialect .asset files) session) (fun _ => True) := by
  subst ofWork
  have takes := took_action (Step.effect tools compiler request layout) start stepsBeforeCopies work
    (.stage .copyingAssets) (Output.copyAssets (Sources.ofDialect .asset work.files) layout) (fun _ => work) rfl
  have copied := @copyAssets_copiesEach layout (Sources.ofDialect .asset work.files)
    (Took (Step.effect tools compiler request layout) start stepsBeforeCopies work)
  refine Ends.of_forall fun session ⟨found, same, took, options, handed⟩ => ?_
  have kept : Keeps (HandedOver compiler.program layout options start (handings work.files))
      (Output.copyAssets (Sources.ofDialect .asset work.files) layout) := HandedOver.quiet.copyAssets _ layout
  refine ((takes.and kept).and copied).mono ?_ (fun assets after known => ?_) fun _ _ => trivial
  · rintro _ rfl
    exact ⟨⟨took, handed⟩, took⟩
  · obtain ⟨⟨later, calls, made, since⟩, answers, first, before, each⟩ := known
    refine ⟨same, answers, found, ⟨options, calls, [], made, ?_, by simp⟩, work, first, after, rfl, before,
      each, later⟩
    rwa [List.append_nil]

end

/-- What holds between the actions of a build: its sources are found, all modules among them are handed over,
and then all assets are copied. -/
def passageAll (tools : Toolchain) (compiler : Compiler) (request : Request) (layout : Layout) (start : Session) :
    Passage compiler request layout (Relogs start) (fun _ => True) where
  cleared session := Took (Step.effect tools compiler request layout) start [.stage .clearing] {} session ∧
    Since start [] session
  found files := Prepares tools compiler request layout start [.stage .clearing, .stage .classifying] { files }
  copied files copy := Prepares tools compiler request layout start
    [.stage .clearing, .stage .classifying, .copyConfiguration] { files, copy }
  chosen files copy options := Prepares tools compiler request layout start
    [.stage .clearing, .stage .classifying, .copyConfiguration, .chooseOptions] { files, copy, options }
  compiled files copy outputs session := ∃ options : CompilerOptions, Delivers tools compiler request layout start
    [.stage .clearing, .stage .classifying, .copyConfiguration, .chooseOptions, .stage .compiling]
      { files, copy, options, outputs } session
  emitted files outputs session := ∃ options : CompilerOptions,
    Delivers tools compiler request layout start stepsBeforeCopies { files, options, outputs } session
  complete files outputs assets session :=
    outputs = (modules files).map (fun file => layout.destination file.path) ∧
    assets = (Sources.ofDialect .asset files).map (fun file => layout.destination file.path) ∧
    DealsWith (Step.effect tools compiler request layout) compiler.program request layout start files
      (handings files) (Sources.ofDialect .asset files) session
  clears := clear_takes
  discovers := discoverInput_prepares
  copies files := Prepares.takes .copyConfiguration (fun copy => { files, copy := some copy }) rfl
    (fun _ => rfl) (Since.quiet.copyConfiguration request layout)
  chooses files copy := Prepares.takes .chooseOptions
    (fun options => { files, copy := some copy, options := some options }) rfl (fun _ => rfl)
    (CompilerOptions.ofRequest_keeps request layout (some copy))
  compiles _ _ options := Prepares.compiles.mono (fun _ prepares => prepares)
    (fun _ _ delivers => ⟨options, delivers⟩) fun _ _ => trivial
  removes _ _ _ := Ends.of_exists fun options => Delivers.removes.mono (fun _ delivers => delivers)
    (fun _ _ delivers => ⟨options, delivers⟩) fun _ _ => trivial
  cleans _ := Ends.any _
  copiesAssets _ _ := Ends.of_exists fun _ => Delivers.copies rfl
  fails _ _ _ _ _ := trivial
  silentStart := Relogs.silent
  silentCleared session journal known :=
    ⟨known.1.silent session journal, Since.quiet.silent session journal known.2⟩
  silentFound _ := Prepares.silent
  silentChosen _ _ _ := Prepares.silent
  silentCompiled _ _ _ session journal known := known.imp fun _ delivers => delivers.silent session journal
  silentEmitted _ _ session journal known := known.imp fun _ delivers => delivers.silent session journal
  quietComplete _ _ _ session tree clock journal known :=
    ⟨known.1, known.2.1, known.2.2.quiet session tree clock journal⟩
  silentFailed := fun _ _ _ => trivial

/-- What the report of a build tells of the sources that it has found. -/
def tallyOfAll (layout : Layout) (files : List SourceFile) : Tally where
  compiled := (modules files).map fun file => layout.destination file.path
  copied := (Sources.ofDialect .asset files).map fun file => layout.destination file.path
  declarations := (Sources.ofDialect .declaration files).length

/-- A build has dealt with the sources that it has found, and its report tells of all of them. -/
def TellsAll (tools : Toolchain) (compiler : Compiler) (request : Request) (layout : Layout) (start : Session)
    (files : List SourceFile) : BuildState → Prop :=
  Tells (tallyOfAll layout files) (DealsWith (Step.effect tools compiler request layout) compiler.program request
    layout start files (handings files) (Sources.ofDialect .asset files))

/-- A build of files that ends with a report tells of all the sources that it has found. -/
theorem buildFiles_dealsWith (tools : Toolchain) (compiler : Compiler) (request : Request) (layout : Layout)
    (start : Session) (mode : String) :
    Ends (· = { session := start, report := { mode } }) (buildFiles tools compiler request layout)
      (fun outcome state => ∃ report, outcome = .report report ∧
        ∃ files, TellsAll tools compiler request layout start files { state with report }) (fun _ => True) := by
  have required : Ends (Tells {} (Relogs start)) (requiredStages compiler request layout)
      (fun _ state => ∃ files, TellsAll tools compiler request layout start files state) (fun _ => True) := by
    refine (passageAll tools compiler request layout start).requiredStages_tells.mono (fun _ told => told) ?_
      fun _ _ => trivial
    rintro _ state ⟨files, outputs, assets, tally, rfl, rfl, deals⟩
    exact ⟨files, tally, deals⟩
  have optional (_ : request.runtimeOnly = false) :
      Ends (fun state => ∃ files, TellsAll tools compiler request layout start files state)
        (optionalStages tools request layout)
        (fun _ state => ∃ files, TellsAll tools compiler request layout start files state) (fun _ => True) :=
    Ends.of_exists fun files => (optionalStages_keeps DealsWith.endures).mono (fun _ tells => tells)
      (fun _ _ tells => ⟨files, tells⟩) fun _ _ => trivial
  refine (buildFiles_leads required optional (fun _ _ known => known)
    (fun state journal told => ⟨told.tally, Relogs.silent state.session journal told.session⟩)
    fun state journal stage ⟨files, tells⟩ =>
      ⟨files, tells.tally, DealsWith.quiet.silent state.session journal tells.session⟩).mono
      (fun state same => ?_) (fun _ _ known => known) fun _ _ => trivial
  subst same
  exact ⟨rfl, .refl start⟩

/-- A build of files that ends with a report handles each of the sources that it finds once. Their paths are
apart. By the dialect that its path tells, a source is handed to the compiler in one call with its text behind
the imports that markup needs, or it is listed once in the only call for plain modules, or it is copied once,
or, if it is a declaration, none of these. Nothing else is handed to the compiler, and the counts of the report
add up to the number of the sources. -/
theorem run_handles_each_source (tools : Toolchain) (request : Request) (layout : Layout) (start : Session)
    (isFiles : request.isLiteral = false) {report : Report} {final : Session}
    (ran : run tools request layout start = (.ok (.report report), final)) :
    ∃ compiler files given assets,
      Compiler.ofLayout tools layout none start = (.ok compiler, start) ∧
      DealsWith (Step.effect tools compiler request.settled layout) compiler.program request.settled layout start
        files given assets final ∧
      (files.map SourceFile.path).Nodup ∧ HandlesEach files given assets ∧
      report.compiled.length + report.copied.length + report.declarations = files.length := by
  have literal : request.settled.isLiteral = false := isFiles
  rcases run_cases tools request layout start with
    ⟨fault, refused, -⟩ | ⟨compiler, result, state, found, -, ended, same⟩
  · rw [refused] at ran
    cases ran
  · rw [literal, if_neg Bool.false_ne_true] at ended
    rw [same] at ran
    obtain ⟨rfl, rfl⟩ := Prod.mk.inj ran
    obtain ⟨other, equal, files, tells⟩ :=
      (buildFiles_dealsWith tools compiler request.settled layout start _).answered rfl ended
    cases equal
    obtain ⟨cleared, -, discovered⟩ := tells.session.found
    have distinct := Sources.nodup_of_discover discovered
    have dialects : ∀ file ∈ files, file.dialect = Dialect.ofPath file.path :=
      fun file member => (Sources.isResolved_of_discover discovered file member).1
    have tally := tells.tally
    rw [tallyOfAll, Tally.mk.injEq] at tally
    obtain ⟨compiled, copied, declarations⟩ := tally
    dsimp only at compiled copied declarations
    refine ⟨compiler, files, handings files, Sources.ofDialect .asset files, found, tells.session, distinct,
      handlesEach distinct dialects, ?_⟩
    rw [compiled, copied, declarations, List.length_map, List.length_map, modules, List.length_append,
      Sources.length_ofDialect]

end

/-! ### A project with sources of all dialects -/

/-- A project with a module with markup, a plain one and a link to it, a stylesheet that is executable, and a
declaration. -/
def mixedSession : Session where
  tree := ⟨[(["p"], .directory), (["p", "src"], .directory),
    (["p", "src", "card.tsx"], .file (Text.Utf8.encode "let card") false),
    (["p", "src", "m.ts"], .file (Text.Utf8.encode "let m") false), (["p", "src", "copy.ts"], .link "m.ts"),
    (["p", "src", "site.css"], .file (Text.Utf8.encode "a\x7b\x7d") true),
    (["p", "src", "types.d.ts"], .file (Text.Utf8.encode "type T") false), (["t"], .directory)]⟩
  environment := []
  directory := ⟨.root, ["p"]⟩
  temporary := ⟨.root, ["t"]⟩
  clock := 1

/-- The plain module is found through two matches, and it is listed once, in the first call; the second call
has the text of the other module behind the imports. The stylesheet is copied with its content and its mode,
and the declaration is counted. -/
theorem run_handles_each_source_of_mixed : ∃ report final compiler files given assets,
    run plainCompiler.toolchain { runtimeOnly := true } (.ofRoot ⟨.root, ["p"]⟩) mixedSession =
        (.ok (.report report), final) ∧
      DealsWith (Step.effect plainCompiler.toolchain compiler (Request.settled { runtimeOnly := true })
        (.ofRoot ⟨.root, ["p"]⟩)) compiler.program (Request.settled { runtimeOnly := true })
        (.ofRoot ⟨.root, ["p"]⟩) mixedSession files given assets final ∧
      (files.map SourceFile.path).Nodup ∧ HandlesEach files given assets ∧
      report.compiled.length + report.copied.length + report.declarations = files.length ∧
      (report.compiled, report.copied, report.declarations) =
        ([⟨.root, ["p", "dist", "card.js"]⟩, ⟨.root, ["p", "dist", "m.js"]⟩],
          [⟨.root, ["p", "dist", "site.css"]⟩], 1) ∧
      final.invocations.map (fun call => call.1.command.take 2 ++ call.1.input.toList) =
        [["esbuild", "/p/src/m.ts"],
          ["esbuild", "--sourcefile=/p/src/card.tsx", Compiler.withPreamble "let card"]] ∧
      final.tree.get? ["p", "dist", "site.css"] = some (.file (Text.Utf8.encode "a\x7b\x7d") true) := by
  -- One evaluation of the build answers all three questions.
  obtain ⟨told, called, stylesheet⟩ : (match (run plainCompiler.toolchain { runtimeOnly := true }
        (.ofRoot ⟨.root, ["p"]⟩) mixedSession).1 with
        | .ok (.report report) => some (report.compiled, report.copied, report.declarations)
        | .ok (.text _) | .ok .written | .error _ => none) =
        some ([⟨.root, ["p", "dist", "card.js"]⟩, ⟨.root, ["p", "dist", "m.js"]⟩],
          [⟨.root, ["p", "dist", "site.css"]⟩], 1) ∧
      (run plainCompiler.toolchain { runtimeOnly := true } (.ofRoot ⟨.root, ["p"]⟩)
        mixedSession).2.invocations.map (fun call => call.1.command.take 2 ++ call.1.input.toList) =
          [["esbuild", "/p/src/m.ts"],
            ["esbuild", "--sourcefile=/p/src/card.tsx", Compiler.withPreamble "let card"]] ∧
      (run plainCompiler.toolchain { runtimeOnly := true } (.ofRoot ⟨.root, ["p"]⟩)
        mixedSession).2.tree.get? ["p", "dist", "site.css"] =
          some (.file (Text.Utf8.encode "a\x7b\x7d") true) := by
    decide +kernel
  rcases ran : run plainCompiler.toolchain { runtimeOnly := true } (.ofRoot ⟨.root, ["p"]⟩) mixedSession with
    ⟨result, final⟩
  rw [ran] at told called stylesheet
  dsimp only at told called stylesheet
  split at told
  · rename_i report
    obtain ⟨compiler, files, given, assets, -, deals, distinct, handles, sum⟩ :=
      run_handles_each_source plainCompiler.toolchain { runtimeOnly := true } (.ofRoot ⟨.root, ["p"]⟩)
        mixedSession rfl ran
    exact ⟨report, final, compiler, files, given, assets, rfl, deals, distinct, handles, sum,
      Option.some.inj told, called, stylesheet⟩
  all_goals cases told

end Build

end TreeBuild
