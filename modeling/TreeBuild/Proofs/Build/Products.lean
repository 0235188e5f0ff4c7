import Mathlib.Data.List.Nodup
import TreeBuild.Proofs.Build.Course
import TreeBuild.Proofs.Build.Targets
import TreeBuild.Proofs.Specifier.Among

/-!
# What a build makes

The sources of a build are a batch: their paths are written in full, what is emitted goes to different
places in the output tree, and the sources themselves lie outside of it. Of such a batch a build makes one
file after another, and at every moment the tree holds what has been made so far at its destinations and
what it held before everywhere else. The stages of a build go through these moments: the compiler makes
modules, assets are copied, and specifiers are rewritten once all files are there.
-/
namespace TreeBuild

open TreeBuild.Tree

namespace Build

/-- Where the product of a source file goes. -/
def placeOf (layout : Layout) (file : SourceFile) : Location := (layout.destination file.path).parts

/-- The files of a build that lead to products. -/
def emitted (files : List SourceFile) : List SourceFile :=
  files.filter fun file => file.dialect ≠ .declaration

/-- All sources but the declarations lead to products. -/
theorem mem_emitted {files : List SourceFile} {file : SourceFile} :
    file ∈ emitted files ↔ file ∈ files ∧ file.dialect ≠ .declaration := by
  simp [emitted]

/-- The source files of a build that go together. -/
structure Batch (layout : Layout) (files : List SourceFile) : Prop where
  placed : layout.IsPlaced
  absolute : ∀ file ∈ files, file.path.isAbsolute
  plain : ∀ file ∈ files, file.path.IsPlain
  dialect : ∀ file ∈ files, file.dialect = Dialect.ofPath file.path
  apart : ((emitted files).map (placeOf layout)).Nodup
  /-- No asset goes to a place above another product. -/
  separate : ∀ asset ∈ files, asset.dialect = .asset → ∀ other ∈ files, other.dialect ≠ .declaration →
    placeOf layout asset <+: placeOf layout other → placeOf layout asset = placeOf layout other
  outside : ∀ file ∈ files, ¬ layout.output.parts <+: file.path.parts

namespace Batch

variable {layout : Layout} {files : List SourceFile} (batch : Batch layout files)

include batch

/-- The destination of a source has no special parts. -/
theorem destination_isPlain {file : SourceFile} (member : file ∈ files) :
    (layout.destination file.path).IsPlain :=
  Layout.destination_isPlain batch.placed (batch.absolute file member) (batch.plain file member)

/-- The destination of a source is absolute. -/
theorem destination_isAbsolute {file : SourceFile} (member : file ∈ files) :
    (layout.destination file.path).isAbsolute :=
  Layout.destination_isAbsolute batch.placed (batch.absolute file member)
    (batch.plain file member).proper

/-- The product of a source goes below the output tree. -/
theorem output_isPrefix {file : SourceFile} (member : file ∈ files) :
    layout.output.parts <+: placeOf layout file := by
  obtain ⟨rest, same, -⟩ := Layout.destination_eq batch.placed Layout.saysOfParts_isName
    (batch.absolute file member) (batch.plain file member)
  rw [placeOf, same]
  exact List.prefix_append _ rest

/-- Different sources have different destinations. -/
theorem place_ne {file other : SourceFile} (member : file ∈ files) (another : other ∈ files)
    (isEmitted : file.dialect ≠ .declaration) (isEmittedOther : other.dialect ≠ .declaration)
    (different : file ≠ other) : placeOf layout file ≠ placeOf layout other :=
  fun same => different (List.inj_on_of_nodup_map batch.apart (mem_emitted.mpr ⟨member, isEmitted⟩)
    (mem_emitted.mpr ⟨another, isEmittedOther⟩) same)

/-- No source is at the destination of another. -/
theorem path_ne_place {file other : SourceFile} (member : file ∈ files) (another : other ∈ files) :
    file.path.parts ≠ placeOf layout other :=
  fun same => batch.outside file member (same ▸ batch.output_isPrefix another)

end Batch

/-- A moment of a build: the products of the files that are done are there, at the destinations, and all
other files are as they were. No directory is in the way of an asset. -/
structure Moment (layout : Layout) (files : List SourceFile) (good : SourceFile → Text.Bytes → Prop)
    (base : Contents) (done : List SourceFile) (tree : Tree) : Prop where
  regular : tree.IsRegular
  made : ∀ file ∈ done, (layout.destination file.path).Fits ∧
    ∃ bytes, tree.contentAt? (placeOf layout file) = some bytes ∧ good file bytes
  rest : ∀ location, (∀ file ∈ done, location ≠ placeOf layout file) →
    tree.contentAt? location = base location
  clear : ∀ file ∈ files, file.dialect = .asset →
    tree.get? (placeOf layout file) ≠ some .directory

namespace Moment

variable {layout : Layout} {files done : List SourceFile} {good : SourceFile → Text.Bytes → Prop}
  {base : Contents} {tree : Tree}

/-- Sources are as they were. -/
theorem source (moment : Moment layout files good base done tree) (batch : Batch layout files)
    (within : ∀ file ∈ done, file ∈ files) {file : SourceFile} (member : file ∈ files) :
    tree.contentAt? file.path.parts = base file.path.parts :=
  moment.rest _ fun other found => batch.path_ne_place member (within other found)

/-- Only which files are done counts, not their order. -/
theorem of_mem (moment : Moment layout files good base done tree) {others : List SourceFile}
    (same : ∀ file, file ∈ others ↔ file ∈ done) : Moment layout files good base others tree where
  regular := moment.regular
  made file member := moment.made file ((same file).mp member)
  rest location outside := moment.rest location fun file member => outside file ((same file).mpr member)
  clear := moment.clear

/-- Less may be asked of the products. -/
theorem mono (moment : Moment layout files good base done tree)
    {other : SourceFile → Text.Bytes → Prop}
    (less : ∀ file ∈ done, ∀ bytes, good file bytes → other file bytes) :
    Moment layout files other base done tree where
  regular := moment.regular
  made file member := by
    obtain ⟨fits, bytes, held, isGood⟩ := moment.made file member
    exact ⟨fits, bytes, held, less file member bytes isGood⟩
  rest := moment.rest
  clear := moment.clear

/-- A change that concerns no product is a change of what was there. -/
theorem changes (moment : Moment layout files good base done tree) {location : Location}
    {content : Option Text.Bytes} {after : Tree} (changes : Changes location content tree after)
    (elsewhere : ∀ file ∈ done, placeOf layout file ≠ location) :
    Moment layout files good (Function.update base location content) done after where
  regular := changes.regular
  made file member := by
    obtain ⟨fits, bytes, held, isGood⟩ := moment.made file member
    exact ⟨fits, bytes, by rw [changes.elsewhere (elsewhere file member), held], isGood⟩
  rest other outside := by
    by_cases same : other = location
    · rw [same, changes.here, Function.update_self]
    · rw [changes.elsewhere same, Function.update_of_ne same]
      exact moment.rest other outside
  clear file member asset directory :=
    moment.clear file member asset (changes.directories _ directory)

/-- One product is replaced by another one. -/
theorem replaces (moment : Moment layout files good base done tree) (batch : Batch layout files)
    (within : ∀ file ∈ done, file ∈ files ∧ file.dialect ≠ .declaration) {file : SourceFile}
    (member : file ∈ done) {other : SourceFile → Text.Bytes → Prop} {bytes : Text.Bytes} {after : Tree}
    (changes : Changes (placeOf layout file) (some bytes) tree after) (isGood : other file bytes)
    (same : ∀ another ∈ done, another ≠ file → ∀ bytes, good another bytes → other another bytes) :
    Moment layout files other base done after where
  regular := changes.regular
  made another found := by
    obtain ⟨fits, old, held, known⟩ := moment.made another found
    refine ⟨fits, ?_⟩
    by_cases here : another = file
    · rw [here]
      exact ⟨bytes, changes.here, isGood⟩
    · refine ⟨old, ?_, same another found here old known⟩
      rw [changes.elsewhere, held]
      exact batch.place_ne (within another found).1 (within file member).1 (within another found).2
        (within file member).2 here
  rest location outside := by
    rw [changes.elsewhere (outside file member)]
    exact moment.rest location outside
  clear another found asset directory :=
    moment.clear another found asset (changes.directories _ directory)

/-- More files are done by a call that writes their destinations. -/
theorem gains (moment : Moment layout files good base done tree) (batch : Batch layout files)
    {more : List SourceFile} {after : Tree} (within : ∀ file ∈ done ++ more, file ∈ files)
    (emitted : ∀ file ∈ done ++ more, file.dialect ≠ .declaration)
    (gains : Gains (more.map fun file => layout.destination file.path) tree after)
    (isGood : ∀ file ∈ more, ∀ bytes, after.contentAt? (placeOf layout file) = some bytes →
      good file bytes) :
    Moment layout files good base (done ++ more) after where
  regular := gains.regular
  made file member := by
    by_cases new : file ∈ more
    · have target : layout.destination file.path ∈
          more.map fun file => layout.destination file.path := List.mem_map.mpr ⟨file, new, rfl⟩
      obtain ⟨bytes, held⟩ := Option.isSome_iff_exists.mp (gains.made _ target)
      exact ⟨gains.fits _ target, bytes, held, isGood file new bytes held⟩
    · have old : file ∈ done := (List.mem_append.mp member).resolve_right new
      obtain ⟨fits, bytes, held, known⟩ := moment.made file old
      refine ⟨fits, bytes, ?_, known⟩
      rw [gains.rest, held]
      intro target found
      obtain ⟨other, another, rfl⟩ := List.mem_map.mp found
      exact batch.place_ne (within file member) (within other (List.mem_append_right _ another))
        (emitted file member) (emitted other (List.mem_append_right _ another))
        fun same => new (same ▸ another)
  rest location outside := by
    rw [gains.rest]
    · exact moment.rest location fun file found => outside file (List.mem_append_left _ found)
    · intro target found
      obtain ⟨file, another, rfl⟩ := List.mem_map.mp found
      exact outside file (List.mem_append_right _ another)
  clear file member asset directory := by
    rcases gains.directories _ directory with old | ⟨target, found, front⟩
    · exact moment.clear file member asset old
    · have made := gains.made target found
      obtain ⟨other, another, rfl⟩ := List.mem_map.mp found
      have inside := List.mem_append_right done another
      have same := batch.separate file member asset other (within other inside)
        (emitted other inside) front
      rw [same] at directory
      have none := contentAt?_eq_none_of_directory directory
      change (after.contentAt? (placeOf layout other)).isSome at made
      rw [none] at made
      cases made

end Moment

/-! ### Modules -/

/-- What the compiler makes of a source file among the files that were there. -/
def Makes (tools : Toolchain) (layout : Layout) (options : CompilerOptions) (base : Contents)
    (file : SourceFile) (bytes : Text.Bytes) : Prop :=
  ∃ content, base file.path.parts = some content ∧
    tools.Compiled layout options file.path content bytes

/-- The files of a build that are compiled. -/
def modules (files : List SourceFile) : List SourceFile :=
  Sources.ofDialect .templatedUi files ++ Sources.ofDialect .plain files

section

variable {compiler : Compiler} {layout : Layout} {files : List SourceFile} {options : CompilerOptions}
  {base : Contents} {temporary : Path} {clock : Nat}

/-- The sources of one dialect are those among all that have it. -/
theorem mem_ofDialect {dialect : Dialect} {file : SourceFile} :
    file ∈ Sources.ofDialect dialect files ↔ file ∈ files ∧ file.dialect = dialect := by
  simp [Sources.ofDialect]

/-- The modules are the sources that are compiled. -/
theorem mem_modules {file : SourceFile} :
    file ∈ modules files ↔ file ∈ files ∧ file.dialect.isCompiled := by
  rw [modules, List.mem_append, mem_ofDialect, mem_ofDialect, ← and_or_left]
  refine and_congr_right fun _ => ?_
  cases file.dialect <;> simp [Dialect.isCompiled]

/-- What is compiled is no declaration. -/
theorem emitted_of_isCompiled {dialect : Dialect} (compiled : dialect.isCompiled) :
    dialect ≠ .declaration := by
  rintro rfl
  cases compiled

/-- A moment at which the files that are done have been compiled. -/
abbrev Compiling (tools : Toolchain) (layout : Layout) (files : List SourceFile)
    (options : CompilerOptions) (base : Contents) (done : List SourceFile) : Tree → Prop :=
  Moment layout files (Makes tools layout options base) base done

/-- The sources of one dialect can be compiled by one call. -/
theorem calls_ofDialect (batch : Batch layout files) {dialect : Dialect} (compiled : dialect.isCompiled) :
    Invocation.CallsFiles layout ((Sources.ofDialect dialect files).map SourceFile.path) where
  sourcesAbsolute := batch.placed.sourcesAbsolute
  sourcesProper := batch.placed.sourcesPlain.proper
  outputAbsolute := batch.placed.outputAbsolute
  outputProper := batch.placed.outputPlain.proper
  absolute path member := by
    obtain ⟨file, found, rfl⟩ := List.mem_map.mp member
    exact batch.absolute file (mem_ofDialect.mp found).1
  proper path member := by
    obtain ⟨file, found, rfl⟩ := List.mem_map.mp member
    exact (batch.plain file (mem_ofDialect.mp found).1).proper
  compiled path member := by
    obtain ⟨file, found, rfl⟩ := List.mem_map.mp member
    obtain ⟨inside, same⟩ := mem_ofDialect.mp found
    rw [← batch.dialect file inside, same]
    exact compiled

/-- The destinations of files of one dialect are apart. -/
theorem nodup_ofDialect (batch : Batch layout files) {dialect : Dialect}
    (emitted : dialect ≠ .declaration) :
    ((Sources.ofDialect dialect files).map (placeOf layout)).Nodup := by
  refine batch.apart.sublist (List.Sublist.map _ ?_)
  refine List.monotone_filter_right files fun file isOf => ?_
  have same : file.dialect = dialect := by simpa using isOf
  simpa [same] using emitted

/-- No file is listed twice among the modules. -/
theorem nodup_modules (batch : Batch layout files) : (modules files).Nodup := by
  have once : ∀ dialect : Dialect, dialect ≠ .declaration → (Sources.ofDialect dialect files).Nodup :=
    fun dialect emitted => List.Nodup.of_map _ (nodup_ofDialect batch emitted)
  refine List.nodup_append.mpr ⟨once _ (by decide), once _ (by decide), ?_⟩
  rintro file markup _ plain rfl
  have first := (mem_ofDialect.mp markup).2
  rw [(mem_ofDialect.mp plain).2] at first
  cases first

/-- What a call makes of plain files. -/
theorem plain_gains (writes : compiler.tools.WritesTargets layout) (batch : Batch layout files)
    (present : ∀ file ∈ files, ∃ content, base file.path.parts = some content)
    {before after : Tree} {output errors : String}
    (moment : Compiling compiler.tools layout files options base [] before)
    (ran : compiler.tools.run (Compiler.filesCall compiler.program layout options
      ((Sources.ofDialect .plain files).map SourceFile.path)) before =
        (.finished 0 output errors, after)) :
    Compiling compiler.tools layout files options base (Sources.ofDialect .plain files) after := by
  have calls : Invocation.CallsFiles layout ((Sources.ofDialect .plain files).map SourceFile.path) :=
    calls_ofDialect batch rfl
  have targets := Compiler.targets_filesCall calls compiler.program options
  have gains := writes _ before after output errors (.files compiler.program options _ calls)
    moment.regular (by
      rw [targets]
      intro target member
      obtain ⟨path, found, rfl⟩ := List.mem_map.mp member
      obtain ⟨file, inside, rfl⟩ := List.mem_map.mp found
      exact batch.destination_isPlain (mem_ofDialect.mp inside).1) ran
  rw [targets, List.map_map] at gains
  refine moment.gains batch (fun file member => (mem_ofDialect.mp member).1)
    (fun file member => by simp [(mem_ofDialect.mp member).2]) gains fun file member bytes held => ?_
  obtain ⟨inside, dialect⟩ := mem_ofDialect.mp member
  obtain ⟨content, was⟩ := present file inside
  refine ⟨content, was, ?_⟩
  refine .plain compiler.program _ before after output errors ?_ calls ?_ ?_
    (List.mem_map.mpr ⟨file, member, rfl⟩) moment.regular ?_ ran held
  · rw [← batch.dialect file inside, dialect]
  · intro path found
    obtain ⟨other, another, rfl⟩ := List.mem_map.mp found
    exact batch.plain other (mem_ofDialect.mp another).1
  · rw [List.map_map]
    exact nodup_ofDialect batch (by decide)
  · rw [moment.source batch (by simp) inside, was]

/-- Plain files are compiled by one call. -/
theorem compilePlain_makes (writes : compiler.tools.WritesTargets layout) (batch : Batch layout files)
    (present : ∀ file ∈ files, ∃ content, base file.path.parts = some content) :
    Ends (Session.Shows (Compiling compiler.tools layout files options base []) temporary clock)
      (compilePlain compiler options layout (Sources.ofDialect .plain files))
      (fun outputs session =>
        outputs = (Sources.ofDialect .plain files).map (fun file => layout.destination file.path) ∧
        Session.Shows (Compiling compiler.tools layout files options base
          (Sources.ofDialect .plain files)) temporary clock session)
      (fun _ => True) := by
  have called : Ends
      (Session.Shows (Compiling compiler.tools layout files options base []) temporary clock)
      (compiler.buildEntryPoints ((Sources.ofDialect .plain files).map SourceFile.path) options layout)
      (fun _ => Session.Shows (Compiling compiler.tools layout files options base
        (Sources.ofDialect .plain files)) temporary clock) (fun _ => True) := by
    unfold Compiler.buildEntryPoints
    split
    · rename_i empty
      have none : Sources.ofDialect .plain files = [] := by simpa using empty
      rw [none]
      exact .pure fun _ shown => shown
    · refine Ends.discard (Compiler.run_ends compiler _ _ _ (fun _ => Session.Shows.silent)
        (fun session output errors tree shown ran => ?_) fun _ _ _ _ _ => trivial)
      exact ⟨plain_gains writes batch present shown.tree ran, shown.temporary, shown.clock⟩
  unfold compilePlain
  exact called.bind fun _ => .pure fun _ shown => ⟨rfl, shown⟩

/-- What a call makes of the text of a file with markup. -/
theorem markup_gains (writes : compiler.tools.WritesTargets layout) (batch : Batch layout files)
    {front : List SourceFile} {file : SourceFile} (within : ∀ other ∈ front, other ∈ modules files)
    (member : file ∈ files) (isMarkup : file.dialect = .templatedUi)
    {before after : Tree} {text output errors : String} {content : Text.Bytes} {directory : Path}
    (moment : Compiling compiler.tools layout files options base front before)
    (read : before.read file.path = .ok content) (decoded : Text.Utf8.decode content = .ok text)
    (ran : compiler.tools.run (Compiler.textCall compiler.program options file.path
      (layout.destination file.path)
      (Compiler.withPreamble (String.ofList (Text.unifyLineEnds text.toList))) directory) before =
        (.finished 0 output errors, after)) :
    Compiling compiler.tools layout files options base (front ++ [file]) after := by
  have absolute := batch.destination_isAbsolute member
  have plain := batch.destination_isPlain member
  have targets := Compiler.targets_textCall compiler.program options file.path
    (Compiler.withPreamble (String.ofList (Text.unifyLineEnds text.toList))) directory absolute
    plain.proper
  have gains := writes _ before after output errors
    (.text compiler.program options file.path _ _ directory absolute plain.proper) moment.regular
    (by
      rw [targets]
      intro target found
      exact List.mem_singleton.mp found ▸ plain) ran
  rw [targets] at gains
  have inside : ∀ other ∈ front ++ [file], other ∈ files ∧ other.dialect ≠ .declaration := by
    intro other found
    rcases List.mem_append.mp found with found | found
    · have compiled := mem_modules.mp (within other found)
      exact ⟨compiled.1, emitted_of_isCompiled compiled.2⟩
    · rw [List.mem_singleton.mp found]
      exact ⟨member, by simp [isMarkup]⟩
  refine moment.gains batch (fun other found => (inside other found).1)
    (fun other found => (inside other found).2) gains fun other found bytes held => ?_
  rw [List.mem_singleton.mp found] at held ⊢
  have was : base file.path.parts = some content := by
    rw [← moment.source batch (fun other found => (mem_modules.mp (within other found)).1) member]
    exact ((moment.regular.read_iff (batch.plain file member)).mp read).2
  refine ⟨content, was, .markup compiler.program text directory before after output errors ?_
    (batch.absolute file member) (batch.plain file member) moment.regular decoded ran held⟩
  rw [← batch.dialect file member, isMarkup]

/-- A file with markup is compiled by a call of its own. -/
theorem compileMarkup_makes (writes : compiler.tools.WritesTargets layout) (batch : Batch layout files)
    {front : List SourceFile} {file : SourceFile} (within : ∀ other ∈ front, other ∈ modules files)
    (member : file ∈ files) (isMarkup : file.dialect = .templatedUi) :
    Ends (Session.Shows (Compiling compiler.tools layout files options base front) temporary clock)
      (compileMarkup compiler options layout file)
      (fun output session => output = layout.destination file.path ∧
        Session.Shows (Compiling compiler.tools layout files options base (front ++ [file]))
          temporary clock session)
      (fun _ => True) := by
  unfold compileMarkup
  refine ((Ends.readText _).mono (fun _ shown => shown) (fun _ _ told => told)
    fun _ _ => trivial).bind fun source => ?_
  refine Ends.of_forall fun state ⟨⟨content, text, held, decoded, same⟩, shown⟩ => ?_
  subst same
  refine Ends.through (fun _ => Session.Shows
    (Compiling compiler.tools layout files options base (front ++ [file])) temporary clock) ?_
    fun _ => .pure fun _ shown => ⟨rfl, shown⟩
  unfold Compiler.buildBuffer
  refine ((Ends.askFiles _).mono (fun _ shown => shown) (fun _ _ told => told.2)
    fun _ _ => trivial).bind fun present => ?_
  refine Ends.discard (Compiler.run_ends compiler _ _ _ (fun _ => Session.Shows.silent)
    (fun session output errors tree start ran => ?_) fun _ _ _ _ _ => trivial)
  subst start
  exact ⟨markup_gains writes batch within member isMarkup shown.tree held decoded ran,
    shown.temporary, shown.clock⟩

/-- The outputs of a compilation, if no file has failed. -/
theorem outputs_of_verdict {markup : List (Except Fault Path)} {plain : Except Fault (List Path)}
    {outputs : List Path} (told : verdict markup plain = .ok outputs) :
    ∃ first second, Action.allOrFirst markup = .ok first ∧ plain = .ok second ∧
      outputs = first ++ second := by
  obtain ⟨first, firstTold, told⟩ := exists_of_bind_eq_ok told
  obtain ⟨second, secondTold, told⟩ := exists_of_bind_eq_ok told
  exact ⟨first, second, firstTold, secondTold, (Except.ok.inj told).symm⟩

/-- A compilation goes through the plain files and then through those with markup, one after another, as long
as none of them fails. It answers with their destinations. -/
theorem compile_answers {before : Session → Prop} {holds : List SourceFile → Session → Prop}
    (plain : Ends before (compilePlain compiler options layout (Sources.ofDialect .plain files))
      (fun outputs session => outputs = (Sources.ofDialect .plain files).map
        (fun file => layout.destination file.path) ∧ holds [] session) fun _ => True)
    (markup : ∀ front file back, Sources.ofDialect .templatedUi files = front ++ file :: back →
      Ends (holds front) (compileMarkup compiler options layout file) (fun output session =>
        output = layout.destination file.path ∧ holds (front ++ [file]) session) fun _ => True) :
    Ends before (compile compiler options layout files)
      (fun outputs session => outputs = (modules files).map (fun file => layout.destination file.path) ∧
        holds (Sources.ofDialect .templatedUi files) session) (fun _ => True) := by
  unfold compile
  refine (Ends.settle_singleton plain).bind fun plainResults => ?_
  refine Ends.of_forall fun state known => ?_
  rcases known with ⟨outputs, rfl, same, start⟩ | ⟨fault, rfl⟩
  · refine ((Ends.settle_list markup).mono (fun session here => ?_) (fun _ _ told => told)
      fun _ _ => trivial).bind fun markupResults => ?_
    · subst here
      exact start
    split
    · rename_i all told
      refine .pure fun session known => ?_
      obtain ⟨first, second, firstTold, secondTold, rfl⟩ := outputs_of_verdict told
      obtain ⟨each, final⟩ := known first firstTold
      have ofMarkup : (Sources.ofDialect .templatedUi files).map
          (fun file => layout.destination file.path) = first := by
        have pairs := List.forall₂_map_left_iff.mpr (each.imp fun _ _ same => same.symm)
        rwa [List.forall₂_eq_eq_eq] at pairs
      have ofPlain : second = outputs := by
        simpa [Action.allOrFirst, Except.map, eq_comm] using secondTold
      exact ⟨by rw [modules, List.map_append, ofMarkup, ofPlain, same], final⟩
    · exact .throw fun _ _ => trivial
  · refine (Ends.any _).bind fun markupResults => ?_
    split
    · rename_i all told
      obtain ⟨first, second, -, secondTold, -⟩ := outputs_of_verdict told
      cases secondTold
    · exact .throw fun _ _ => trivial

/-- A compilation makes the modules of all its files, plain ones first. -/
theorem compile_makes (writes : compiler.tools.WritesTargets layout) (batch : Batch layout files)
    (present : ∀ file ∈ files, ∃ content, base file.path.parts = some content) :
    Ends (Session.Shows (Compiling compiler.tools layout files options base []) temporary clock)
      (compile compiler options layout files)
      (fun outputs => Session.Shows (fun tree =>
        outputs = (modules files).map (fun file => layout.destination file.path) ∧
          Compiling compiler.tools layout files options base (modules files) tree) temporary clock)
      (fun _ => True) := by
  have plain : Ends (Session.Shows (Compiling compiler.tools layout files options base []) temporary clock)
      (compilePlain compiler options layout (Sources.ofDialect .plain files))
      (fun outputs session => outputs = (Sources.ofDialect .plain files).map
        (fun file => layout.destination file.path) ∧
          Session.Shows (Compiling compiler.tools layout files options base
            (Sources.ofDialect .plain files ++ [])) temporary clock session) fun _ => True := by
    rw [List.append_nil]
    exact compilePlain_makes writes batch present
  refine (@compile_answers compiler layout files options _ (fun front => Session.Shows (Compiling compiler.tools
    layout files options base (Sources.ofDialect .plain files ++ front)) temporary clock) plain ?_).mono
    (fun _ shown => shown) (fun outputs session known => ?_) fun _ _ => trivial
  · intro front file back split
    have member : file ∈ Sources.ofDialect .templatedUi files := by simp [split]
    obtain ⟨inside, isMarkup⟩ := mem_ofDialect.mp member
    have within : ∀ other ∈ Sources.ofDialect .plain files ++ front, other ∈ modules files := by
      intro other found
      rcases List.mem_append.mp found with early | late
      · exact List.mem_append_right _ early
      · exact List.mem_append_left _ (split ▸ List.mem_append_left _ late)
    rw [← List.append_assoc]
    exact compileMarkup_makes writes batch within inside isMarkup
  · obtain ⟨same, final⟩ := known
    exact ⟨⟨same, final.tree.of_mem fun file => by simp [modules, or_comm]⟩, final.temporary, final.clock⟩

/-- The copy of the configuration is gone when it has been removed. -/
theorem removeCopy_leaves {good : SourceFile → Text.Bytes → Prop} {done : List SourceFile} {copy : Path}
    (plain : copy.IsPlain) (elsewhere : ∀ file ∈ done, placeOf layout file ≠ copy.parts) :
    Ends (Session.Shows (Moment layout files good base done) temporary clock)
      (Configuration.removeCopy copy)
      (fun _ => Session.Shows (Moment layout files good (Function.update base copy.parts none) done)
        temporary clock) (fun _ => True) := by
  refine .changeFiles (fun session tree shown changed => ?_) fun _ _ _ _ => trivial
  refine ⟨?_, shown.temporary, shown.clock⟩
  have moment := shown.tree
  split at changed
  · rename_i text missing
    cases changed
    have none := moment.regular.contentAt?_of_unlink_error plain missing
    have same : Function.update base copy.parts .none = base := by
      refine Function.update_eq_self_iff.mpr ?_
      rw [← moment.rest copy.parts fun file member same => elsewhere file member same.symm, none]
    rw [same]
    exact moment
  · exact moment.changes (moment.regular.unlink plain changed) elsewhere

/-! ### Assets -/

/-- An asset is copied to its destination. -/
theorem copyAsset_makes {good : SourceFile → Text.Bytes → Prop} (batch : Batch layout files)
    {done : List SourceFile} {file : SourceFile} (member : file ∈ files)
    (within : ∀ other ∈ done, other ∈ files ∧ other.dialect ≠ .declaration) (asset : file.dialect = .asset)
    (isGood : ∀ bytes, base file.path.parts = some bytes → good file bytes) :
    Ends (Session.Shows (Moment layout files good base done) temporary clock)
      (Output.copyAsset layout file)
      (fun output session => output = layout.destination file.path ∧
        Session.Shows (Moment layout files good base (done ++ [file])) temporary clock session)
      (fun _ => True) := by
  have plain := batch.destination_isPlain member
  have plainParent : (layout.destination file.path).parent.IsPlain := fun part inside =>
    plain part (List.dropLast_subset _ inside)
  have made : Ends (Session.Shows (Moment layout files good base done) temporary clock)
      (Action.alterFiles (·.makeDirectories (layout.destination file.path).parent))
      (fun _ => Session.Shows (Moment layout files good base done) temporary clock)
      (fun _ => True) := by
    refine .alterFiles (fun session shown _ => ?_) fun _ _ => trivial
    have moment := shown.tree
    have same := moment.regular.makeDirectories plainParent
    refine ⟨⟨same.regular, ?_, ?_, fun other found isAsset directory => ?_⟩, shown.temporary, shown.clock⟩
    · simpa only [same.contents] using moment.made
    · simpa only [same.contents] using moment.rest
    · rcases moment.regular.directory_of_makeDirectories plainParent directory with old | front
      · exact moment.clear other found isAsset old
      · have above : placeOf layout other <+: placeOf layout file := front.trans (List.dropLast_prefix _)
        have equal := batch.separate other found isAsset file member (by simp [asset]) above
        have short : (placeOf layout file).length ≤ (placeOf layout file).dropLast.length := by
          rw [equal] at front
          exact front.length_le
        have nonempty : placeOf layout file ≠ [] := by
          intro empty
          exact moment.clear file member asset (empty ▸ rfl)
        have positive := List.length_pos_iff.mpr nonempty
        rw [List.length_dropLast] at short
        omega
  have copied : Ends (Session.Shows (Moment layout files good base done) temporary clock)
      (Action.changeFiles (·.copyFile file.path (layout.destination file.path)))
      (fun _ => Session.Shows (Moment layout files good base (done ++ [file])) temporary clock)
      (fun _ => True) := by
    refine .changeFiles (fun session tree shown copied => ?_) fun _ _ _ _ => trivial
    have moment := shown.tree
    obtain ⟨content, held, -, fits, changes⟩ := moment.regular.copyFile (batch.plain file member) plain
      (moment.clear file member asset) copied
    refine ⟨?_, shown.temporary, shown.clock⟩
    have gains : Gains ([file].map fun file => layout.destination file.path) session.tree tree := by
      refine ⟨changes.regular, by simpa using fits, by simp [changes.here], fun location outside => ?_,
        fun location directory => .inl (changes.directories location directory)⟩
      exact changes.elsewhere (outside _ (by simp))
    refine moment.gains batch (fun other found => ?_) (fun other found => ?_) gains
      fun other found bytes here => ?_
    · rcases List.mem_append.mp found with old | new
      · exact (within other old).1
      · exact List.mem_singleton.mp new ▸ member
    · rcases List.mem_append.mp found with old | new
      · exact (within other old).2
      · simp [List.mem_singleton.mp new, asset]
    · rw [List.mem_singleton.mp found] at here ⊢
      have same : bytes = content := Option.some.inj (here.symm.trans changes.here)
      rw [same]
      refine isGood content ?_
      rw [← moment.source batch (fun other found => (within other found).1) member, held]
  unfold Output.copyAsset
  dsimp only
  exact made.bind fun _ => copied.bind fun _ => .pure fun _ shown => ⟨rfl, shown⟩

/-- Modules and assets together are what is emitted. -/
theorem mem_modules_append {file : SourceFile} :
    file ∈ modules files ++ Sources.ofDialect .asset files ↔ file ∈ emitted files := by
  rw [List.mem_append, mem_modules, mem_ofDialect, mem_emitted, ← and_or_left]
  refine and_congr_right fun _ => ?_
  cases file.dialect <;> simp [Dialect.isCompiled]

/-- The destination of an asset is the answer of its copy. -/
theorem copyAsset_answers {file : SourceFile} {before : Session → Prop} :
    Ends before (Output.copyAsset layout file) (fun output _ => output = layout.destination file.path)
      (fun _ => True) := by
  unfold Output.copyAsset
  exact (Ends.any _).bind fun _ => (Ends.any _).bind fun _ => .pure fun _ _ => rfl

/-- Assets are copied if each of them is. -/
theorem copyAssets_answers {before : Session → Prop} {after : List Path → Session → Prop}
    (all : Ends before (Action.all (files.map (Output.copyAsset layout))) after fun _ => True) :
    Ends before (Output.copyAssets files layout) after (fun _ => True) := by
  have attempted : Ends before (Action.attempt (Action.all (files.map (Output.copyAsset layout))))
      (fun result session => ∀ outputs, result = .ok outputs → after outputs session) (fun _ => True) := by
    refine Ends.attempt (all.mono (fun _ start => start) ?_ ?_)
    · intro outputs session known other equal
      exact Except.ok.inj equal ▸ known
    · intro session _ fault outputs impossible
      cases impossible
  unfold Output.copyAssets
  refine attempted.bind fun result => ?_
  split
  · exact .pure fun _ told => told _ rfl
  · exact .throw fun _ _ => trivial
  · exact .throw fun _ _ => trivial

/-- All assets are copied to their destinations. -/
theorem copyAssets_makes {good : SourceFile → Text.Bytes → Prop} (batch : Batch layout files)
    (isGood : ∀ file ∈ files, file.dialect = .asset → ∀ bytes, base file.path.parts = some bytes →
      good file bytes) :
    Ends (Session.Shows (Moment layout files good base (modules files)) temporary clock)
      (Output.copyAssets (Sources.ofDialect .asset files) layout)
      (fun _ => Session.Shows (Moment layout files good base
        (modules files ++ Sources.ofDialect .asset files)) temporary clock) (fun _ => True) := by
  have all := @Ends.all_list _ _ (Sources.ofDialect .asset files) (Output.copyAsset layout)
    (fun front => Session.Shows (Moment layout files good base (modules files ++ front)) temporary clock)
    (fun file output => output = layout.destination file.path) (by
      intro front file back split
      have listed : file ∈ Sources.ofDialect .asset files := by simp [split]
      obtain ⟨member, asset⟩ := mem_ofDialect.mp listed
      rw [← List.append_assoc]
      refine copyAsset_makes batch member (fun other found => ?_) asset (isGood file member asset)
      rcases List.mem_append.mp found with early | late
      · have compiled := mem_modules.mp early
        exact ⟨compiled.1, emitted_of_isCompiled compiled.2⟩
      · have inside : other ∈ Sources.ofDialect .asset files := by simp [split, late]
        exact ⟨(mem_ofDialect.mp inside).1, by simp [(mem_ofDialect.mp inside).2]⟩)
  refine copyAssets_answers (all.mono (fun _ shown => ?_) (fun _ _ known => known.2) fun _ _ => trivial)
  simpa using shown

/-! ### Specifiers -/

/-- Whether there is a file at a path once files are done, among those that were there before. -/
def standing (layout : Layout) (done : List SourceFile) (base : Contents) (path : Path) : Bool :=
  decide path.Fits && (decide (path.parts ∈ done.map (placeOf layout)) || (base path.parts).isSome)

/-- At a moment of a build a file is at a path if it is the product of a file that is done, or was there before.
-/
theorem Moment.holdsFile_eq {good : SourceFile → Text.Bytes → Prop} {done : List SourceFile} {tree : Tree}
    (moment : Moment layout files good base done tree) (path : Path) :
    tree.holdsFile path = standing layout done base path := by
  rw [holdsFile, standing]
  congr 1
  by_cases product : path.parts ∈ done.map (placeOf layout)
  · obtain ⟨file, member, same⟩ := List.mem_map.mp product
    obtain ⟨-, bytes, held, -⟩ := moment.made file member
    rw [decide_eq_true product, ← same, held]
    rfl
  · rw [moment.rest path.parts fun file member same =>
      product (List.mem_map.mpr ⟨file, member, same.symm⟩)]
    simp [product]

/-- What becomes of a module when its specifiers are rewritten while there are these files. It is written
again only if a specifier has been replaced. -/
def Rewritten (has : Path → Bool) (path : Path) (raw bytes : Text.Bytes) : Prop :=
  ∃ (tree : Tree) (text : String) (normalized : Specifier.Normalized), tree.IsRegular ∧
    (∀ other, tree.holdsFile other = has other) ∧ Text.Utf8.decode raw = .ok text ∧
    Specifier.normalizeText tree path.parent path.toString
      (String.ofList (Text.unifyLineEnds text.toList)) = .ok normalized ∧
    bytes = if normalized.rewritten = 0 then raw else Text.Utf8.encode normalized.text

/-- The products at a moment at which the specifiers of some modules have been rewritten. -/
def Rewriting (layout : Layout) (good : SourceFile → Text.Bytes → Prop) (has : Path → Bool)
    (front : List SourceFile) (file : SourceFile) (bytes : Text.Bytes) : Prop :=
  if file ∈ front then ∃ raw, good file raw ∧ Rewritten has (layout.destination file.path) raw bytes
  else good file bytes

section

variable {good : SourceFile → Text.Bytes → Prop} {done front : List SourceFile} {file : SourceFile}

/-- One more module is rewritten: the others are as before, and this one becomes what it is rewritten to. -/
theorem rewriting_append (fresh : file ∉ front) {has : Path → Bool} :
    (∀ other ∈ done, other ≠ file → ∀ bytes, Rewriting layout good has front other bytes →
      Rewriting layout good has (front ++ [file]) other bytes) ∧
    ∀ raw bytes, Rewriting layout good has front file raw →
      Rewritten has (layout.destination file.path) raw bytes →
      Rewriting layout good has (front ++ [file]) file bytes := by
  refine ⟨fun other _ different bytes known => ?_, fun raw bytes known rewritten => ?_⟩
  · simpa [Rewriting, different] using known
  · rw [Rewriting, if_neg fresh] at known
    rw [Rewriting, if_pos (by simp)]
    exact ⟨raw, known, rewritten⟩

/-- The specifiers of one module are rewritten. -/
theorem normalizeFile_makes (batch : Batch layout files)
    (within : ∀ file ∈ done, file ∈ files ∧ file.dialect ≠ .declaration) (member : file ∈ done)
    (fresh : file ∉ front) (source : Option SourceFile) :
    Ends (Session.Shows (Moment layout files
        (Rewriting layout good (standing layout done base) front) base done) temporary clock)
      (Specifier.normalizeFile (layout.destination file.path) source)
      (fun _ => Session.Shows (Moment layout files
        (Rewriting layout good (standing layout done base) (front ++ [file])) base done)
        temporary clock) (fun _ => True) := by
  have isPlain := batch.destination_isPlain (within file member).1
  obtain ⟨others, here⟩ := @rewriting_append layout good done front file fresh
    (standing layout done base)
  have finishes (normalized : Specifier.Normalized) : Ends
      (Session.Shows (Moment layout files
        (Rewriting layout good (standing layout done base) (front ++ [file])) base done) temporary clock)
      (do
        for unresolved in normalized.unresolved do
          Action.record Specifier.logSource .warning unresolved.message
        return {
          path := layout.destination file.path
          source
          specifiers := specifiers normalized.text
          rewritten := normalized.rewritten
          unresolved := normalized.unresolved : Specifier.FileResult })
      (fun _ => Session.Shows (Moment layout files
        (Rewriting layout good (standing layout done base) (front ++ [file])) base done)
        temporary clock) (fun _ => True) := by
    have recorded := @Keeps.forIn _ (Session.Shows (Moment layout files
      (Rewriting layout good (standing layout done base) (front ++ [file])) base done) temporary clock)
      _ normalized.unresolved (fun unresolved =>
        Action.record Specifier.logSource .warning unresolved.message)
      fun _ _ => Keeps.record Session.Shows.silent _ _ _
    exact Ends.bind (Ends.mono recorded (fun _ shown => shown) (fun _ _ shown => shown)
      fun _ _ => trivial) fun _ => .pure fun _ shown => shown
  unfold Specifier.normalizeFile
  refine ((Ends.readText _).mono (fun _ shown => shown) (fun _ _ told => told)
    fun _ _ => trivial).bind fun text => ?_
  refine ((Ends.ask _).mono (fun _ shown => shown) (fun _ _ told => told)
    fun _ _ => trivial).bind fun normalized => ?_
  refine Ends.of_forall fun state ⟨told, ⟨raw, decoded, found, decodes, same⟩, shown⟩ => ?_
  subst same
  have moment := shown.tree
  obtain ⟨fits, bytes, held, known⟩ := moment.made file member
  have isRaw : bytes = raw :=
    Option.some.inj (held.symm.trans ((moment.regular.read_iff isPlain).mp found).2)
  subst isRaw
  have becomes : Rewritten (standing layout done base) (layout.destination file.path) bytes
      (if normalized.rewritten = 0 then bytes else Text.Utf8.encode normalized.text) :=
    ⟨state.tree, decoded, normalized, moment.regular, moment.holdsFile_eq, decodes, told, rfl⟩
  dsimp only
  split
  · rename_i rewritten
    rw [if_neg rewritten] at becomes
    refine Ends.bind (.changeFiles (fun session tree start written => ?_) fun _ _ _ _ => trivial)
      fun _ => finishes normalized
    subst start
    obtain ⟨-, changes⟩ := moment.regular.write isPlain written
    exact ⟨moment.replaces batch within member changes (here _ _ known becomes) others,
      shown.temporary, shown.clock⟩
  · rename_i untouched
    rw [if_pos (by simpa using untouched)] at becomes
    refine (finishes normalized).mono (fun session start => ?_) (fun _ _ shown => shown)
      fun _ _ => trivial
    subst start
    have unchanged : Changes (placeOf layout file) (some bytes) session.tree session.tree :=
      ⟨moment.regular, by rw [← held, Function.update_eq_self], fun _ directory => directory⟩
    exact ⟨moment.replaces batch within member unchanged (here _ _ known becomes) others,
      shown.temporary, shown.clock⟩

/-- A question that is answered with yes by all items leaves none of them out. -/
theorem filterM_of_forall {Item Failure : Type} {question : Item → Except Failure Bool}
    {items : List Item} (all : ∀ item ∈ items, question item = .ok true) :
    items.filterM question = .ok items := by
  have gathered : ∀ (rest : List Item), (∀ item ∈ rest, question item = .ok true) →
      ∀ taken, rest.filterAuxM question taken = .ok (rest.reverse ++ taken) := by
    intro rest
    induction rest with
    | nil => exact fun _ taken => rfl
    | cons item rest inductionHypothesis =>
      intro every taken
      rw [List.filterAuxM, every item List.mem_cons_self]
      have further := inductionHypothesis (fun other member =>
        every other (List.mem_cons_of_mem _ member)) (item :: taken)
      simpa [bind, Except.bind] using further
  rw [List.filterM, gathered items all []]
  simp [bind, Except.bind, pure, Except.pure]

/-- The specifiers of all modules are rewritten, each while all products are there. -/
theorem normalizeFiles_makes (batch : Batch layout files)
    (within : ∀ file ∈ done, file ∈ files ∧ file.dialect ≠ .declaration)
    (inside : ∀ file ∈ modules files, file ∈ done) (source : Path → Option SourceFile) :
    Ends (Session.Shows (Moment layout files good base done) temporary clock)
      (Specifier.normalizeFiles
        ((modules files).map fun file => layout.destination file.path) source)
      (fun _ => Session.Shows (Moment layout files
        (Rewriting layout good (standing layout done base) (modules files)) base done)
        temporary clock) (fun _ => True) := by
  have nodup := nodup_modules batch
  have all := @Ends.all_list _ _ (modules files)
    (fun file => Specifier.normalizeFile (layout.destination file.path)
      (source (layout.destination file.path)))
    (fun front => Session.Shows (Moment layout files
      (Rewriting layout good (standing layout done base) front) base done) temporary clock)
    (fun _ _ => True) (by
      intro front file back split
      have member : file ∈ modules files := by simp [split]
      have fresh : file ∉ front := by
        rw [split] at nodup
        intro again
        exact (List.nodup_append.mp nodup).2.2 file again file List.mem_cons_self rfl
      exact (normalizeFile_makes batch within (inside file member) fresh _).mono
        (fun _ shown => shown) (fun _ _ shown => ⟨trivial, shown⟩) fun _ _ => trivial)
  unfold Specifier.normalizeFiles
  refine ((Ends.askFiles _).mono (fun _ shown => shown) (fun _ _ told => told)
    fun _ _ => trivial).bind fun existing => ?_
  refine Ends.of_forall fun state ⟨told, shown⟩ => ?_
  have moment := shown.tree
  have every : ∀ path ∈ (modules files).map (fun file => layout.destination file.path),
      state.tree.isFile path = .ok true := by
    intro path listed
    obtain ⟨file, member, rfl⟩ := List.mem_map.mp listed
    obtain ⟨fits, bytes, held, -⟩ := moment.made file (inside file member)
    obtain ⟨executable, present⟩ := contentAt?_eq_some.mp held
    have isPlain := batch.destination_isPlain (within file (inside file member)).1
    exact Tree.isFile_iff.mpr ⟨bytes, executable,
      (moment.regular.status_iff isPlain).mpr ⟨fits, present⟩⟩
  have same : existing = (modules files).map fun file => layout.destination file.path :=
    Except.ok.inj (told.symm.trans (filterM_of_forall every))
  subst same
  rw [List.map_map]
  refine all.mono (fun session start => ?_) (fun _ _ known => known.2) fun _ _ => trivial
  subst start
  refine ⟨moment.mono fun file member bytes known => ?_, shown.temporary, shown.clock⟩
  simpa [Rewriting] using known

end

end

end Build

end TreeBuild
