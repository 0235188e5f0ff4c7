import TreeBuild.Proofs.Build.Products
import TreeBuild.Proofs.Output.Linkage

/-!
# What a build leaves behind

A build of a batch ends with all products at their destinations and with a descriptor that declares how
they are linked; everything else is as it was once the output had been cleared, except that the copy of
the compiler configuration, which was made on the way, is gone. What an asset leads to is the asset
itself. What a module leads to is what the compiler has made of it, with its specifiers rewritten while
all modules and assets are there.
-/
namespace TreeBuild.Build

open TreeBuild.Tree

/-- What a source file leads to, where these files are there. -/
def Product (tools : Toolchain) (layout : Layout) (options : CompilerOptions) (rewrites : Bool)
    (has : Path → Bool) (base : Contents) (file : SourceFile) (bytes : Text.Bytes) : Prop :=
  if file.dialect.isCompiled then
    ∃ raw, Makes tools layout options base file raw ∧
      if rewrites then Rewritten has (layout.destination file.path) raw bytes else bytes = raw
  else base file.path.parts = some bytes

/-- What files hold once the output has been patched. -/
structure Patched (layout : Layout) (format : OutputFormat) (before after : Tree) : Prop where
  regular : after.IsRegular
  contents : ∃ descriptor,
    Output.Patches format (before.contentAt? (Output.descriptorOf layout.output).parts) descriptor ∧
      after.contentAt? =
        Function.update before.contentAt? (Output.descriptorOf layout.output).parts descriptor

/-- What a build of files leaves behind, given what was there once the output had been cleared and where
the copy of the configuration was. -/
def Results (tools : Toolchain) (layout : Layout) (request : Request) (rewrites : Bool)
    (files : List SourceFile) (base : Contents) (copy : Path) (after : Tree) : Prop :=
  ∃ (options : CompilerOptions) (middle : Tree),
    CompilerOptions.Chosen request (base layout.descriptor.parts) (some copy) options ∧
    Moment layout files
      (Product tools layout options rewrites
        (standing layout (emitted files) (Function.update base copy.parts none)) base)
      (Function.update base copy.parts none) (emitted files) middle ∧
    Patched layout request.format middle after

/-- The files that a build finds, as far as they matter. -/
structure Prospect (layout : Layout) (files : List SourceFile) (base : Contents)
    (cleared : Tree → Prop) : Prop where
  batch : Batch layout files
  present : ∀ file ∈ files, ∃ content, base file.path.parts = some content
  regular : ∀ tree, cleared tree → tree.IsRegular
  contents : ∀ tree, cleared tree → tree.contentAt? = base
  clear : ∀ tree, cleared tree → ∀ file ∈ files, file.dialect = .asset →
    tree.get? (placeOf layout file) ≠ some .directory

section

variable {compiler : Compiler} {request : Request} {layout : Layout} {environment : Environment}
  {temporary : Path} {clock : Nat} {base : Contents} {cleared : Tree → Prop}
  {files : List SourceFile}

/-- A file with this suffix is neither compiled nor a declaration. -/
theorem ofName_of_json {name : String} {front : List Char} (letters : name.toList = front ++ ".json".toList)
    (nonempty : front ≠ []) : Dialect.ofName name = .asset := by
  have lower : name.toList.map Text.lowerAscii = front.map Text.lowerAscii ++ ['.', 'j', 's', 'o', 'n'] := by
    rw [letters, List.map_append]
    rfl
  have backward : (String.ofList (name.toList.map Text.lowerAscii)).toList.reverse =
      'n' :: 'o' :: 's' :: 'j' :: '.' :: (front.map Text.lowerAscii).reverse := by
    rw [String.toList_ofList, lower, List.reverse_append]
    rfl
  have suffix : Path.suffixOf (String.ofList (name.toList.map Text.lowerAscii)) = ".json" := by
    have cut : (front.map Text.lowerAscii).reverse.isEmpty = false := by simp [nonempty]
    unfold Path.suffixOf Path.splitSuffix
    rw [backward]
    simp [List.takeWhile, List.dropWhile, cut]
  have noDeclaration : (Dialect.declarationEndings.any fun ending =>
      ending.toList.isSuffixOf (name.toList.map Text.lowerAscii)) = false := by
    rw [List.any_eq_false]
    intro ending member
    rw [lower, List.isSuffixOf_iff_suffix]
    rintro ⟨rest, same⟩
    have last := congrArg List.getLast? same
    simp only [Dialect.declarationEndings, List.mem_cons, List.not_mem_nil, or_false] at member
    rcases member with rfl | rfl | rfl <;> simp at last
  unfold Dialect.ofName
  simp only [noDeclaration, suffix]
  decide

/-- A copy of the configuration has the name of an asset. -/
theorem dialect_copyPath (temporary : Path) (clock : Nat) :
    Dialect.ofPath (Configuration.copyPath temporary clock) = .asset := by
  have letters := Configuration.toList_copyName clock
  rw [Configuration.copyPath_eq, Dialect.ofPath, Path.name]
  simp only [List.getLast?_append, List.getLast?_singleton, Option.some_or, Option.getD_some]
  exact ofName_of_json letters (by simp)

/-- The path of the descriptor has no special parts. -/
theorem descriptor_isPlain (placed : layout.IsPlaced) : layout.descriptor.IsPlain := by
  have name : Path.IsName "package.json" := ⟨⟨by decide, by decide, by decide⟩, by decide⟩
  rw [Layout.descriptor, Path.div_of_isPart _ name.toIsPart]
  intro part member
  rcases List.mem_append.mp member with above | last
  · exact placed.rootPlain part above
  · exact List.mem_singleton.mp last ▸ name

/-- A name does not end as compiled code and as a descriptor at the same time. -/
theorem append_compiledSuffix_ne {stem text : String} {front : List Char}
    (letters : text.toList = front ++ ".json".toList) : stem ++ Layout.compiledSuffix ≠ text := by
  rintro rfl
  have last := congrArg List.getLast? letters
  simp [Layout.compiledSuffix] at last

/-- The destination of a module has another name than a descriptor. -/
theorem Batch.module_ne {files : List SourceFile} {layout : Layout} (batch : Batch layout files)
    {file : SourceFile} (member : file ∈ files) (compiled : file.dialect.isCompiled) {front : Location}
    {name : String} {stem : List Char} (letters : name.toList = stem ++ ".json".toList) :
    placeOf layout file ≠ front ++ [name] := by
  rw [batch.dialect file member] at compiled
  obtain ⟨other, last⟩ := Layout.getLast?_destination batch.placed (batch.absolute file member)
    (batch.plain file member).proper compiled
  intro same
  rw [placeOf] at same
  rw [same, List.getLast?_append, List.getLast?_singleton, Option.some_or, Option.some.injEq] at last
  exact append_compiledSuffix_ne letters last.symm

/-- No module goes to the place of a copy of the configuration. -/
theorem Batch.module_ne_copyPath {files : List SourceFile} {layout : Layout}
    (batch : Batch layout files) {file : SourceFile} (member : file ∈ files)
    (compiled : file.dialect.isCompiled) (temporary : Path) (clock : Nat) :
    placeOf layout file ≠ (Configuration.copyPath temporary clock).parts := by
  rw [Configuration.copyPath_eq]
  exact batch.module_ne member compiled (Configuration.toList_copyName clock)

/-- No module goes to the place of the descriptor of the output. -/
theorem Batch.module_ne_descriptor {files : List SourceFile} {layout : Layout}
    (batch : Batch layout files) {file : SourceFile} (member : file ∈ files)
    (compiled : file.dialect.isCompiled) :
    placeOf layout file ≠ layout.outputDescriptor.parts := by
  change _ ≠ (Output.descriptorOf layout.output).parts
  rw [Output.descriptorOf_eq]
  exact @Batch.module_ne files layout batch file member compiled layout.output.parts "package.json"
    "package".toList (by decide)

/-- The descriptor of the project is no copy of the configuration. -/
theorem descriptor_ne_copyPath (layout : Layout) (temporary : Path) (clock : Nat) :
    layout.descriptor.parts ≠ (Configuration.copyPath temporary clock).parts := by
  have letters := Configuration.toList_copyName clock
  have name : Path.IsPart "package.json" := ⟨by decide, by decide, by decide⟩
  rw [Configuration.copyPath_eq, Layout.descriptor, Path.div_of_isPart _ name]
  intro same
  have last := congrArg List.getLast? same
  simp only [List.getLast?_append, List.getLast?_singleton, Option.some_or, Option.some.injEq] at last
  rw [← last] at letters
  cases letters

/-- A tree in which the copy of the configuration is there, and nothing is done yet. -/
def Copied (layout : Layout) (files : List SourceFile) (base : Contents) (copy : Path) (tree : Tree) :
    Prop :=
  ∃ bytes, Moment layout files (fun _ _ => True) (Function.update base copy.parts (some bytes)) [] tree

/-- The copy of the configuration is the only file that changes when it is made. -/
theorem copyConfiguration_makes (prospect : Prospect layout files base cleared) (plain : temporary.IsPlain) :
    Ends (Session.Shows cleared temporary clock) (copyConfiguration request layout)
      (fun copy => Session.Shows (fun tree => copy = Configuration.copyPath temporary clock ∧
        Copied layout files base copy tree) temporary (clock + 1))
      (fun _ => True) := by
  have isPlain := Configuration.copyPath_isPlain plain clock
  unfold copyConfiguration
  refine ((Ends.ask _).mono (fun _ shown => shown) (fun _ _ told => told.2)
    fun _ _ => trivial).bind fun path => ?_
  have written (text : String) : Ends (Session.Shows cleared temporary (clock + 1))
      (Action.writeText (Configuration.copyPath temporary clock) text)
      (fun _ => Session.Shows (Copied layout files base (Configuration.copyPath temporary clock))
        temporary (clock + 1)) (fun _ => True) := by
    refine .changeFiles (fun session tree shown written => ?_) fun _ _ _ _ => trivial
    have cleared := shown.tree
    obtain ⟨-, changes⟩ := (prospect.regular _ cleared).write isPlain written
    refine ⟨⟨Text.Utf8.encode text, changes.regular, by simp, ?_, ?_⟩, shown.temporary, shown.clock⟩
    · intro location _
      rw [changes.contents, prospect.contents _ cleared]
    · exact fun file member asset directory =>
        prospect.clear _ cleared file member asset (changes.directories _ directory)
  refine (Configuration.makeCopy_ends (fun _ _ => trivial) _ fun _ _ _ _ => written _).mono
    (fun _ shown => shown) (fun copy session told => ?_) fun _ _ => trivial
  obtain ⟨same, shown⟩ := told
  subst copy
  exact ⟨⟨rfl, shown.tree⟩, shown.temporary, shown.clock⟩

/-- The products of a moment at which no specifier has been rewritten yet. -/
def Raw (tools : Toolchain) (layout : Layout) (options : CompilerOptions) (base : Contents)
    (file : SourceFile) (bytes : Text.Bytes) : Prop :=
  if file.dialect.isCompiled then Makes tools layout options base file bytes
  else base file.path.parts = some bytes

/-- The copy of the configuration is not compiled, so that a module is made of what was there before. -/
theorem makes_of_update {tools : Toolchain} {options : CompilerOptions} {content : Option Text.Bytes}
    {file : SourceFile} {bytes : Text.Bytes} (dialect : file.dialect = Dialect.ofPath file.path)
    (compiled : file.dialect.isCompiled)
    (made : Makes tools layout options
      (Function.update base (Configuration.copyPath temporary clock).parts content) file bytes) :
    Makes tools layout options base file bytes := by
  obtain ⟨source, held, made⟩ := made
  refine ⟨source, ?_, made⟩
  rwa [Function.update_of_ne] at held
  intro same
  have name : file.path.name = (Configuration.copyPath temporary clock).name := by
    rw [Path.name, same, Path.name]
  rw [dialect, Dialect.ofPath, name] at compiled
  have asset := dialect_copyPath temporary clock
  rw [Dialect.ofPath] at asset
  rw [asset] at compiled
  cases compiled

/-- A tree in which the copy of the configuration and all modules are there. -/
def Compiled (tools : Toolchain) (layout : Layout) (files : List SourceFile) (options : CompilerOptions)
    (base : Contents) (copy : Path) (tree : Tree) : Prop :=
  ∃ content, Compiling tools layout files options (Function.update base copy.parts (some content))
      (modules files) tree

/-- All modules are made while the copy of the configuration is there. -/
theorem compile_completes {options : CompilerOptions} {copy : Path}
    (writes : compiler.tools.WritesTargets layout) (batch : Batch layout files)
    (present : ∀ file ∈ files, ∃ content, base file.path.parts = some content) :
    Ends (Session.Shows (Copied layout files base copy) temporary clock)
      (compile compiler options layout files)
      (fun outputs => Session.Shows (fun tree =>
        outputs = (modules files).map (fun file => layout.destination file.path) ∧
          Compiled compiler.tools layout files options base copy tree) temporary clock)
      (fun _ => True) := by
  refine Ends.of_forall fun state shown => ?_
  obtain ⟨content, moment⟩ := shown.tree
  have stillPresent : ∀ file ∈ files,
      ∃ held, Function.update base copy.parts (some content) file.path.parts = some held := by
    intro file member
    by_cases same : file.path.parts = copy.parts
    · exact ⟨content, by rw [same, Function.update_self]⟩
    · obtain ⟨held, was⟩ := present file member
      exact ⟨held, by rw [Function.update_of_ne same, was]⟩
  refine (compile_makes writes batch stillPresent).mono (fun session start => ?_)
    (fun outputs => Session.Shows.mono fun tree done => ?_) fun _ _ => trivial
  · subst start
    exact ⟨moment.mono (by simp), shown.temporary, shown.clock⟩
  · exact ⟨done.1, content, done.2⟩

/-- The products once the modules have been made and the copy of the configuration has been removed. -/
theorem removeCopy_completes {tools : Toolchain} {options : CompilerOptions} {last : Nat}
    (batch : Batch layout files) (plain : temporary.IsPlain) :
    Ends (Session.Shows (Compiled tools layout files options base
        (Configuration.copyPath temporary clock)) temporary last)
      (Configuration.removeCopy (Configuration.copyPath temporary clock))
      (fun _ => Session.Shows (Moment layout files (Raw tools layout options base)
        (Function.update base (Configuration.copyPath temporary clock).parts none) (modules files))
        temporary last) (fun _ => True) := by
  refine Ends.of_forall fun state shown => ?_
  obtain ⟨content, moment⟩ := shown.tree
  have removed := @removeCopy_leaves layout files
    (Function.update base (Configuration.copyPath temporary clock).parts (some content)) temporary last
    (Makes tools layout options
      (Function.update base (Configuration.copyPath temporary clock).parts (some content)))
    (modules files) (Configuration.copyPath temporary clock)
    (Configuration.copyPath_isPlain plain clock) fun file member =>
      batch.module_ne_copyPath (mem_modules.mp member).1 (mem_modules.mp member).2 temporary clock
  refine removed.mono (fun session start => ?_) (fun _ => Session.Shows.mono fun tree moment => ?_)
    fun _ _ => trivial
  · subst start
    exact ⟨moment, shown.temporary, shown.clock⟩
  · rw [Function.update_idem] at moment
    refine moment.mono fun file member bytes made => ?_
    obtain ⟨inside, compiled⟩ := mem_modules.mp member
    rw [Raw, if_pos compiled]
    exact makes_of_update (batch.dialect file inside) compiled made

/-- The products once all assets have been copied. -/
theorem copyAssets_completes {tools : Toolchain} {options : CompilerOptions} {copy : Path}
    (batch : Batch layout files) :
    Ends (Session.Shows (Moment layout files (Raw tools layout options base)
        (Function.update base copy.parts none) (modules files)) temporary clock)
      (Output.copyAssets (Sources.ofDialect .asset files) layout)
      (fun _ => Session.Shows (Moment layout files (Raw tools layout options base)
        (Function.update base copy.parts none) (emitted files)) temporary clock) (fun _ => True) := by
  refine (copyAssets_makes batch fun file member asset bytes held => ?_).mono (fun _ shown => shown)
    (fun _ => Session.Shows.mono fun tree moment => moment.of_mem fun _ => mem_modules_append.symm)
    fun _ _ => trivial
  rw [Raw, if_neg (by simp [asset, Dialect.isCompiled])]
  by_cases same : file.path.parts = copy.parts
  · rw [same, Function.update_self] at held
    cases held
  · rwa [Function.update_of_ne same] at held

/-- The products once the specifiers of all modules have been rewritten. -/
theorem normalizeFiles_completes {tools : Toolchain} {options : CompilerOptions} {copy : Path}
    (batch : Batch layout files) (source : Path → Option SourceFile) :
    Ends (Session.Shows (Moment layout files (Raw tools layout options base)
        (Function.update base copy.parts none) (emitted files)) temporary clock)
      (Specifier.normalizeFiles
        ((modules files).map fun file => layout.destination file.path) source)
      (fun _ => Session.Shows (Moment layout files
        (Product tools layout options true
          (standing layout (emitted files) (Function.update base copy.parts none)) base)
        (Function.update base copy.parts none) (emitted files)) temporary clock) (fun _ => True) := by
  refine (normalizeFiles_makes batch (fun file => mem_emitted.mp) (fun file member => ?_) source).mono
    (fun _ shown => shown) (fun _ => Session.Shows.mono fun tree moment => ?_) fun _ _ => trivial
  · obtain ⟨inside, compiled⟩ := mem_modules.mp member
    exact mem_emitted.mpr ⟨inside, emitted_of_isCompiled compiled⟩
  · refine moment.mono fun file member bytes known => ?_
    rw [Product]
    by_cases compiled : file.dialect.isCompiled
    · rw [Rewriting, if_pos (mem_modules.mpr ⟨(mem_emitted.mp member).1, compiled⟩)] at known
      obtain ⟨raw, isRaw, rewritten⟩ := known
      rw [Raw, if_pos compiled] at isRaw
      rw [if_pos compiled]
      exact ⟨raw, isRaw, rewritten⟩
    · rw [Rewriting, if_neg fun listed => compiled (mem_modules.mp listed).2, Raw, if_neg compiled]
        at known
      rw [if_neg compiled]
      exact known

/-- Without rewriting, the products are as they have been made. -/
theorem product_of_raw {tools : Toolchain} {options : CompilerOptions} {has : Path → Bool}
    {file : SourceFile} {bytes : Text.Bytes} (raw : Raw tools layout options base file bytes) :
    Product tools layout options false has base file bytes := by
  rw [Product]
  rw [Raw] at raw
  split
  · rename_i compiled
    rw [if_pos compiled] at raw
    exact ⟨bytes, raw, rfl⟩
  · rename_i copied
    rwa [if_neg copied] at raw

/-! ### The course of such a build -/

/-- The descriptor of the output is patched last. -/
theorem patchType_completes (plain : layout.output.IsPlain) (format : OutputFormat)
    {middle : Tree → Prop} (regular : ∀ tree, middle tree → tree.IsRegular) :
    Ends (Session.Shows middle temporary clock) (Output.patchType layout.output format)
      (fun _ => Session.Shows (fun after => ∃ before, middle before ∧
        Patched layout format before after) temporary clock) (fun _ => True) := by
  refine Ends.of_forall fun state shown => ?_
  refine (@Output.patchType_patches layout.output state.tree.contentAt? temporary clock plain
    format).mono (fun session start => ?_) (fun _ => Session.Shows.mono fun after known => ?_)
    fun _ _ => trivial
  · subst start
    exact ⟨⟨regular _ shown.tree, rfl⟩, shown.temporary, shown.clock⟩
  · exact ⟨state.tree, shown.tree, known.1, known.2⟩

/-- What holds between the stages of a build whose files are known to be a batch. -/
def course (writes : compiler.tools.WritesTargets layout) (placed : layout.IsPlaced)
    (plain : temporary.IsPlain) {start : Tree → Prop} {known : List SourceFile → Prop}
    (clears : Ends (Session.Shows start temporary clock) (Build.clear request layout)
      (fun _ => Session.Shows cleared temporary clock) (fun _ => True))
    (discovers : Ends (Session.Shows cleared temporary clock) (discoverInput request layout)
      (fun files => Session.Shows (fun tree => known files ∧ cleared tree) temporary clock)
      (fun _ => True))
    (prospects : ∀ files, known files →
      Prospect layout files base cleared) :
    Course compiler request layout environment temporary clock start
      (fun after => ∃ files, known files ∧
        Results compiler.tools layout request (!Tools.rewritesDisabled environment) files base
          (Configuration.copyPath temporary clock) after) (fun _ => True) where
  cleared := cleared
  found files tree := known files ∧ cleared tree
  copied files copy tree := known files ∧ copy = Configuration.copyPath temporary clock ∧
    Copied layout files base copy tree
  broken _ _ := True
  chosen copy options := CompilerOptions.Chosen request (base layout.descriptor.parts) (some copy) options
  compiled files copy outputs tree := known files ∧ copy = Configuration.copyPath temporary clock ∧
    outputs = (modules files).map (fun file => layout.destination file.path) ∧
    ∃ options, CompilerOptions.Chosen request (base layout.descriptor.parts) (some copy) options ∧
      Compiled compiler.tools layout files options base copy tree
  emitted files outputs tree := known files ∧
    outputs = (modules files).map (fun file => layout.destination file.path) ∧
    ∃ options, CompilerOptions.Chosen request (base layout.descriptor.parts)
        (some (Configuration.copyPath temporary clock)) options ∧
      Moment layout files (Raw compiler.tools layout options base)
        (Function.update base (Configuration.copyPath temporary clock).parts none) (modules files) tree
  complete files outputs tree := known files ∧
    outputs = (modules files).map (fun file => layout.destination file.path) ∧
    ∃ options, CompilerOptions.Chosen request (base layout.descriptor.parts)
        (some (Configuration.copyPath temporary clock)) options ∧
      Moment layout files (Raw compiler.tools layout options base)
        (Function.update base (Configuration.copyPath temporary clock).parts none) (emitted files) tree
  normalized tree := ∃ files, known files ∧ ∃ options,
    CompilerOptions.Chosen request (base layout.descriptor.parts)
        (some (Configuration.copyPath temporary clock)) options ∧
      Moment layout files
        (Product compiler.tools layout options (!Tools.rewritesDisabled environment)
          (standing layout (emitted files)
            (Function.update base (Configuration.copyPath temporary clock).parts none)) base)
        (Function.update base (Configuration.copyPath temporary clock).parts none) (emitted files) tree
  clears := clears.mono (fun _ shown => shown) (fun _ _ shown => shown) fun _ _ => trivial
  discovers := discovers.mono (fun _ shown => shown) (fun _ _ shown => shown) fun _ _ => trivial
  copies files := (Ends.knowing fun isKnown => copyConfiguration_makes (prospects files isKnown) plain).mono
    (fun _ shown => shown) (fun _ _ shown => shown) fun _ _ => trivial
  chooses files copy := by
    refine (@CompilerOptions.ofRequest_ends base _ _ _ _ (descriptor_isPlain placed)
      (fun tree copied => ?_) request (some copy)).mono (fun _ shown => shown)
      (fun options session told => ?_) fun _ _ => trivial
    · obtain ⟨-, rfl, content, moment⟩ := copied
      refine ⟨moment.regular, ?_⟩
      rw [moment.rest _ (by simp), Function.update_of_ne (descriptor_ne_copyPath layout temporary clock)]
    · exact ⟨⟨told.1, told.2.tree⟩, told.2.temporary, told.2.clock⟩
  compiles files copy options chosen := by
    refine Ends.knowing fun isKnown => Ends.knowing fun same => ?_
    subst same
    have prospect := prospects files isKnown
    exact (compile_completes writes prospect.batch prospect.present).mono (fun _ shown => shown)
      (fun outputs => Session.Shows.mono fun tree done => ⟨done.1, options, chosen, done.2⟩)
      fun _ _ => trivial
  removes files copy outputs := by
    refine Ends.knowing fun isKnown => Ends.granting fun same => Ends.knowing fun _ =>
      Ends.choosing fun options => ?_
    subst same
    exact Ends.knowing fun _ => (removeCopy_completes (prospects files isKnown).batch plain).mono
      (fun _ shown => shown) (fun _ _ shown => shown) fun _ _ => trivial
  cleans := cleans_any
  copiesAssets files outputs := Ends.knowing fun isKnown => Ends.knowing fun _ =>
    Ends.choosing fun options => Ends.knowing fun _ =>
      (copyAssets_completes (prospects files isKnown).batch).mono (fun _ shown => shown)
        (fun _ _ shown => shown) fun _ _ => trivial
  normalizes rewrites files outputs := by
    refine Ends.granting fun isKnown => Ends.granting fun same => Ends.of_forall fun state shown => ?_
    subst same
    obtain ⟨options, chosen, moment⟩ := shown.tree
    have completed := @normalizeFiles_completes layout temporary (clock + 1) base files compiler.tools
      options (Configuration.copyPath temporary clock) (prospects files isKnown).batch
      (sourceOf layout files)
    refine completed.mono (fun session start => ?_)
      (fun _ => Session.Shows.mono fun tree done => ?_) fun _ _ => trivial
    · subst start
      exact ⟨moment, shown.temporary, shown.clock⟩
    · rw [rewrites]
      exact ⟨files, isKnown, options, chosen, done⟩
  skips disabled files outputs tree complete := by
    obtain ⟨isKnown, -, options, chosen, moment⟩ := complete
    refine ⟨files, isKnown, options, chosen, moment.mono fun file member bytes raw => ?_⟩
    rw [disabled]
    exact product_of_raw raw
  patches := by
    have regular : ∀ tree, (∃ files, known files ∧ ∃ options,
        CompilerOptions.Chosen request (base layout.descriptor.parts)
          (some (Configuration.copyPath temporary clock)) options ∧
        Moment layout files
          (Product compiler.tools layout options (!Tools.rewritesDisabled environment)
            (standing layout (emitted files)
              (Function.update base (Configuration.copyPath temporary clock).parts none)) base)
          (Function.update base (Configuration.copyPath temporary clock).parts none) (emitted files)
          tree) → tree.IsRegular := by
      rintro tree ⟨files, -, options, -, moment⟩
      exact moment.regular
    refine (patchType_completes placed.outputPlain request.format regular).mono (fun _ shown => shown)
      (fun _ => Session.Shows.mono fun after done => ?_) fun _ _ => trivial
    obtain ⟨before, ⟨files, isKnown, options, chosen, moment⟩, patched⟩ := done
    exact ⟨files, isKnown, options, before, chosen, moment, patched⟩

end

end TreeBuild.Build
