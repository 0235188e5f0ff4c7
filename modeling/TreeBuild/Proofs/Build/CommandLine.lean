import Mathlib.Data.List.Basic
import TreeBuild.Compiler.Calls
import TreeBuild.Compiler.Separate
import TreeBuild.Proofs.Path.Spelling

/-!
# What the command line of a compiler says about its outputs

A compiler is told by its arguments where to write: to one file, or into a directory, where the
compiled form of each of its files gets a place of its own. The paths that a call names as its outputs
are read off its arguments here, and for the two kinds of calls that a build makes they are computed: a
text goes to the output file that is given, and a file goes to its destination in the output tree. No
other flag of a build names an output.
-/
namespace TreeBuild

namespace TextCompiler

/-- The setting that an argument is, if it is one. -/
def settingOf? (argument : String) : Option (String × String) :=
  match argument.toList with
  | '-' :: '-' :: rest =>
    (Text.cut? '=' rest).map fun parts => (String.ofList parts.1, String.ofList parts.2)
  | _ => none

/-- The program itself is no setting. -/
theorem settingsOf_cons (program : String) (arguments : List String) :
    settingsOf (program :: arguments) = arguments.filterMap settingOf? := rfl

/-- The program itself names no file. -/
theorem filesOf_cons (program : String) (arguments : List String) :
    filesOf (program :: arguments) =
      arguments.filter fun argument => !("--".toList.isPrefixOf argument.toList) := rfl

end TextCompiler

namespace Invocation

/-- The settings of a call. -/
def settings (invocation : Invocation) : List (String × String) :=
  TextCompiler.settingsOf invocation.command

/-- Whether a setting names an output. -/
def namesOutput (setting : String × String) : Bool :=
  setting.1 = "outfile" ∨ setting.1 = "outdir"

/-- The paths that a call is told to write to: output files, output directories, and the places of the
compiled forms of its files. -/
def outputs (invocation : Invocation) : List Path :=
  (invocation.settings.filter namesOutput).map
      (fun setting => invocation.directory.join (.ofString setting.2)) ++
    (TextCompiler.filesOf invocation.command).filterMap
      (TextCompiler.targetOf invocation.settings invocation.directory)

/-- The files that a call is told to write: the outputs without the output directories. -/
def targets (invocation : Invocation) : List Path :=
  (invocation.settings.filter fun setting => setting.1 = "outfile").map
      (fun setting => invocation.directory.join (.ofString setting.2)) ++
    (TextCompiler.filesOf invocation.command).filterMap
      (TextCompiler.targetOf invocation.settings invocation.directory)

/-- Output files are among the outputs. -/
theorem filter_outfile (settings : List (String × String)) :
    (settings.filter fun setting => setting.1 = "outfile") =
      (settings.filter namesOutput).filter fun setting => setting.1 = "outfile" := by
  rw [List.filter_filter]
  refine List.filter_congr fun setting _ => ?_
  by_cases same : setting.1 = "outfile" <;> simp [namesOutput, same]

end Invocation

namespace CompilerOptions

open TextCompiler

/-- An argument with two dashes that names no output. -/
def IsAside (argument : String) : Prop :=
  ∃ c rest, argument.toList = '-' :: '-' :: c :: rest ∧ c ≠ 'o' ∧ c ≠ '='

/-- An argument that names no output is not taken for a file either. -/
theorem IsAside.not_file {argument : String} (aside : IsAside argument) :
    (!("--".toList.isPrefixOf argument.toList)) = false := by
  obtain ⟨c, rest, letters, -, -⟩ := aside
  simp [letters]

/-- The setting of an argument that names no output is none of those that do. -/
theorem IsAside.setting {argument : String} (aside : IsAside argument) {name value : String}
    (told : settingOf? argument = some (name, value)) : name.toList.head? ≠ some 'o' := by
  obtain ⟨c, rest, letters, notO, notEquals⟩ := aside
  rw [settingOf?, letters] at told
  simp only [Text.cut?] at told
  split at told
  · cases told
  · simp only [Option.map_some, Option.some.injEq, Prod.mk.injEq] at told
    rw [← told.1]
    simp [notEquals, notO]

/-- The characters of a flag with a value: two dashes, the name, an equals sign and the value. -/
theorem toList_valued (name value : String) :
    (valued name value).toList = '-' :: '-' :: (name.toList ++ '=' :: value.toList) := by
  have spelled : valued name value = "--" ++ name ++ "=" ++ value := rfl
  simp [spelled, String.toList_append]

/-- A flag with a value is no file. -/
theorem valued_not_file (name value : String) :
    (!("--".toList.isPrefixOf (valued name value).toList)) = false := by
  simp [toList_valued]

/-- A flag with a value is the setting that it says, if there is no equals sign in its name. -/
theorem settingOf?_valued {name : String} (noEquals : '=' ∉ name.toList) (value : String) :
    settingOf? (valued name value) = some (name, value) := by
  have letters := toList_valued name value
  have kept : ∀ c ∈ name.toList, decide (c ≠ '=') = true := by
    intro c member
    simpa using fun same : c = '=' => noEquals (same ▸ member)
  rw [settingOf?, letters]
  simp only [Text.cut?, List.dropWhile_append_of_pos kept, List.takeWhile_append_of_pos kept]
  simp

/-- Whether what an argument has behind its two dashes can be told from the name of an output by its
first letter. -/
def startsAside (text : String) : Bool :=
  text.toList.head?.any fun c => c ≠ 'o' && c ≠ '='

/-- A flag is aside by what it starts with, whatever follows. -/
theorem isAside_of_startsAside (front : String) (other : startsAside front) (back : String) :
    IsAside ("--" ++ front ++ back) := by
  cases letters : front.toList with
  | nil => simp [startsAside, letters] at other
  | cons c rest =>
    have bounds : c ≠ 'o' ∧ c ≠ '=' := by simpa [startsAside, letters] using other
    exact ⟨c, rest ++ back.toList, by simp [String.toList_append, letters], bounds⟩

/-- So is a flag with a value by its name. -/
theorem isAside_valued (name : String) (other : startsAside name) (value : String) :
    IsAside (valued name value) := by
  have spelled : valued name value = "--" ++ name ++ ("=" ++ value) := by
    rw [← String.append_assoc]
    rfl
  rw [spelled]
  exact isAside_of_startsAside name other _

/-- What the flags of a build begin with, behind their two dashes, but for the one that names the
configuration. -/
def flagNames : List String :=
  ["target", "format", "charset", "jsx=transform", "jsx-factory", "log-level", "minify", "define:",
    "platform", "bundle", "tree-shaking=true", "external:", "splitting", "banner:js="]

/-- A flag of a build that does not name the configuration. -/
def IsFlag (argument : String) : Prop :=
  ∃ front ∈ flagNames, ∃ back, argument = "--" ++ front ++ back

/-- A flag with a known name is a flag of a build, whatever its value is. -/
theorem isFlag_valued {name : String} (known : name ∈ flagNames) (value : String) :
    IsFlag (valued name value) := by
  refine ⟨name, known, "=" ++ value, ?_⟩
  rw [← String.append_assoc]
  rfl

/-- Everything that concerns the language of the outputs is a flag of a build. -/
theorem isFlag_of_mem_commonFlags {options : CompilerOptions} :
    ∀ flag ∈ options.commonFlags, IsFlag flag := by
  have define (item : String × String) : IsFlag s!"--define:{item.1}={item.2}" := by
    refine ⟨"define:", by decide, item.1 ++ ("=" ++ item.2), ?_⟩
    rw [← String.append_assoc, ← String.append_assoc]
    rfl
  intro flag member
  simp only [commonFlags, List.mem_append, List.mem_cons, List.not_mem_nil, or_false, List.mem_map]
    at member
  rcases member with ((rfl | rfl | rfl | rfl | rfl | rfl) | mini) | ⟨item, -, rfl⟩
  · exact isFlag_valued (by decide) _
  · exact isFlag_valued (by decide) _
  · exact isFlag_valued (by decide) _
  · exact ⟨"jsx=transform", by decide, "", rfl⟩
  · exact isFlag_valued (by decide) _
  · exact isFlag_valued (by decide) _
  · split at mini
    · rw [List.mem_singleton.mp mini]
      exact ⟨"minify", by decide, "", rfl⟩
    · cases mini
  · exact define item

/-- Everything that concerns bundles is a flag of a build. -/
theorem isFlag_of_mem_bundleFlags {options : CompilerOptions} {use : CompilerUse} :
    ∀ flag ∈ options.bundleFlags use, IsFlag flag := by
  have isExternal (pattern : String) : IsFlag (externalFlag pattern) :=
    ⟨"external:", by decide, pattern, rfl⟩
  intro flag member
  unfold bundleFlags at member
  split at member
  · simp only [List.mem_append, List.mem_cons, List.not_mem_nil, or_false, List.mem_map,
      List.mem_flatMap] at member
    rcases member with ((((rfl | rfl) | ⟨pattern, -, rfl⟩) | ⟨plugin, -, pattern, -, rfl⟩) | parts) |
      ⟨banner, -, rfl⟩
    · exact ⟨"bundle", by decide, "", rfl⟩
    · exact ⟨"tree-shaking=true", by decide, "", rfl⟩
    · exact isExternal pattern
    · exact isExternal pattern
    · split at parts
      · rw [List.mem_singleton.mp parts]
        exact ⟨"splitting", by decide, "", rfl⟩
      · cases parts
    · exact ⟨"banner:js=", by decide, banner, rfl⟩
  · cases member

/-- Every flag of a build is of a kind that is known, or names the configuration. -/
theorem isFlag_of_mem_flags {options : CompilerOptions} {use : CompilerUse} :
    ∀ flag ∈ options.flags use,
      IsFlag flag ∨ ∃ path ∈ options.tsconfig, flag = valued "tsconfig" path.toString := by
  intro flag member
  unfold flags at member
  split at member
  · exact .inl (isFlag_of_mem_commonFlags flag member)
  · simp only [List.mem_append, List.mem_cons, List.not_mem_nil, or_false, List.mem_map] at member
    rcases member with ((common | rfl) | ⟨path, given, rfl⟩) | bundle
    · exact .inl (isFlag_of_mem_commonFlags flag common)
    · exact .inl (isFlag_valued (by decide) _)
    · exact .inr ⟨path, Option.mem_toList.mp given, rfl⟩
    · exact .inl (isFlag_of_mem_bundleFlags flag bundle)

/-- No flag of a build names an output. -/
theorem isAside_of_mem_flags {options : CompilerOptions} {use : CompilerUse} :
    ∀ flag ∈ options.flags use, IsAside flag := by
  intro flag member
  have others : ∀ name ∈ flagNames, startsAside name := by decide
  rcases isFlag_of_mem_flags flag member with ⟨front, known, back, rfl⟩ | ⟨path, -, rfl⟩
  · exact isAside_of_startsAside front (others front known) back
  · exact isAside_valued "tsconfig" rfl _

/-- The setting of an argument whose first two letters are not those of a name is none of this name. -/
theorem settingOf?_ne {front name : String} (long : 2 ≤ front.toList.length)
    (other : front.toList.take 2 ≠ name.toList.take 2) (longName : 2 ≤ name.toList.length)
    (back value : String) : settingOf? ("--" ++ front ++ back) ≠ some (name, value) := by
  intro told
  have letters : ("--" ++ front ++ back).toList = '-' :: '-' :: (front.toList ++ back.toList) := by
    simp [String.toList_append]
  rw [settingOf?, letters] at told
  obtain ⟨parts, cut, same⟩ := Option.map_eq_some_iff.mp told
  obtain ⟨rest, found⟩ : ∃ rest, front.toList ++ back.toList = name.toList ++ rest := by
    have name : parts.1 = name.toList := by
      have named : String.ofList parts.1 = name := congrArg Prod.fst same
      rw [← named, String.toList_ofList]
    unfold Text.cut? at cut
    split at cut
    · cases cut
    · rename_i c behind after
      have whole : (front.toList ++ back.toList).takeWhile (fun d => decide (d ≠ '=')) ++
          (front.toList ++ back.toList).dropWhile (fun d => decide (d ≠ '=')) =
            front.toList ++ back.toList := List.takeWhile_append_dropWhile
      cases cut
      exact ⟨_, by rw [← name, whole]⟩
  have start := congrArg (List.take 2) found
  rw [List.take_append_of_le_length long, List.take_append_of_le_length longName] at start
  exact other start

/-- No flag of a build says what a text is to be called. -/
theorem settingOf?_ne_sourcefile {options : CompilerOptions} {use : CompilerUse} :
    ∀ flag ∈ options.flags use, ∀ value, settingOf? flag ≠ some ("sourcefile", value) := by
  intro flag member value told
  have others : ∀ name ∈ flagNames, 2 ≤ name.toList.length ∧
      name.toList.take 2 ≠ "sourcefile".toList.take 2 := by decide
  rcases isFlag_of_mem_flags flag member with ⟨front, known, back, rfl⟩ | ⟨path, -, rfl⟩
  · obtain ⟨long, other⟩ := others front known
    exact settingOf?_ne long other (by decide) back value told
  · rw [settingOf?_valued (by decide)] at told
    simp at told

/-- The configuration that the flags of a build name is that of the options. -/
theorem tsconfig_of_mem_flags {options : CompilerOptions} {use : CompilerUse} {text : String}
    (member : ("tsconfig", text) ∈ (options.flags use).filterMap settingOf?) :
    ∃ path ∈ options.tsconfig, text = path.toString := by
  obtain ⟨flag, found, told⟩ := List.mem_filterMap.mp member
  have others : ∀ name ∈ flagNames, 2 ≤ name.toList.length ∧
      name.toList.take 2 ≠ "tsconfig".toList.take 2 := by decide
  rcases isFlag_of_mem_flags flag found with ⟨front, known, back, rfl⟩ | ⟨path, given, rfl⟩
  · obtain ⟨long, other⟩ := others front known
    exact absurd told (settingOf?_ne long other (by decide) back text)
  · rw [settingOf?_valued (by decide)] at told
    cases told
    exact ⟨path, given, rfl⟩

/-- Arguments that name no output have no setting that does. -/
theorem filter_settings_of_isAside {arguments : List String}
    (aside : ∀ argument ∈ arguments, IsAside argument) :
    (arguments.filterMap settingOf?).filter Invocation.namesOutput = [] := by
  apply List.filter_eq_nil_iff.mpr
  rintro ⟨name, value⟩ member
  obtain ⟨argument, found, told⟩ := List.mem_filterMap.mp member
  have other := (aside argument found).setting told
  simp only [Invocation.namesOutput, Bool.decide_or, Bool.or_eq_true, decide_eq_true_eq, not_or]
  constructor
  · rintro rfl
    exact other rfl
  · rintro rfl
    exact other rfl

/-- Arguments that name no output are no files. -/
theorem filter_files_of_isAside {arguments : List String}
    (aside : ∀ argument ∈ arguments, IsAside argument) :
    arguments.filter (fun argument => !("--".toList.isPrefixOf argument.toList)) = [] := by
  apply List.filter_eq_nil_iff.mpr
  intro argument found
  rw [(aside argument found).not_file]
  exact Bool.false_ne_true

end CompilerOptions

namespace Invocation

open CompilerOptions TextCompiler

/-- The arguments in front of the flags when a text is compiled that stands for a file. -/
theorem isAside_of_mem_label {label argument : String}
    (member : argument ∈ [valued "sourcefile" label, Compiler.loaderFlag]) : IsAside argument := by
  simp only [List.mem_cons, List.not_mem_nil, or_false] at member
  rcases member with rfl | rfl
  · exact isAside_valued "sourcefile" rfl _
  · exact isAside_of_startsAside "loader=tsx" rfl ""

/-- A call that names no configuration but this one. -/
def NamesOnly (tsconfig : Option Path) (invocation : Invocation) : Prop :=
  ∀ text, ("tsconfig", text) ∈ invocation.settings → ∃ path ∈ tsconfig, text = path.toString

/-- A call with the flags of a build names no configuration but that of the options, if no other argument
names one. -/
theorem namesOnly_of_flags {options : CompilerOptions} {use : CompilerUse} {front : List String}
    (aside : ∀ argument ∈ front, ∀ text, settingOf? argument ≠ some ("tsconfig", text))
    (program : String) (directory : Path) (input : Option String) :
    NamesOnly options.tsconfig
      { command := program :: (front ++ options.flags use), directory, input } := by
  intro text member
  rw [Invocation.settings, settingsOf_cons, List.filterMap_append] at member
  rcases List.mem_append.mp member with first | last
  · obtain ⟨argument, found, told⟩ := List.mem_filterMap.mp first
    exact absurd told (aside argument found text)
  · exact tsconfig_of_mem_flags last

/-- The arguments in front of the flags when a text is compiled name no configuration. -/
theorem label_ne_tsconfig {label argument : String}
    (member : argument ∈ [valued "sourcefile" label, Compiler.loaderFlag]) (text : String) :
    settingOf? argument ≠ some ("tsconfig", text) := by
  simp only [List.mem_cons, List.not_mem_nil, or_false] at member
  rcases member with rfl | rfl
  · rw [settingOf?_valued (by decide)]
    simp
  · have loader : settingOf? Compiler.loaderFlag = some ("loader", "tsx") := by decide
    rw [loader]
    simp

/-- A call that returns a compiled text names no configuration but that of its options. -/
theorem namesOnly_transform (program label : String) (options : CompilerOptions) (directory : Path)
    (input : Option String) : NamesOnly options.tsconfig
      { command := program :: ([valued "sourcefile" label, Compiler.loaderFlag] ++
          options.flags .transform)
        directory, input } :=
  namesOnly_of_flags (fun _ => label_ne_tsconfig) program directory input

/-- A call that compiles a text to a file names no configuration but that of its options. -/
theorem namesOnly_buffer (program label text : String) (options : CompilerOptions) (directory : Path)
    (input : Option String) : NamesOnly options.tsconfig
      { command := program :: ([valued "sourcefile" label, Compiler.loaderFlag, valued "outfile" text] ++
          options.flags .buffer)
        directory, input } := by
  refine namesOnly_of_flags (fun argument member other => ?_) program directory input
  rw [List.mem_cons, List.mem_cons, List.mem_singleton] at member
  rcases member with rfl | rfl | rfl
  · exact label_ne_tsconfig List.mem_cons_self other
  · exact @label_ne_tsconfig label _ (by simp) other
  · rw [settingOf?_valued (by decide)]
    simp

/-- A call that returns a compiled text has no outputs. -/
theorem outputs_transform (program label : String) (options : CompilerOptions) (directory : Path)
    (input : Option String) :
    Invocation.outputs
      { command := program :: ([valued "sourcefile" label, Compiler.loaderFlag] ++
          options.flags .transform)
        directory, input } = [] := by
  have aside : ∀ argument ∈ [valued "sourcefile" label, Compiler.loaderFlag] ++
      options.flags .transform, IsAside argument := by
    intro argument member
    rcases List.mem_append.mp member with front | flag
    · exact isAside_of_mem_label front
    · exact isAside_of_mem_flags argument flag
  rw [outputs, Invocation.settings, settingsOf_cons, filesOf_cons, filter_files_of_isAside aside,
    filter_settings_of_isAside aside]
  rfl

/-- The one output that such a call names is the file it is to write. -/
theorem named_buffer (label text : String) (options : CompilerOptions) :
    (([valued "sourcefile" label, Compiler.loaderFlag, valued "outfile" text] ++
      options.flags .buffer).filterMap settingOf?).filter namesOutput = [("outfile", text)] := by
  have front : ∀ argument ∈ [valued "sourcefile" label, Compiler.loaderFlag], IsAside argument :=
    fun argument member => isAside_of_mem_label member
  have back : ∀ argument ∈ options.flags .buffer, IsAside argument := isAside_of_mem_flags
  have output : settingOf? (valued "outfile" text) = some ("outfile", text) :=
    settingOf?_valued (by decide) text
  have cut : [valued "sourcefile" label, Compiler.loaderFlag, valued "outfile" text] ++
      options.flags .buffer = [valued "sourcefile" label, Compiler.loaderFlag] ++
        (valued "outfile" text :: options.flags .buffer) := rfl
  rw [cut, List.filterMap_append, List.filter_append, filter_settings_of_isAside front,
    List.filterMap_cons_some output, List.filter_cons_of_pos (by simp [namesOutput]),
    filter_settings_of_isAside back]
  rfl

/-- Such a call names no file that is read. -/
theorem files_buffer (label text : String) (options : CompilerOptions) :
    ([valued "sourcefile" label, Compiler.loaderFlag, valued "outfile" text] ++
      options.flags .buffer).filter
        (fun argument => !("--".toList.isPrefixOf argument.toList)) = [] := by
  have front : ∀ argument ∈ [valued "sourcefile" label, Compiler.loaderFlag], IsAside argument :=
    fun argument member => isAside_of_mem_label member
  have back : ∀ argument ∈ options.flags .buffer, IsAside argument := isAside_of_mem_flags
  have cut : [valued "sourcefile" label, Compiler.loaderFlag, valued "outfile" text] ++
      options.flags .buffer = [valued "sourcefile" label, Compiler.loaderFlag] ++
        (valued "outfile" text :: options.flags .buffer) := rfl
  rw [cut, List.filter_append, filter_files_of_isAside front,
    List.filter_cons_of_neg (by rw [valued_not_file]; exact Bool.false_ne_true),
    filter_files_of_isAside back]
  rfl

/-- A call for one text writes to the output file that it names. -/
theorem outputs_buffer (program label text : String) (options : CompilerOptions) (directory : Path)
    (input : Option String) :
    Invocation.outputs
      { command := program :: ([valued "sourcefile" label, Compiler.loaderFlag, valued "outfile" text] ++
          options.flags .buffer)
        directory, input } = [directory.join (.ofString text)] := by
  rw [outputs, Invocation.settings, settingsOf_cons, filesOf_cons, named_buffer, files_buffer]
  rfl

/-- A call for one text writes the output file that it names, and no other. -/
theorem targets_buffer (program label text : String) (options : CompilerOptions) (directory : Path)
    (input : Option String) :
    Invocation.targets
      { command := program :: ([valued "sourcefile" label, Compiler.loaderFlag, valued "outfile" text] ++
          options.flags .buffer)
        directory, input } = [directory.join (.ofString text)] := by
  rw [targets, Invocation.settings, settingsOf_cons, filesOf_cons, filter_outfile, named_buffer,
    files_buffer]
  rfl

/-- An absolute path is a file on a command line, and no setting. -/
theorem file_of_isAbsolute {path : Path} (absolute : path.isAbsolute) :
    (!("--".toList.isPrefixOf path.toString.toList)) = true ∧ settingOf? path.toString = none := by
  have letters : ∃ rest, path.toString.toList = '/' :: rest := by
    rw [Path.toList_toString_of_isAbsolute absolute]
    cases anchor : path.anchor with
    | relative => simp [Path.isAbsolute, anchor] at absolute
    | root => exact ⟨_, rfl⟩
    | doubleRoot => exact ⟨_, rfl⟩
  obtain ⟨rest, letters⟩ := letters
  rw [settingOf?, letters]
  exact ⟨rfl, rfl⟩

/-- The compiled form of a file goes to the destination of that file. -/
theorem targetOf_eq_destination {layout : Layout} {path : Path} {settings : List (String × String)}
    (outbase : settings.lookup "outbase" = some layout.sources.toString)
    (outdir : settings.lookup "outdir" = some layout.output.toString)
    (sourcesAbsolute : layout.sources.isAbsolute) (sourcesProper : layout.sources.IsProper)
    (outputAbsolute : layout.output.isAbsolute) (outputProper : layout.output.IsProper)
    (absolute : path.isAbsolute) (proper : path.IsProper)
    (compiled : (Dialect.ofPath path).isCompiled) :
    targetOf settings layout.root path.toString = some (layout.destination path) := by
  have place : (path.relativeTo? layout.sources).getD (Path.ofString path.name) =
      layout.placeOf path := by
    unfold Layout.placeOf
    cases path.relativeTo? layout.sources with
    | some place => rfl
    | none =>
      rcases path.name_cases with ⟨empty, nameless⟩ | member
      · simp [nameless, empty, Path.ofString, Path.anchorOf, Path.partsOf, Text.split, Text.splitAt]
      · have nonempty : path.parts ≠ [] := List.ne_nil_of_mem member
        simp [nonempty, Path.ofString_of_isPart (proper _ member)]
  have resolved : layout.resolve path = path := by simp [Layout.resolve, Path.join, absolute]
  have output : layout.root / layout.output.toString = layout.output := by
    change layout.root.join (Path.ofString layout.output.toString) = layout.output
    rw [Path.ofString_toString outputAbsolute outputProper]
    simp [Path.join, outputAbsolute]
  simp only [targetOf, outbase, outdir, Option.getD_some, Path.ofString_toString absolute proper,
    Path.ofString_toString sourcesAbsolute sourcesProper, place, Layout.destination, resolved,
    compiled, if_true, Option.bind_eq_bind, Option.bind_some, output]
  rfl

/-- The settings of a call for files are the two directories and the flags, since absolute paths are no
settings. -/
theorem settings_entryPoints {layout : Layout} (options : CompilerOptions) {paths : List Path}
    (absolute : ∀ path ∈ paths, path.isAbsolute) :
    (paths.map Path.toString ++
      [valued "outbase" layout.sources.toString, valued "outdir" layout.output.toString] ++
      options.flags .entryPoints).filterMap settingOf? =
        ("outbase", layout.sources.toString) :: ("outdir", layout.output.toString) ::
          (options.flags .entryPoints).filterMap settingOf? := by
  have outbase : settingOf? (valued "outbase" layout.sources.toString) =
      some ("outbase", layout.sources.toString) := settingOf?_valued (by decide) _
  have outdir : settingOf? (valued "outdir" layout.output.toString) =
      some ("outdir", layout.output.toString) := settingOf?_valued (by decide) _
  have front : (paths.map Path.toString).filterMap settingOf? = [] := by
    apply List.filterMap_eq_nil_iff.mpr
    intro argument member
    obtain ⟨path, found, rfl⟩ := List.mem_map.mp member
    exact (file_of_isAbsolute (absolute path found)).2
  rw [List.append_assoc, List.filterMap_append, front, List.nil_append, List.cons_append,
    List.filterMap_cons_some outbase, List.cons_append, List.filterMap_cons_some outdir,
    List.nil_append]

/-- A call for files names no configuration but that of its options. -/
theorem namesOnly_entryPoints (program : String) (layout : Layout) (options : CompilerOptions)
    {paths : List Path} (absolute : ∀ path ∈ paths, path.isAbsolute) (directory : Path)
    (input : Option String) : NamesOnly options.tsconfig
      { command := program :: (paths.map Path.toString ++
          [valued "outbase" layout.sources.toString, valued "outdir" layout.output.toString] ++
          options.flags .entryPoints)
        directory, input } := by
  intro text member
  rw [Invocation.settings, settingsOf_cons, settings_entryPoints options absolute] at member
  simp only [List.mem_cons, Prod.mk.injEq, String.reduceEq, false_and, false_or] at member
  exact tsconfig_of_mem_flags member

/-- The one output that a call for files names is the output tree. -/
theorem named_entryPoints (layout : Layout) (options : CompilerOptions) :
    (("outbase", layout.sources.toString) :: ("outdir", layout.output.toString) ::
      (options.flags .entryPoints).filterMap settingOf?).filter namesOutput =
        [("outdir", layout.output.toString)] := by
  have back : ∀ argument ∈ options.flags .entryPoints, IsAside argument := isAside_of_mem_flags
  rw [List.filter_cons_of_neg (by simp [namesOutput]), List.filter_cons_of_pos (by simp [namesOutput]),
    filter_settings_of_isAside back]

/-- The files that such a call names are the files it is made for. -/
theorem files_entryPoints {layout : Layout} (options : CompilerOptions) {paths : List Path}
    (absolute : ∀ path ∈ paths, path.isAbsolute) :
    (paths.map Path.toString ++
      [valued "outbase" layout.sources.toString, valued "outdir" layout.output.toString] ++
      options.flags .entryPoints).filter
        (fun argument => !("--".toList.isPrefixOf argument.toList)) = paths.map Path.toString := by
  have back : ∀ argument ∈ options.flags .entryPoints, IsAside argument := isAside_of_mem_flags
  have all : (paths.map Path.toString).filter
      (fun argument => !("--".toList.isPrefixOf argument.toList)) = paths.map Path.toString := by
    apply List.filter_eq_self.mpr
    intro argument member
    obtain ⟨path, found, rfl⟩ := List.mem_map.mp member
    exact (file_of_isAbsolute (absolute path found)).1
  rw [List.filter_append, List.filter_append, all, filter_files_of_isAside back,
    List.filter_cons_of_neg (by rw [valued_not_file]; exact Bool.false_ne_true),
    List.filter_cons_of_neg (by rw [valued_not_file]; exact Bool.false_ne_true)]
  simp

/-- What is assumed of a call for several files: paths that are written in full, and files of dialects
that are compiled. -/
structure CallsFiles (layout : Layout) (paths : List Path) : Prop where
  sourcesAbsolute : layout.sources.isAbsolute
  sourcesProper : layout.sources.IsProper
  outputAbsolute : layout.output.isAbsolute
  outputProper : layout.output.IsProper
  absolute : ∀ path ∈ paths, path.isAbsolute
  proper : ∀ path ∈ paths, path.IsProper
  compiled : ∀ path ∈ paths, (Dialect.ofPath path).isCompiled

/-- The compiled forms of files go to their destinations. -/
theorem CallsFiles.destinations {layout : Layout} {paths : List Path}
    (calls : CallsFiles layout paths) (options : CompilerOptions) :
    (paths.map Path.toString).filterMap
      (targetOf (("outbase", layout.sources.toString) :: ("outdir", layout.output.toString) ::
        (options.flags .entryPoints).filterMap settingOf?) layout.root) =
        paths.map layout.destination := by
  rw [List.filterMap_map, ← List.filterMap_eq_map']
  exact List.filterMap_congr fun path member =>
    targetOf_eq_destination (by simp) (by simp [List.lookup_cons]) calls.sourcesAbsolute
      calls.sourcesProper calls.outputAbsolute calls.outputProper (calls.absolute path member)
      (calls.proper path member) (calls.compiled path member)

/-- A call for several files writes into the output tree, where every file has its destination. -/
theorem outputs_entryPoints {layout : Layout} (program : String) (options : CompilerOptions)
    (input : Option String) {paths : List Path} (calls : CallsFiles layout paths) :
    Invocation.outputs
      { command := program :: (paths.map Path.toString ++
          [valued "outbase" layout.sources.toString, valued "outdir" layout.output.toString] ++
          options.flags .entryPoints)
        directory := layout.root, input } = layout.output :: paths.map layout.destination := by
  have output : layout.root.join (Path.ofString layout.output.toString) = layout.output := by
    rw [Path.ofString_toString calls.outputAbsolute calls.outputProper]
    simp [Path.join, calls.outputAbsolute]
  rw [outputs, Invocation.settings, settingsOf_cons, filesOf_cons,
    settings_entryPoints options calls.absolute, named_entryPoints,
    files_entryPoints options calls.absolute, calls.destinations]
  simp [output]

/-- A call for several files writes their destinations. -/
theorem targets_entryPoints {layout : Layout} (program : String) (options : CompilerOptions)
    (input : Option String) {paths : List Path} (calls : CallsFiles layout paths) :
    Invocation.targets
      { command := program :: (paths.map Path.toString ++
          [valued "outbase" layout.sources.toString, valued "outdir" layout.output.toString] ++
          options.flags .entryPoints)
        directory := layout.root, input } = paths.map layout.destination := by
  rw [targets, Invocation.settings, settingsOf_cons, filesOf_cons,
    settings_entryPoints options calls.absolute, filter_outfile, named_entryPoints,
    files_entryPoints options calls.absolute, calls.destinations]
  simp

end Invocation

end TreeBuild
