import TreeBuild.Proofs.Build.Outputs
import TreeBuild.Proofs.Build.Stages
import TreeBuild.Proofs.Specifier.Targets
import TreeBuild.Proofs.Tree.Contents

/-!
# Tools that write their targets

A build asks the compiler for files in two ways: with one call for all plain files, and with one call for
each text that stands for a file. What it counts on is that a call which succeeds leaves a file at each of
its targets and changes no other file, and that a directory comes to be only on the way to a target.

What the compiler has made of a source is then what such a call has left at the destination of the source.
-/
namespace TreeBuild

open TreeBuild.Tree

namespace Compiler

/-- The call for several files. -/
def filesCall (program : String) (layout : Layout) (options : CompilerOptions) (paths : List Path) :
    Invocation where
  command := program :: (paths.map Path.toString ++
    [CompilerOptions.valued "outbase" layout.sources.toString,
      CompilerOptions.valued "outdir" layout.output.toString] ++ options.flags .entryPoints)
  directory := layout.root
  input := none

/-- The call for a text that stands for a file. -/
def textCall (program : String) (options : CompilerOptions) (source output : Path) (text : String)
    (directory : Path) : Invocation where
  command := program :: ([CompilerOptions.valued "sourcefile" source.toString, loaderFlag,
    CompilerOptions.valued "outfile" output.toString] ++ options.flags .buffer)
  directory
  input := some text

/-- The calls by which a build asks for files. -/
inductive Asks (layout : Layout) : Invocation → Prop where
  | files (program : String) (options : CompilerOptions) (paths : List Path)
      (calls : Invocation.CallsFiles layout paths) : Asks layout (filesCall program layout options paths)
  | text (program : String) (options : CompilerOptions) (source output : Path) (text : String)
      (directory : Path) (absolute : output.isAbsolute) (proper : output.IsProper) :
      Asks layout (textCall program options source output text directory)

/-- A call for files writes to the destinations of these files. -/
theorem targets_filesCall {layout : Layout} {paths : List Path}
    (calls : Invocation.CallsFiles layout paths) (program : String) (options : CompilerOptions) :
    (filesCall program layout options paths).targets = paths.map layout.destination :=
  Invocation.targets_entryPoints program options none calls

/-- A call for a text writes to the one output that it names. -/
theorem targets_textCall (program : String) (options : CompilerOptions) (source : Path) (text : String)
    (directory : Path) {output : Path} (absolute : output.isAbsolute) (proper : output.IsProper) :
    (textCall program options source output text directory).targets = [output] := by
  have targets := Invocation.targets_buffer program source.toString output.toString options directory
    (some text)
  rw [Path.ofString_toString absolute proper, Path.join, if_pos absolute] at targets
  exact targets

end Compiler

/-- How a call leaves a tree behind that writes its targets and nothing else. -/
structure Tree.Gains (targets : List Path) (before after : Tree) : Prop where
  regular : after.IsRegular
  fits : ∀ target ∈ targets, target.Fits
  made : ∀ target ∈ targets, (after.contentAt? target.parts).isSome
  rest : ∀ location, (∀ target ∈ targets, location ≠ target.parts) →
    after.contentAt? location = before.contentAt? location
  directories : ∀ location, after.get? location = some .directory →
    before.get? location = some .directory ∨ ∃ target ∈ targets, location <+: target.parts

namespace Tree.Gains

variable {before middle after : Tree} {targets others : List Path}

/-- Without a target nothing is gained. -/
theorem refl (regular : before.IsRegular) : Gains [] before before :=
  ⟨regular, by simp, by simp, fun _ _ => rfl, fun _ directory => .inl directory⟩

/-- What is gained in two parts is gained together. -/
theorem trans (first : Gains targets before middle) (second : Gains others middle after) :
    Gains (targets ++ others) before after where
  regular := second.regular
  fits target member := (List.mem_append.mp member).elim (first.fits target) (second.fits target)
  made target member := by
    by_cases again : ∃ other ∈ others, target.parts = other.parts
    · obtain ⟨other, found, same⟩ := again
      exact same ▸ second.made other found
    · have early : target ∈ targets := (List.mem_append.mp member).resolve_right
        fun late => again ⟨target, late, rfl⟩
      rw [second.rest target.parts fun other found same => again ⟨other, found, same⟩]
      exact first.made target early
  rest location outside := by
    rw [second.rest location fun target member => outside target (List.mem_append_right _ member),
      first.rest location fun target member => outside target (List.mem_append_left _ member)]
  directories location directory := by
    rcases second.directories location directory with old | ⟨target, member, front⟩
    · rcases first.directories location old with oldest | ⟨target, member, front⟩
      · exact .inl oldest
      · exact .inr ⟨target, List.mem_append_left _ member, front⟩
    · exact .inr ⟨target, List.mem_append_right _ member, front⟩

end Tree.Gains

/-- A toolchain whose calls for files, if they succeed, write their targets and nothing else. -/
def Toolchain.WritesTargets (tools : Toolchain) (layout : Layout) : Prop :=
  ∀ (invocation : Invocation) (tree after : Tree) (output errors : String),
    Compiler.Asks layout invocation → tree.IsRegular →
    (∀ target ∈ invocation.targets, target.IsPlain) →
    tools.run invocation tree = (.finished 0 output errors, after) →
    Gains invocation.targets tree after

/-- What the compiler has made of a source: the source was among the files of a call, or its text, with
the imports that markup needs, was given to a call, and the call has left this at its destination. -/
inductive Toolchain.Compiled (tools : Toolchain) (layout : Layout) (options : CompilerOptions)
    (path : Path) (content bytes : Text.Bytes) : Prop where
  | plain (program : String) (paths : List Path) (tree after : Tree) (output errors : String)
      (dialect : Dialect.ofPath path = .plain) (calls : Invocation.CallsFiles layout paths)
      (names : ∀ other ∈ paths, other.IsPlain) (apart : (paths.map fun path => (layout.destination path).parts).Nodup)
      (member : path ∈ paths) (regular : tree.IsRegular) (held : tree.contentAt? path.parts = some content)
      (ran : tools.run (Compiler.filesCall program layout options paths) tree =
        (.finished 0 output errors, after))
      (written : after.contentAt? (layout.destination path).parts = some bytes)
  | markup (program text : String) (directory : Path) (tree after : Tree) (output errors : String)
      (dialect : Dialect.ofPath path = .templatedUi) (absolute : path.isAbsolute)
      (names : path.IsPlain) (regular : tree.IsRegular)
      (decoded : Text.Utf8.decode content = .ok text)
      (ran : tools.run (Compiler.textCall program options path (layout.destination path)
        (Compiler.withPreamble (String.ofList (Text.unifyLineEnds text.toList))) directory) tree =
        (.finished 0 output errors, after))
      (written : after.contentAt? (layout.destination path).parts = some bytes)

/-- A toolchain that makes of a source what its path, its content and the options say, whatever else is
there; where the copy of the configuration lies does not matter. -/
def Toolchain.MakesBy (tools : Toolchain) (layout : Layout)
    (emit : CompilerOptions → Path → Text.Bytes → Text.Bytes) : Prop :=
  ∀ options path content bytes, tools.Compiled layout options path content bytes →
    bytes = emit { options with tsconfig := none } path content

/-! ### The compiler of single texts -/

namespace TextCompiler

/-- A job that is done writes the compiled form of its text to its target, with the directories above. -/
theorem job_gains {tree made written : Tree} (regular : tree.IsRegular) {target : Path}
    (plain : target.IsPlain) {content : Text.Bytes}
    (directories : tree.makeDirectories target.parent = (.ok (), made))
    (writing : made.write target content = .ok written) :
    Gains [target] tree written ∧ written.contentAt? target.parts = some content := by
  have plainParent : target.parent.IsPlain := fun part member =>
    plain part (List.dropLast_subset _ member)
  have same := regular.makeDirectories plainParent
  have new (location : Location)
      (directory : (tree.makeDirectories target.parent).2.get? location = some .directory) :=
    regular.directory_of_makeDirectories plainParent directory
  rw [directories] at same new
  obtain ⟨fits, changes⟩ := same.regular.write plain writing
  refine ⟨⟨changes.regular, by simpa using fits, by simp [changes.here], fun location outside => ?_,
    fun location directory => ?_⟩, changes.here⟩
  · rw [changes.elsewhere (outside target (by simp)), same.contents]
  · rcases new location (changes.directories location directory) with old | front
    · exact .inl old
    · exact .inr ⟨target, by simp, front.trans (List.dropLast_prefix _)⟩

/-- Jobs that are done write their targets and nothing else. -/
theorem runJobs_gains (compiler : TextCompiler) {jobs : List Job} {targets : List Path}
    (aims : jobs.map Job.target = targets.map some) (plain : ∀ target ∈ targets, target.IsPlain)
    {tree after : Tree} (regular : tree.IsRegular) {warnings output errors : String}
    (ran : compiler.runJobs tree warnings jobs = (.finished 0 output errors, after)) :
    Gains targets tree after := by
  induction jobs generalizing targets tree warnings with
  | nil =>
    rw [List.map_nil, eq_comm, List.map_eq_nil_iff] at aims
    subst aims
    cases ran
    exact .refl regular
  | cons job rest inductionHypothesis =>
    obtain ⟨target, others, rfl, aim, aims⟩ := List.map_eq_cons_iff.mp aims.symm
    rw [runJobs] at ran
    split at ran
    · cases ran
    · dsimp only at ran
      split at ran
      · rename_i none
        rw [none] at aim
        cases aim
      · rename_i found
        rw [found] at aim
        cases aim
        split at ran
        · cases ran
        · rename_i made directories
          split at ran
          · cases ran
          · rename_i written writing
            have first := (job_gains regular (plain _ List.mem_cons_self) directories writing).1
            exact first.trans (inductionHypothesis aims.symm
              (fun other member => plain other (List.mem_cons_of_mem _ member)) first.regular ran)

/-- Jobs with different targets leave the compiled forms of their texts there. -/
theorem runJobs_made (compiler : TextCompiler) {jobs : List Job} {targets : List Path}
    (aims : jobs.map Job.target = targets.map some) (plain : ∀ target ∈ targets, target.IsPlain)
    (apart : (targets.map Path.parts).Nodup) {tree after : Tree} (regular : tree.IsRegular)
    {warnings output errors : String}
    (ran : compiler.runJobs tree warnings jobs = (.finished 0 output errors, after)) :
    ∀ job ∈ jobs, ∀ target, job.target = some target → ∃ compiled more,
      compiler.compile job.label job.text = .ok (compiled, more) ∧
        after.contentAt? target.parts = some (Text.Utf8.encode compiled) := by
  induction jobs generalizing targets tree warnings with
  | nil => simp
  | cons job rest inductionHypothesis =>
    obtain ⟨target, others, rfl, aim, aims⟩ := List.map_eq_cons_iff.mp aims.symm
    rw [List.map_cons, List.nodup_cons] at apart
    rw [runJobs] at ran
    split at ran
    · cases ran
    · rename_i compiled more compiles
      dsimp only at ran
      split at ran
      · rename_i none
        rw [none] at aim
        cases aim
      · rename_i found
        rw [found] at aim
        cases aim
        split at ran
        · cases ran
        · rename_i made directories
          split at ran
          · cases ran
          · rename_i written writing
            have plainOthers : ∀ other ∈ others, other.IsPlain := fun other member =>
              plain other (List.mem_cons_of_mem _ member)
            obtain ⟨first, here⟩ := job_gains regular (plain _ List.mem_cons_self) directories writing
            have later := runJobs_gains compiler aims.symm plainOthers first.regular ran
            intro other member aimed given
            rcases List.mem_cons.mp member with rfl | member
            · rw [found] at given
              cases given
              refine ⟨compiled, more, compiles, ?_⟩
              rw [later.rest _ fun other member same => ?_, here]
              exact apart.1 (List.mem_map.mpr ⟨other, member, same.symm⟩)
            · exact inductionHypothesis aims.symm plainOthers apart.2 first.regular ran other member
                aimed given

section

variable {layout : Layout} {tree : Tree} {jobs : List Job}

/-- The job for a file that is compiled to its destination. -/
def fileJob (layout : Layout) (path : Path) (content : Text.Bytes) : Job where
  label := path.toString
  text := Text.Utf8.decodeLossy content
  target := some (layout.destination path)

/-- A call for several files asks for one job for each of them. -/
theorem jobsOf_filesCall {program : String} {options : CompilerOptions} {paths : List Path}
    (calls : Invocation.CallsFiles layout paths)
    (told : jobsOf (Compiler.filesCall program layout options paths) tree = .ok jobs) :
    List.Forall₂ (fun path job => ∃ content, tree.read path = .ok content ∧
      job = fileJob layout path content) paths jobs := by
  have settings := @Invocation.settings_entryPoints layout options paths calls.absolute
  have unnamed : (("outbase", layout.sources.toString) :: ("outdir", layout.output.toString) ::
      (options.flags .entryPoints).filterMap settingOf?).lookup "sourcefile" = none := by
    rw [List.lookup_eq_none_iff]
    rintro ⟨name, value⟩ member
    rcases List.mem_cons.mp member with same | member
    · cases same
      rfl
    rcases List.mem_cons.mp member with same | member
    · cases same
      rfl
    obtain ⟨flag, found, setting⟩ := List.mem_filterMap.mp member
    have other := CompilerOptions.settingOf?_ne_sourcefile flag found value
    exact bne_iff_ne.mpr fun same => other (same ▸ setting)
  unfold jobsOf Compiler.filesCall at told
  dsimp only at told
  rw [settingsOf_cons, filesOf_cons, settings, unnamed,
    Invocation.files_entryPoints options calls.absolute] at told
  have each := forall₂_of_mapM told
  rw [List.forall₂_map_left_iff] at each
  have within := (List.forall₂_and_left paths jobs).mpr ⟨fun path (member : path ∈ paths) => member, each⟩
  refine within.imp fun path job known => ?_
  obtain ⟨member, given⟩ := known
  have absolute := calls.absolute path member
  have proper := calls.proper path member
  have place : layout.root / path.toString = path := by
    change layout.root.join (Path.ofString path.toString) = path
    rw [Path.ofString_toString absolute proper, Path.join, if_pos absolute]
  unfold jobOf at given
  dsimp only at given
  rw [place] at given
  split at given
  · cases given
  · rename_i content read
    refine ⟨content, read, ?_⟩
    rw [settingsOf_cons, settings, Invocation.targetOf_eq_destination (by simp)
      (by simp [List.lookup_cons]) calls.sourcesAbsolute calls.sourcesProper calls.outputAbsolute
      calls.outputProper absolute proper (calls.compiled path member)] at given
    exact (Except.ok.inj given).symm

/-- A call for a text that stands for a file asks for one job. -/
theorem jobsOf_textCall {program text : String} {options : CompilerOptions} {source output : Path}
    {directory : Path} (absolute : output.isAbsolute) (proper : output.IsProper)
    (told : jobsOf (Compiler.textCall program options source output text directory) tree = .ok jobs) :
    jobs = [{ label := source.toString, text, target := some output }] := by
  have place : directory / output.toString = output := by
    change directory.join (Path.ofString output.toString) = output
    rw [Path.ofString_toString absolute proper, Path.join, if_pos absolute]
  have label : settingOf? (CompilerOptions.valued "sourcefile" source.toString) =
      some ("sourcefile", source.toString) := CompilerOptions.settingOf?_valued (by decide) _
  have loader : settingOf? Compiler.loaderFlag = some ("loader", "tsx") := by decide
  have outfile : settingOf? (CompilerOptions.valued "outfile" output.toString) =
      some ("outfile", output.toString) := CompilerOptions.settingOf?_valued (by decide) _
  have settings : settingsOf (Compiler.textCall program options source output text directory).command =
      ("sourcefile", source.toString) :: ("loader", "tsx") :: ("outfile", output.toString) ::
        (options.flags .buffer).filterMap settingOf? := by
    rw [Compiler.textCall, settingsOf_cons, List.cons_append, List.filterMap_cons_some label,
      List.cons_append, List.filterMap_cons_some loader, List.cons_append,
      List.filterMap_cons_some outfile, List.nil_append]
  unfold jobsOf at told
  rw [settings] at told
  have aimed : (directory / output.toString) = output := place
  simp only [List.lookup_cons, beq_self_eq_true] at told
  rw [← Except.ok.inj told]
  simp [Compiler.textCall, aimed]

/-- The destinations that jobs for files aim at. -/
theorem targets_of_fileJobs {paths : List Path}
    (each : List.Forall₂ (fun path job => ∃ content, tree.read path = .ok content ∧
      job = fileJob layout path content) paths jobs) :
    jobs.map Job.target = (paths.map layout.destination).map some := by
  induction each with
  | nil => rfl
  | cons first _ inductionHypothesis =>
    obtain ⟨content, -, rfl⟩ := first
    rw [List.map_cons, inductionHypothesis]
    rfl

end

/-- The compiler of single texts writes its targets and nothing else. -/
theorem toolchain_writesTargets (compiler : TextCompiler) (layout : Layout) :
    compiler.toolchain.WritesTargets layout := by
  intro invocation tree after output errors asks regular plain ran
  unfold toolchain at ran
  dsimp only at ran
  split at ran
  · cases ran
  · rename_i jobs told
    cases asks with
    | files program options paths calls =>
      have aims := targets_of_fileJobs (jobsOf_filesCall calls told)
      rw [Compiler.targets_filesCall calls] at plain ⊢
      exact runJobs_gains compiler aims plain regular ran
    | text program options source target text directory absolute proper =>
      have job := jobsOf_textCall absolute proper told
      rw [Compiler.targets_textCall program options source text directory absolute proper] at plain ⊢
      exact runJobs_gains compiler (by rw [job]; rfl) plain regular ran

/-- The text that is compiled for a source. -/
def sourceText (path : Path) (content : Text.Bytes) : String :=
  match Dialect.ofPath path, Text.Utf8.decode content with
  | .templatedUi, .ok text =>
    Compiler.withPreamble (String.ofList (Text.unifyLineEnds text.toList))
  | _, _ => Text.Utf8.decodeLossy content

/-- What a compiler of single texts makes of a source. -/
def emitted (compiler : TextCompiler) (path : Path) (content : Text.Bytes) : Text.Bytes :=
  match compiler.compile path.toString (sourceText path content) with
  | .ok (compiled, _) => Text.Utf8.encode compiled
  | .error _ => []

/-- The compiler of single texts makes of a source what its path and its content say. -/
theorem toolchain_makesBy (compiler : TextCompiler) {layout : Layout} (placed : layout.IsPlaced) :
    compiler.toolchain.MakesBy layout fun _ => compiler.emitted := by
  intro options path content bytes compiled
  cases compiled with
  | plain program paths tree after output errors dialect calls names apart member regular held ran
      written =>
    unfold toolchain at ran
    dsimp only at ran
    split at ran
    · cases ran
    · rename_i jobs told
      have each := jobsOf_filesCall calls told
      have plain : ∀ target ∈ paths.map layout.destination, target.IsPlain := by
        intro target found
        obtain ⟨other, inside, rfl⟩ := List.mem_map.mp found
        exact Layout.destination_isPlain placed (calls.absolute other inside) (names other inside)
      have made := runJobs_made compiler (targets_of_fileJobs each) plain
        (by rwa [List.map_map]) regular ran
      obtain ⟨job, found, other, read, same⟩ := exists_of_forall₂ each member
      have content : other = content :=
        Option.some.inj ((((regular.read_iff (names path member)).mp read).2).symm.trans held)
      subst content
      obtain ⟨compiled, more, compiles, here⟩ := made job found _ (by rw [same]; rfl)
      rw [written] at here
      have text : sourceText path other = Text.Utf8.decodeLossy other := by
        simp [sourceText, dialect]
      have done : compiler.compile path.toString (sourceText path other) = .ok (compiled, more) := by
        rw [text]
        rw [same] at compiles
        exact compiles
      change bytes = compiler.emitted path other
      rw [emitted, done]
      exact Option.some.inj here
  | markup program text directory tree after output errors dialect absolute names regular decoded ran
      written =>
    unfold toolchain at ran
    dsimp only at ran
    split at ran
    · cases ran
    · rename_i jobs told
      have plain := Layout.destination_isPlain placed absolute names
      have job := jobsOf_textCall (Layout.destination_isAbsolute placed absolute names.proper)
        plain.proper told
      subst job
      have aims : ∀ target ∈ [layout.destination path], target.IsPlain := by simpa using plain
      obtain ⟨compiled, more, compiles, here⟩ := runJobs_made compiler rfl aims (by simp) regular ran _
        (List.mem_singleton.mpr rfl) _ rfl
      rw [written] at here
      have text : sourceText path content =
          Compiler.withPreamble (String.ofList (Text.unifyLineEnds text.toList)) := by
        simp [sourceText, dialect, decoded]
      change bytes = compiler.emitted path content
      rw [emitted, text, compiles]
      exact Option.some.inj here

end TextCompiler

end TreeBuild
