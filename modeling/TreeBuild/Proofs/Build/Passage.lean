import TreeBuild.Proofs.Session.Surroundings

/-!
# What a build of files tells of its sources

The report of a build of files lists the modules that were compiled and the assets that were copied, and it
counts the declarations. The stages fill this in from what their actions answer; nothing else that they note
has to do with it. So what a report tells, and what has become of the session by then, follows from what each
action does to the session: a passage says what holds between the actions, and that each of them leads from
what holds before it to what holds behind it.

The course of a build says the same of the tree alone. A passage also speaks of the calls that were made.
-/
namespace TreeBuild.Build

/-- What a report says of the sources of a build. -/
structure Tally where
  compiled : List Path := []
  copied : List Path := []
  declarations : Nat := 0

/-- What a report says of its sources, and a session like this. -/
structure Tells (tally : Tally) (holds : Session → Prop) (state : BuildState) : Prop where
  tally : (⟨state.report.compiled, state.report.copied, state.report.declarations⟩ : Tally) = tally
  session : holds state.session

section

variable {Answer : Type} {tally : Tally} {before failed property : Session → Prop}

/-- An action leaves the report alone. -/
theorem tells_action {action : Action Answer} {after : Answer → Session → Prop}
    (ends : Ends before action after failed) :
    Ends (Tells tally before) (Pass.ofAction action) (fun answer => Tells tally (after answer))
      (fun state => failed state.session) := by
  refine ⟨fun state start => ?_⟩
  have known := ends.outcome state.session start.session
  unfold Pass.ofAction
  rcases ran : action state.session with ⟨fault | answer, session⟩
  · simpa [ran] using known
  · exact ⟨start.tally, by simpa [ran] using known⟩

/-- A stage says in the report that it has started and ended, and nothing else. -/
theorem tells_stage {stage : Stage} {later : Answer → Tally} {after : Answer → Session → Prop}
    (required : stage.isRequired) (silentBefore : Silent before) (silentAfter : ∀ answer, Silent (after answer))
    (silentFailed : Silent failed) {body : Pass Answer}
    (ends : Ends (Tells tally before) body (fun answer => Tells (later answer) (after answer))
      (fun state => failed state.session)) (context : List (String × Json)) (texts : StageTexts) :
    Ends (Tells tally before) (Pass.stage context stage texts body)
      (fun answer state => ∃ given, answer = some given ∧ Tells (later given) (after given) state)
      (fun state => failed state.session) := by
  refine Concludes.stage ends (fun state told => ⟨told.tally, silentBefore state.session _ told.session⟩)
    (fun answer state told => ⟨answer, rfl, told.tally, silentAfter answer state.session _ told.session⟩)
    (fun _ _ left _ => left) fun fault state journal left _ => ?_
  simpa only [required, if_true] using silentFailed state.session journal left

/-- A stage whose answer is left aside. What it leads to is given case by case. -/
theorem tells_discarded {stage : Stage} {Case : Type} {later : Case → Tally} {after : Case → Session → Prop}
    (required : stage.isRequired) (silentBefore : Silent before) (silentAfter : ∀ given, Silent (after given))
    (silentFailed : Silent failed) {body : Pass Answer}
    (ends : Ends (Tells tally before) body (fun _ state => ∃ given, Tells (later given) (after given) state)
      (fun state => failed state.session)) (context : List (String × Json)) (texts : StageTexts) :
    Ends (Tells tally before) (discard (Pass.stage context stage texts body))
      (fun _ state => ∃ given, Tells (later given) (after given) state) (fun state => failed state.session) := by
  refine Ends.discard (Concludes.stage ends
    (fun state told => ⟨told.tally, silentBefore state.session _ told.session⟩)
    (fun answer state ⟨given, told⟩ => ⟨given, told.tally, silentAfter given state.session _ told.session⟩)
    (fun _ _ left _ => left) fun fault state journal left _ => ?_)
  simpa only [required, if_true] using silentFailed state.session journal left

/-- What an action keeps it also keeps within a build. -/
theorem tells_kept_action {action : Action Answer} (kept : Keeps property action) :
    Keeps (Tells tally property) (Pass.ofAction action) := by
  refine ⟨fun state told => ?_⟩
  have known := kept.outcome state.session told.session
  unfold Pass.ofAction
  rcases ran : action state.session with ⟨fault | answer, session⟩
  · exact ⟨told.tally, by simpa [ran] using known⟩
  · exact ⟨told.tally, by simpa [ran] using known⟩

/-- A stage leaves alone what it keeps, also if it fails. -/
theorem tells_kept_stage {stage : Stage} (silent : Silent property) {body : Pass Answer}
    (kept : Keeps (Tells tally property) body) (context : List (String × Json)) (texts : StageTexts) :
    Keeps (Tells tally property) (discard (Pass.stage context stage texts body)) := by
  refine Ends.discard (Concludes.stage kept
    (fun state told => ⟨told.tally, silent state.session _ told.session⟩)
    (fun answer state told => ⟨told.tally, silent state.session _ told.session⟩)
    (fun _ _ told _ => told) fun fault state journal told _ => ?_)
  have kept : Tells tally property
      { session := { state.session with journal }, report := state.report.fail stage fault.message } := by
    refine ⟨?_, silent state.session journal told.session⟩
    have same := told.tally
    unfold Report.fail
    dsimp only
    split <;> exact same
  dsimp only
  split <;> exact kept

/-- A change of the report that leaves alone what is told of the sources. -/
theorem tells_update {change : Report → Report}
    (same : ∀ report : Report, (change report).compiled = report.compiled ∧
      (change report).copied = report.copied ∧ (change report).declarations = report.declarations) :
    Keeps (Tells tally property) (Pass.update change) := by
  refine .modify _ fun state told => ⟨?_, told.session⟩
  obtain ⟨compiled, copied, declarations⟩ := same state.report
  simpa [compiled, copied, declarations] using told.tally

end

/-! ### The stages that have to succeed -/

/-- What holds of the session between the actions of a build of files, up to the copies of the assets. What
holds then is left alone by the actions that follow. -/
structure Passage (compiler : Compiler) (request : Request) (layout : Layout) (start failed : Session → Prop) where
  cleared : Session → Prop
  found : List SourceFile → Session → Prop
  copied : List SourceFile → Path → Session → Prop
  chosen : List SourceFile → Path → CompilerOptions → Session → Prop
  compiled : List SourceFile → Path → List Path → Session → Prop
  emitted : List SourceFile → List Path → Session → Prop
  complete : List SourceFile → List Path → List Path → Session → Prop
  clears : Ends start (clear request layout) (fun _ => cleared) failed
  discovers : Ends cleared (discoverInput request layout) found failed
  copies : ∀ files, Ends (found files) (copyConfiguration request layout) (copied files) failed
  chooses : ∀ files copy, Ends (copied files copy) (CompilerOptions.ofRequest request layout (some copy))
    (chosen files copy) failed
  compiles : ∀ files copy options, Ends (chosen files copy options) (compile compiler options layout files)
    (compiled files copy) failed
  removes : ∀ files copy outputs, Ends (compiled files copy outputs) (Configuration.removeCopy copy)
    (fun _ => emitted files outputs) failed
  cleans : ∀ copy, Keeps failed (Configuration.removeCopy copy)
  copiesAssets : ∀ files outputs, Ends (emitted files outputs)
    (Output.copyAssets (Sources.ofDialect .asset files) layout) (complete files outputs) failed
  fails : ∀ files outputs assets session, complete files outputs assets session → failed session
  silentStart : Silent start
  silentCleared : Silent cleared
  silentFound : ∀ files, Silent (found files)
  silentChosen : ∀ files copy options, Silent (chosen files copy options)
  silentCompiled : ∀ files copy outputs, Silent (compiled files copy outputs)
  silentEmitted : ∀ files outputs, Silent (emitted files outputs)
  quietComplete : ∀ files outputs assets, Quiet (complete files outputs assets)
  silentFailed : Silent failed

section

variable {compiler : Compiler} {request : Request} {layout : Layout} {start failed property : Session → Prop}
  {tally : Tally}

/-- The stages behind the copies of the assets call no tool, and tell nothing more of the sources. -/
theorem finishing_keeps (quiet : Quiet property) (files : List SourceFile) :
    Keeps (Tells tally property) (do
      if !Tools.rewritesDisabled (← get).session.environment then
        discard (Pass.stage (contextOf request) .normalizing
          ⟨"Normalizing import specifiers.", "Normalized import specifiers.",
            "Failed to normalize import specifiers."⟩
          (do
            let compiled := (← get).report.compiled
            let results ← Pass.ofAction (Specifier.normalizeFiles compiled (sourceOf layout files))
            Pass.update (addResults results)))
      discard (Pass.stage (contextOf request) .patchingMetadata
        ⟨"Checking package type in dist/.", "Checked package type in dist/.",
          "Failed to patch dist/package.json."⟩
        (do
          let patched ← Pass.ofAction (Output.patchType layout.output request.format)
          Pass.update fun report => { report with patchedMetadata := patched }
          if patched then
            Pass.log (contextOf request) .info
              s!"Forced \"type\" package.json field in dist ({request.format.packageType})." []))) := by
  have patches (context : List (String × Json)) (texts : StageTexts) :
      Keeps (Tells tally property)
        (discard (Pass.stage context .patchingMetadata texts (do
          let patched ← Pass.ofAction (Output.patchType layout.output request.format)
          Pass.update fun report => { report with patchedMetadata := patched }
          if patched then
            Pass.log (contextOf request) .info
              s!"Forced \"type\" package.json field in dist ({request.format.packageType})." []))) := by
    refine tells_kept_stage quiet.silent ?_ context texts
    refine (tells_kept_action (quiet.patchType _ _)).bind fun patched => ?_
    refine Keeps.bind (tells_update fun _ => ⟨rfl, rfl, rfl⟩) fun _ => ?_
    split
    · exact .modify _ fun state told => ⟨told.tally, quiet.silent state.session _ told.session⟩
    · exact .pure
  have normalizes (context : List (String × Json)) (texts : StageTexts) :
      Keeps (Tells tally property)
        (discard (Pass.stage context .normalizing texts (do
          let compiled := (← get).report.compiled
          let results ← Pass.ofAction (Specifier.normalizeFiles compiled (sourceOf layout files))
          Pass.update (addResults results)))) := by
    refine tells_kept_stage quiet.silent ?_ context texts
    refine Keeps.get.bind fun state => ?_
    refine (tells_kept_action (quiet.normalizeFiles _ _)).bind fun results => ?_
    exact tells_update fun _ => ⟨rfl, rfl, rfl⟩
  refine Keeps.get.bind fun state => ?_
  split
  · exact (normalizes _ _).bind fun _ => patches _ _
  · exact patches _ _

namespace Passage

variable (passage : Passage compiler request layout start failed)

/-- The declarations among the sources that are found are counted. -/
theorem classifying_tells (context : List (String × Json)) (texts : StageTexts) :
    Ends (Tells {} passage.cleared)
      (Pass.stage context .classifying texts (do
        let files ← Pass.ofAction (discoverInput request layout)
        Pass.update fun report =>
          { report with declarations := (Sources.ofDialect .declaration files).length }
        return files))
      (fun found state => ∃ files, found = some files ∧
        Tells { declarations := (Sources.ofDialect .declaration files).length } (passage.found files) state)
      (fun state => failed state.session) := by
  refine tells_stage rfl passage.silentCleared passage.silentFound passage.silentFailed ?_ context texts
  refine (tells_action passage.discovers).bind fun files => ?_
  refine Ends.through (fun _ => Tells { declarations := (Sources.ofDialect .declaration files).length }
    (passage.found files)) (.modify _ fun state told => ?_) fun _ => .pure fun _ told => told
  have tally := told.tally
  rw [Tally.mk.injEq] at tally
  exact ⟨by rw [Tally.mk.injEq]; exact ⟨tally.1, tally.2.1, rfl⟩, told.session⟩

/-- The modules that are compiled while there is a copy of the configuration are listed. -/
theorem compiling_tells (files : List SourceFile) (copy : Path) {declarations : Nat}
    (context : List (String × Json)) (texts : StageTexts) :
    Ends (Tells { declarations } (passage.copied files copy))
      (Pass.closing (Configuration.removeCopy copy) do
        let options ← Pass.ofAction (CompilerOptions.ofRequest request layout (some copy))
        discard (Pass.stage context .compiling texts (do
          let compiled ← Pass.ofAction (compile compiler options layout files)
          Pass.update fun report => { report with compiled })))
      (fun _ state => ∃ outputs,
        Tells { compiled := outputs, declarations } (passage.emitted files outputs) state)
      (fun state => failed state.session) := by
  refine Concludes.closingPass (fun _ state => ∃ outputs,
      Tells { compiled := outputs, declarations } (passage.compiled files copy outputs) state)
    (fun _ state => failed state.session) ?_ (fun _ => ?_) fun _ => ?_
  · refine Ends.bind (tells_action (passage.chooses files copy)) fun options => ?_
    refine tells_discarded rfl (passage.silentChosen files copy options) (passage.silentCompiled files copy)
      passage.silentFailed ?_ context texts
    refine (tells_action (passage.compiles files copy options)).bind fun outputs =>
      .modify _ fun state told => ⟨outputs, ?_, told.session⟩
    have tally := told.tally
    rw [Tally.mk.injEq] at tally ⊢
    exact ⟨rfl, tally.2⟩
  · refine Concludes.of_exists fun outputs => ?_
    exact (tells_action (passage.removes files copy outputs)).mono (fun _ told => told)
      (fun _ _ told => ⟨outputs, told⟩) fun _ left => left
  · refine ⟨fun state left => ?_⟩
    have known := (passage.cleans copy).outcome state.session left
    unfold Pass.ofAction
    rcases ran : Configuration.removeCopy copy state.session with ⟨fault | answer, session⟩ <;>
      simpa [ran] using known

/-- The assets that are copied are listed. -/
theorem copying_tells (files : List SourceFile) (outputs : List Path) {declarations : Nat}
    (context : List (String × Json)) (texts : StageTexts) :
    Ends (Tells { compiled := outputs, declarations } (passage.emitted files outputs))
      (discard (Pass.stage context .copyingAssets texts (do
        let copied ← Pass.ofAction (Output.copyAssets (Sources.ofDialect .asset files) layout)
        Pass.update fun report => { report with copied })))
      (fun _ state => ∃ assets, Tells { compiled := outputs, copied := assets, declarations }
        (passage.complete files outputs assets) state)
      (fun state => failed state.session) := by
  refine tells_discarded rfl (passage.silentEmitted files outputs)
    (fun assets => (passage.quietComplete files outputs assets).silent) passage.silentFailed ?_ context texts
  refine (tells_action (passage.copiesAssets files outputs)).bind fun assets =>
    .modify _ fun state told => ⟨assets, ?_, told.session⟩
  have tally := told.tally
  rw [Tally.mk.injEq] at tally ⊢
  exact ⟨tally.1, rfl, tally.2.2⟩

/-- The stages that have to succeed lead from one end of a passage to the other, and the report then tells what
was compiled and copied, and how many declarations were found. -/
theorem requiredStages_tells :
    Ends (Tells {} start) (requiredStages compiler request layout)
      (fun _ state => ∃ files outputs assets,
        Tells ⟨outputs, assets, (Sources.ofDialect .declaration files).length⟩
          (passage.complete files outputs assets) state)
      (fun state => failed state.session) := by
  unfold requiredStages
  dsimp only
  refine Ends.through (fun _ => Tells {} passage.cleared) ?_ fun _ => ?_
  · refine Ends.discard ((tells_stage rfl passage.silentStart (fun _ => passage.silentCleared)
      passage.silentFailed (tells_action passage.clears) _ _).mono (fun _ told => told) ?_ fun _ left => left)
    rintro answer state ⟨given, -, told⟩
    exact told
  refine Ends.bind (passage.classifying_tells _ _) fun found => Ends.of_exists fun files =>
    Ends.of_and fun same => ?_
  subst same
  dsimp only [Option.getD_some]
  refine Ends.bind (tells_action (passage.copies files)) fun copy => ?_
  refine Ends.bind (passage.compiling_tells files copy _ _) fun _ => Ends.of_exists fun outputs => ?_
  refine Ends.bind (passage.copying_tells files outputs _ _) fun _ => Ends.of_exists fun assets => ?_
  exact (finishing_keeps (passage.quietComplete files outputs assets) files).mono (fun _ told => told)
    (fun _ _ told => ⟨files, outputs, assets, told⟩)
    fun state told => passage.fails files outputs assets state.session told.session

end Passage

end

end TreeBuild.Build
