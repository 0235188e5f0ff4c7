import TreeBuild.Proofs.Build.CommandLine
import TreeBuild.Proofs.Project.Discovery

/-!
# Tools that write to their outputs

What a build promises about the tree rests on what its tools do to it. A compiler that is told where to
write writes there, and makes the directories on the way. The compiler of single texts is of this kind:
the targets of its jobs are the outputs that its command line names.
-/
namespace TreeBuild

open TreeBuild.Tree

/-- A toolchain whose calls write to their outputs and below them only: where no link leads astray, a
call whose outputs are all in one place changes nothing outside of that place, but that directories may
come to be on the way there. -/
def Toolchain.WritesOutputsOnly (tools : Toolchain) : Prop :=
  ∀ (invocation : Invocation) (tree : Tree) (top : Location), (∀ part ∈ top, Path.IsName part) →
    tree.Straight top → (∀ output ∈ invocation.outputs, output.StaysIn top) →
    Zone.Edit ⟨fun location => top <+: location, fun location => location <+: top⟩ tree
      (tools.run invocation tree).2

/-- A compiler that writes to its outputs and below them only, whatever other tools do. -/
def Compiler.WritesOutputsOnly (compiler : Compiler) : Prop :=
  ∀ (arguments : List String) (directory : Path) (input : Option String) (tree : Tree) (top : Location),
    let invocation : Invocation := ⟨compiler.program :: arguments, directory, input⟩
    (∀ part ∈ top, Path.IsName part) → tree.Straight top →
      (∀ output ∈ invocation.outputs, output.StaysIn top) →
        Zone.Edit ⟨fun location => top <+: location, fun location => location <+: top⟩ tree
          (compiler.tools.run invocation tree).2

/-- A compiler of tools that write to their outputs only does so, too. -/
theorem Toolchain.WritesOutputsOnly.compiler {compiler : Compiler}
    (writes : compiler.tools.WritesOutputsOnly) : compiler.WritesOutputsOnly :=
  fun _ _ _ tree top => writes _ tree top

namespace TextCompiler

/-- Every job of a call writes to one of the outputs of the call. -/
theorem target_mem_outputs {invocation : Invocation} {tree : Tree} {jobs : List Job}
    (told : jobsOf invocation tree = .ok jobs) :
    ∀ job ∈ jobs, ∀ target, job.target = some target → target ∈ invocation.outputs := by
  intro job member target aimed
  unfold jobsOf at told
  dsimp only at told
  split at told
  · cases told
    rw [List.mem_singleton.mp member] at aimed
    simp only [Option.map_eq_some_iff] at aimed
    obtain ⟨file, found, rfl⟩ := aimed
    obtain ⟨front, back, settings, -⟩ := List.lookup_eq_some_iff.mp found
    have setting : ("outfile", file) ∈ invocation.settings.filter Invocation.namesOutput := by
      simp [Invocation.settings, settings, Invocation.namesOutput]
    exact List.mem_append_left _ (List.mem_map.mpr ⟨_, setting, rfl⟩)
  · obtain ⟨file, found, given⟩ := exists_of_forall₂ (forall₂_of_mapM told).flip member
    unfold jobOf at given
    split at given
    · cases given
    · cases given
      exact List.mem_append_right _ (List.mem_filterMap.mpr ⟨file, found, aimed⟩)

/-- A place that no link turns away from is a room of its own. -/
def ground (top : Location) : Ground where
  zone := ⟨fun location => top <+: location, fun location => location <+: top⟩
  holds tree := tree.Straight top
  kept straight edit := straight.edit edit

/-- Below a place that is written by names there is room for everything. -/
theorem ground_room {top : Location} (names : ∀ part ∈ top, Path.IsName part) :
    (ground top).Room top :=
  ⟨names, fun _ straight => straight, fun _ below => below, fun _ above => .inr above⟩

/-- Jobs are done where their targets are. -/
theorem runJobs_edit (compiler : TextCompiler) {top : Location}
    (names : ∀ part ∈ top, Path.IsName part) {jobs : List Job}
    (stays : ∀ job ∈ jobs, ∀ target, job.target = some target → target.StaysIn top) (tree : Tree)
    (warnings : String) (straight : tree.Straight top) :
    (ground top).zone.Edit tree (compiler.runJobs tree warnings jobs).2 := by
  induction jobs generalizing tree warnings with
  | nil => exact .refl _ _
  | cons job rest inductionHypothesis =>
    rw [runJobs]
    split
    · exact .refl _ _
    · dsimp only
      split
      · exact .refl _ _
      · rename_i target aimed
        have within := stays job List.mem_cons_self target aimed
        have room := ground_room names
        have made : (ground top).zone.Edit tree (tree.makeDirectories target.parent).2 :=
          Ground.makeDirectories_edit straight (room.opens within).parent
        split
        · rename_i failed
          simpa [failed] using made
        · rename_i above success
          rw [success] at made
          split
          · exact made
          · rename_i written writing
            have wrote : (ground top).zone.Edit above written :=
              Ground.write_edit (straight.edit made) (room.owns within) writing
            refine made.trans (wrote.trans (inductionHypothesis (fun other member => ?_) written _
              ((straight.edit made).edit wrote)))
            exact stays other (List.mem_cons_of_mem _ member)

/-- The compiler of single texts writes to its outputs only. -/
theorem toolchain_writesOutputsOnly (compiler : TextCompiler) :
    compiler.toolchain.WritesOutputsOnly := by
  intro invocation tree top names straight outputs
  unfold toolchain
  dsimp only
  split
  · exact .refl _ _
  · rename_i jobs told
    exact runJobs_edit compiler names (fun job member target aimed =>
      outputs target (target_mem_outputs told job member target aimed)) tree "" straight

end TextCompiler

end TreeBuild
