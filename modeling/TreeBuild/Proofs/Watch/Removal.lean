import TreeBuild.Proofs.Glob.Descent
import TreeBuild.Proofs.Project.Collisions
import TreeBuild.Proofs.Session.Ends
import TreeBuild.Watch.Handling

/-!
# Removing the output of what is gone

The output of a source that is gone is found by its destination alone; the sources that are left are not
asked. So a removal takes one entry away at most, the one that the destination names, and the output of
another source is lost only if it is that entry: two modules of one directory with one stem share their
destination, and a link in the output tree can lead two destinations to one place.

A directory of sources that is gone takes its counterpart with it. A destination lies below the counterpart
exactly if its source lies below the directory, because the new suffix of a module touches the last name
only. That name may be the one of the counterpart, but then a file is there and nothing is removed.
-/
namespace TreeBuild

namespace Tree

/-- One entry is gone at most, a file or a link that a path names, and all others are as they were. -/
def LosesAtMost (before : Tree) (path : Path) (after : Tree) : Prop :=
  ∀ location, after.get? location = before.get? location ∨
    before.locatePath .entry path = .ok location ∧ after.get? location = none ∧
      ∃ entry, before.get? location = some entry ∧ entry ≠ .directory

namespace LosesAtMost

variable {before after : Tree} {path other : Path}

/-- A tree that has not changed has lost nothing. -/
theorem refl (tree : Tree) (path : Path) : tree.LosesAtMost path tree :=
  fun _ => .inl rfl

/-- What is taken away as a file is the entry that the path names. -/
theorem of_unlink (unlinked : before.unlink path = .ok after) : before.LosesAtMost path after := by
  obtain ⟨place, entry, found, present, notDirectory, rfl⟩ := unlink_cases unlinked
  intro location
  by_cases same : location = place
  · right
    subst same
    have inside : location ≠ [] := by
      rintro rfl
      exact notDirectory (Option.some.inj present).symm
    exact ⟨found, get?_erase_self before inside, entry, present, notDirectory⟩
  · left
    exact get?_erase_of_ne before same

/-- No directory is lost. -/
theorem directory_iff (loses : before.LosesAtMost path after) (location : Location) :
    after.get? location = some .directory ↔ before.get? location = some .directory := by
  rcases loses location with same | ⟨-, gone, entry, present, notDirectory⟩
  · rw [same]
  · rw [gone, present]
    simpa using notDirectory

/-- No link comes to be. -/
theorem unlinked (loses : before.LosesAtMost path after) {parts : List String}
    (clear : before.Unlinked [] parts) : after.Unlinked [] parts := by
  intro front within target link
  rcases loses (Location.follow [] front) with same | ⟨-, gone, -⟩
  · exact clear front within target (same ▸ link)
  · rw [gone] at link
    cases link

/-- Where no link turns the paths aside, what is at another path stays, and nothing comes to be there. -/
theorem status_iff (loses : before.LosesAtMost path after) (plain : path.IsPlain)
    (clear : before.Unlinked [] path.parts) (plainOther : other.IsPlain)
    (clearOther : before.Unlinked [] other.parts) (apart : path.parts ≠ other.parts) (entry : Entry) :
    after.status other = .ok entry ↔ before.status other = .ok entry := by
  have same : after.get? other.parts = before.get? other.parts := by
    rcases loses other.parts with same | ⟨found, -⟩
    · exact same
    · exact absurd ((locatePath_iff plain clear).mp found).1.symm apart
  have reaches : after.Reaches other.parts ↔ before.Reaches other.parts := by
    unfold Reaches
    simp only [loses.directory_iff]
  rw [Tree.status_iff plainOther (loses.unlinked clearOther), Tree.status_iff plainOther clearOther,
    reaches, same]

end LosesAtMost

end Tree

namespace Output

variable {layout : Layout} {session : Session}

/-- Removing one file of the output changes the tree only if the file can be taken away. -/
theorem invalidate_ends (destination : Path) :
    Ends (· = session) (invalidate destination)
      (fun _ final => final.tree = session.tree ∨ session.tree.unlink destination = .ok final.tree)
      (fun final => final.tree = session.tree) := by
  apply Ends.get.bind
  intro now
  split
  · rename_i tree unlinked
    have changes : Ends (fun final => now = final ∧ final = session)
        (modify fun session : Session => { session with tree })
        (fun _ final => session.tree.unlink destination = .ok final.tree)
        (fun final => final.tree = session.tree) := by
      refine Ends.modify (fun final : Session => session.tree.unlink destination = .ok final.tree) ?_
      rintro _ ⟨rfl, rfl⟩
      exact unlinked
    exact changes.bind fun _ => .pure fun _ changed => .inr changed
  · apply Ends.pure
    rintro _ ⟨-, rfl⟩
    exact .inl rfl
  · apply Ends.throw
    rintro _ ⟨-, rfl⟩
    rfl

/-- A directory without a counterpart of its own in the output leaves the output alone. -/
theorem removeCounterpart_of_none {directory : Path}
    (outside : ∀ place, directory.relativeTo? layout.sources = some place →
      layout.output.join place = layout.output) :
    removeCounterpart directory layout session = (.ok false, session) := by
  unfold removeCounterpart
  cases below : directory.relativeTo? layout.sources with
  | none => rfl
  | some place =>
    dsimp only
    rw [if_pos (outside place below)]
    rfl

/-- What is no directory in the output is not removed as the counterpart of one. -/
theorem removeCounterpart_of_not {directory place : Path}
    (below : directory.relativeTo? layout.sources = some place)
    (absent : session.tree.isDirectory (layout.output.join place) ≠ .ok true) :
    Ends (· = session) (removeCounterpart directory layout) (fun _ final => final = session)
      (fun final => final = session) := by
  unfold removeCounterpart
  rw [below]
  dsimp only
  split
  · exact .pure fun _ same => same
  · have asked : Ends (· = session) (Action.askFiles (·.isDirectory (layout.output.join place)))
        (fun found final => final.tree.isDirectory (layout.output.join place) = .ok found ∧ final = session)
        (fun final => final = session) :=
      (Ends.askFiles _).mono (fun _ start => start) (fun _ _ told => told) fun _ told => told.2
    apply asked.bind
    intro found
    cases found with
    | false => exact .pure fun _ told => told.2
    | true =>
      refine ⟨?_⟩
      rintro _ ⟨told, rfl⟩
      exact absurd told absent

/-- A directory of the output is removed as the counterpart of one of the sources. -/
theorem removeCounterpart_of_isDirectory {directory place : Path}
    (below : directory.relativeTo? layout.sources = some place)
    (apart : layout.output.join place ≠ layout.output)
    (present : session.tree.isDirectory (layout.output.join place) = .ok true) :
    Ends (· = session) (removeCounterpart directory layout)
      (fun _ final => final.tree = (session.tree.removeTree (layout.output.join place)).2)
      (fun final => final.tree = (session.tree.removeTree (layout.output.join place)).2) := by
  unfold removeCounterpart
  rw [below]
  dsimp only
  rw [if_neg apart]
  have asked : Ends (· = session) (Action.askFiles (·.isDirectory (layout.output.join place)))
      (fun found final => found = true ∧ final = session)
      (fun final => final.tree = (session.tree.removeTree (layout.output.join place)).2) := by
    refine (Ends.askFiles _).mono (fun _ start => start) ?_ ?_
    · rintro found _ ⟨told, rfl⟩
      rw [present] at told
      exact ⟨(Except.ok.inj told).symm, rfl⟩
    · rintro _ ⟨⟨fault, told⟩, rfl⟩
      rw [present] at told
      cases told
  refine asked.bind fun found => Ends.of_and fun isDirectory => ?_
  rw [if_pos isDirectory]
  have alters : Ends (· = session) (Action.alterFiles (·.removeTree (layout.output.join place)))
      (fun _ final => final.tree = (session.tree.removeTree (layout.output.join place)).2)
      (fun final => final.tree = (session.tree.removeTree (layout.output.join place)).2) := by
    apply Ends.alterFiles
    · rintro _ rfl -
      rfl
    · rintro _ rfl
      rfl
  exact alters.bind fun _ => .pure fun _ same => same

end Output

namespace Watch

variable {layout : Layout} {event : WatchEvent} {session : Session}

/-- An event about a source that is gone from the project at `/p`. -/
def removalOf (names : List String) (isDirectory : Bool) : WatchEvent :=
  { path := ⟨.root, ["p", "src"] ++ names⟩, kind := .removed, isDirectory }

/-- Tools that are never called. -/
def idleTools : Toolchain := ⟨fun _ tree => (.finished 0 "" "", tree)⟩

/-- A project in which a directory, a module and a directory of styles have names in common. A component is
gone from the sources. -/
def kinSession : Session where
  tree := ⟨[(["p"], .directory), (["p", "src"], .directory), (["p", "src", "ui"], .directory),
    (["p", "src", "ui.ts"], .file [] false), (["p", "dist"], .directory),
    (["p", "dist", "ui"], .directory), (["p", "dist", "ui", "App.js"], .file [] false),
    (["p", "dist", "ui.js"], .file [] false), (["p", "dist", "uikit"], .directory),
    (["p", "dist", "uikit", "x.css"], .file [] false)]⟩
  environment := []
  directory := ⟨.root, ["p"]⟩
  temporary := ⟨.root, ["t"]⟩
  clock := 1

/-- In the project with the kin no link is on the way to the output tree. -/
theorem kinSession_straight : kinSession.tree.Straight (Layout.ofRoot ⟨.root, ["p"]⟩).output.parts := by
  have regular : kinSession.tree.IsRegular := Tree.isRegular_of_entries (by decide +kernel)
  intro location target link
  exact absurd link (regular.linkless location target)

/-! ### One source -/

/-- A tree from which the destination of a source may have been taken away; a declaration has none. -/
def Withdraws (layout : Layout) (event : WatchEvent) (before after : Tree) : Prop :=
  after = before ∨ Dialect.ofPath event.path ≠ .declaration ∧
    before.unlink (layout.destination event.path) = .ok after

/-- Removing a file withdraws its destination, whether that succeeds or not. -/
theorem removeDestination_withdraws (single : event.isDirectory = false) :
    Ends (· = session) (removeDestination event layout)
      (fun _ final => Withdraws layout event session.tree final.tree)
      (fun final => Withdraws layout event session.tree final.tree) := by
  unfold removeDestination
  simp only [single, Bool.not_false, Bool.true_and, decide_eq_true_eq, Bool.false_eq_true, if_false]
  split
  · apply Ends.pure
    rintro _ rfl
    exact .inl rfl
  · rename_i built
    have invalidates : Ends (· = session) (Output.invalidate (layout.destination event.path))
        (fun _ final => Withdraws layout event session.tree final.tree)
        (fun final => Withdraws layout event session.tree final.tree) :=
      (Output.invalidate_ends _).mono (fun _ start => start)
        (fun _ _ ended => ended.imp_right fun unlinked => ⟨built, unlinked⟩) fun _ same => .inl same
    apply invalidates.bind
    intro removed
    cases removed with
    | false => exact .pure fun _ withdrawn => withdrawn
    | true => exact (Keeps.record (fun _ _ withdrawn => withdrawn) _ _ _).bind fun _ => .pure

/-- Handling the removal of a source takes one entry away at most, which its destination names, and none
for a declaration. In an output tree without links it leaves the output of every source that is still
there as it was, except for modules of the same directory whose names differ in the suffix alone. -/
theorem handle_removed_spares (tools : Toolchain) (request : Request) (layout : Layout)
    (event : WatchEvent) (session : Session) (gone : event.kind = .removed)
    (single : event.isDirectory = false) :
    let after := (handle tools event request layout session).2.tree
    session.tree.LosesAtMost (layout.destination event.path) after ∧
      (Dialect.ofPath event.path = .declaration → after = session.tree) ∧
      (layout.IsSource event.path → (∀ entry, session.tree.status event.path ≠ .ok entry) →
        layout.output.IsPlain → session.tree.Straight layout.output.parts →
        ∀ other, layout.IsSource other → (∃ entry, session.tree.status other = .ok entry) →
          ¬ Layout.AreTwins event.path other →
          ∀ entry, after.status (layout.destination other) = .ok entry ↔
            session.tree.status (layout.destination other) = .ok entry) := by
  have handled : Withdraws layout event session.tree (handle tools event request layout session).2.tree := by
    unfold handle
    rw [if_pos gone]
    exact (removeDestination_withdraws single).discard.leaves rfl
  have loses : session.tree.LosesAtMost (layout.destination event.path)
      (handle tools event request layout session).2.tree := by
    rcases handled with same | ⟨-, unlinked⟩
    · rw [same]
      exact .refl _ _
    · exact .of_unlink unlinked
  refine ⟨loses, fun declaration => ?_, ?_⟩
  · exact handled.resolve_right fun unlinked => unlinked.1 declaration
  · intro source absent plain straight other another present apart entry
    have different : event.path ≠ other := by
      rintro rfl
      obtain ⟨entry, found⟩ := present
      exact absent entry found
    have clear {path : Path} (source : layout.IsSource path) :
        session.tree.Unlinked [] (layout.destination path).parts :=
      straight.unlinked_of_isPlain (source.isPlain_destination plain) source.output_isPrefix
    exact loses.status_iff (source.isPlain_destination plain) (clear source)
      (another.isPlain_destination plain) (clear another)
      (source.destination_ne another different apart) entry

/-- The removal of the component takes its output away, and the module keeps its own. -/
theorem handle_removed_spares_module :
    let after := (handle idleTools (removalOf ["ui", "App.tsx"] false) { mode := .development }
      (.ofRoot ⟨.root, ["p"]⟩) kinSession).2.tree
    after.status ⟨.root, ["p", "dist", "ui", "App.js"]⟩ = .error .noEntry ∧
      after.status ⟨.root, ["p", "dist", "ui.js"]⟩ = .ok (.file [] false) := by
  have spares := handle_removed_spares idleTools { mode := .development } (.ofRoot ⟨.root, ["p"]⟩)
    (removalOf ["ui", "App.tsx"] false) kinSession rfl rfl
  have source : (Layout.ofRoot ⟨.root, ["p"]⟩).IsSource ⟨.root, ["p", "src", "ui", "App.tsx"]⟩ :=
    ⟨by decide, by decide, by decide, by decide, by decide⟩
  have module : (Layout.ofRoot ⟨.root, ["p"]⟩).IsSource ⟨.root, ["p", "src", "ui.ts"]⟩ :=
    ⟨by decide, by decide, by decide, by decide, by decide⟩
  have gone : kinSession.tree.status ⟨.root, ["p", "src", "ui", "App.tsx"]⟩ = .error .noEntry := by decide +kernel
  have present : kinSession.tree.status ⟨.root, ["p", "src", "ui.ts"]⟩ = .ok (.file [] false) := by
    decide +kernel
  have before : kinSession.tree.status ⟨.root, ["p", "dist", "ui.js"]⟩ = .ok (.file [] false) := by
    decide +kernel
  have apart : ¬ Layout.AreTwins ⟨.root, ["p", "src", "ui", "App.tsx"]⟩ ⟨.root, ["p", "src", "ui.ts"]⟩ :=
    fun twins => absurd twins.parent (by decide)
  refine ⟨by decide +kernel, (spares.2.2 source (fun entry found => ?_) (by decide) kinSession_straight _ module
    ⟨_, present⟩ apart _).mpr before⟩
  cases gone.symm.trans found

/-- A project in which a component has a twin, and in which a link leads from one directory of the output to
another one. Two sources are gone: the twin of the component, and one whose output would lie behind the
link. -/
def mixedSession : Session where
  tree := ⟨[(["p"], .directory), (["p", "src"], .directory), (["p", "src", "a.tsx"], .file [] false),
    (["p", "src", "b"], .directory), (["p", "src", "b", "x.css"], .file [] false),
    (["p", "dist"], .directory), (["p", "dist", "a.js"], .file [] false), (["p", "dist", "b"], .directory),
    (["p", "dist", "b", "x.css"], .file [] false), (["p", "dist", "c"], .link "b")]⟩
  environment := []
  directory := ⟨.root, ["p"]⟩
  temporary := ⟨.root, ["t"]⟩
  clock := 1

/-- The removal of one source takes away the output of another one that is still there and is no
declaration. -/
def TakesOutputOf (session : Session) (gone left : List String) : Prop :=
  let layout := Layout.ofRoot ⟨.root, ["p"]⟩
  let other := (removalOf left false).path
  layout.IsSource (removalOf gone false).path ∧
    session.tree.status (removalOf gone false).path = .error .noEntry ∧
    layout.IsSource other ∧ session.tree.status other = .ok (.file [] false) ∧
    Dialect.ofPath other ≠ .declaration ∧
    session.tree.status (layout.destination other) = .ok (.file [] false) ∧
    (handle idleTools (removalOf gone false) { mode := .development } layout session).2.tree.status
      (layout.destination other) = .error .noEntry

/-- The output of a source can be lost with another source: with its twin, or with one whose destination
leads through a link to the same place. -/
theorem handle_removed_takes_output :
    TakesOutputOf mixedSession ["a.ts"] ["a.tsx"] ∧
      TakesOutputOf mixedSession ["c", "x.css"] ["b", "x.css"] := by
  constructor
  · exact ⟨⟨by decide, by decide, by decide, by decide, by decide⟩, by decide +kernel,
      ⟨by decide, by decide, by decide, by decide, by decide⟩, by decide +kernel, by decide,
      by decide +kernel, by decide +kernel⟩
  · exact ⟨⟨by decide, by decide, by decide, by decide, by decide⟩, by decide +kernel,
      ⟨by decide, by decide, by decide, by decide, by decide⟩, by decide +kernel, by decide,
      by decide +kernel, by decide +kernel⟩

/-! ### A directory of sources -/

/-- Removing a directory removes its counterpart, and tells of it if it was there. -/
theorem removeDestination_of_isDirectory (directory : event.isDirectory) :
    removeDestination event layout = (do
      let removed ← Output.removeCounterpart event.path layout
      if removed then Action.record logSource .info s!"[deleted] {layout.destination event.path}"
      return removed) := by
  unfold removeDestination
  simp only [directory, Bool.not_true, Bool.false_and, Bool.false_eq_true, if_false, if_true]

/-- What is below a top begins with it and goes on. -/
theorem isBelow_iff {location top : Location} :
    Tree.isBelow location top ↔ top <+: location ∧ location ≠ top := by
  simp [Tree.isBelow, List.isPrefixOf_iff_prefix]

/-- What comes before the last part lies above it, whatever the last part is. -/
theorem isBelow_concat_iff {above rest : List String} (top : Location) (name : String) :
    Tree.isBelow (top ++ above ++ [name]) (top ++ rest) ↔ rest <+: above := by
  rw [isBelow_iff, List.append_assoc, List.prefix_append_right_inj, List.prefix_concat_iff, ne_eq,
    List.append_cancel_left_eq]
  constructor
  · rintro ⟨same | within, other⟩
    · exact absurd same.symm other
    · exact within
  · intro within
    refine ⟨.inr within, fun same => ?_⟩
    have short := within.length_le
    rw [← same, List.length_append, List.length_singleton] at short
    omega

/-- A source lies below a directory of sources exactly if its destination lies below the counterpart of
the directory, though the two may end in other names. -/
theorem isBelow_destination_iff {path directory : Path} {rest : List String}
    (source : layout.IsSource path) (below : directory.parts = layout.sources.parts ++ rest) :
    Tree.isBelow (layout.destination path).parts (layout.output.below rest).parts ↔
      Tree.isBelow path.parts directory.parts := by
  obtain ⟨above, place, lies, -⟩ := source.exists_destination
  have parts : path.parts = layout.sources.parts ++ above ++ [path.name] := congrArg Path.parts place
  rw [parts, below, lies, Path.below_parts, isBelow_concat_iff, isBelow_concat_iff]

/-- A source directory strictly below the sources has its counterpart in the same place of the output. -/
theorem exists_counterpart {directory : Path} (source : layout.IsSource directory)
    (plain : layout.output.IsPlain) : ∃ rest, rest ≠ [] ∧
      directory.parts = layout.sources.parts ++ rest ∧
      directory.relativeTo? layout.sources = some ⟨.relative, rest⟩ ∧
      layout.output.join (layout.placeOf directory) = layout.output.below rest ∧
      (layout.output.below rest).IsPlain := by
  obtain ⟨rest, whole⟩ := source.below
  have place : directory.relativeTo? layout.sources = some ⟨.relative, rest⟩ := by
    rw [Path.relativeTo?, if_pos ⟨source.anchor, source.below⟩, ← whole, List.drop_left]
  refine ⟨rest, ?_, whole.symm, place, ?_, ?_⟩
  · rintro rfl
    exact source.apart (by simpa using whole.symm)
  · rw [Layout.placeOf, place]
    rfl
  · apply Glob.isPlain_below plain
    intro part member
    exact source.plain part (whole ▸ List.mem_append_right _ member)

/-- Only a directory strictly below the sources has a counterpart strictly below the output. -/
theorem isSource_of_counterpart {directory place : Path} (absolute : directory.isAbsolute)
    (plain : directory.IsPlain) (below : directory.relativeTo? layout.sources = some place)
    (apart : layout.output.join place ≠ layout.output) : layout.IsSource directory := by
  unfold Path.relativeTo? at below
  split at below
  · rename_i inside
    obtain rfl := Option.some.inj below
    refine ⟨absolute, plain, inside.1, inside.2, fun same => apart ?_⟩
    rw [same, List.drop_length]
    exact Path.eq_of_parts rfl (List.append_nil _)
  · cases below

/-- What is the counterpart of a directory and no directory itself is left alone. -/
theorem removeDestination_keeps {place : Path} (directory : event.isDirectory)
    (below : event.path.relativeTo? layout.sources = some place)
    (absent : session.tree.isDirectory (layout.output.join place) ≠ .ok true) :
    (removeDestination event layout session).2.tree = session.tree := by
  have keeps : Ends (· = session) (removeDestination event layout)
      (fun _ final => final.tree = session.tree) (fun final => final.tree = session.tree) := by
    rw [removeDestination_of_isDirectory directory]
    have removes := (Output.removeCounterpart_of_not below absent).mono (fun _ start => start)
      (fun _ _ same => congrArg Session.tree same) fun _ same => congrArg Session.tree same
    apply removes.bind
    intro removed
    cases removed with
    | false => exact .pure fun _ same => same
    | true => exact (Keeps.record (fun _ _ same => same) _ _ _).bind fun _ => .pure
  exact keeps.leaves rfl

/-- What lies in the counterpart of a directory is gone, and nothing else is. -/
theorem get?_removeDestination {place : Path} (directory : event.isDirectory)
    (below : event.path.relativeTo? layout.sources = some place)
    (apart : layout.output.join place ≠ layout.output) (plain : (layout.output.join place).IsPlain)
    (inside : (layout.output.join place).parts ≠ [])
    (unlinked : session.tree.Unlinked [] (layout.output.join place).parts)
    (present : session.tree.isDirectory (layout.output.join place) = .ok true) (location : Location) :
    (removeDestination event layout session).2.tree.get? location =
      if (layout.output.join place).parts <+: location then none else session.tree.get? location := by
  have removed := Tree.removeTree_ok plain inside unlinked (Tree.isDirectory_iff.mp present)
  have takes : Ends (· = session) (removeDestination event layout)
      (fun _ final => final.tree = (session.tree.removeTree (layout.output.join place)).2)
      (fun final => final.tree = (session.tree.removeTree (layout.output.join place)).2) := by
    rw [removeDestination_of_isDirectory directory]
    apply (Output.removeCounterpart_of_isDirectory below apart present).bind
    intro removed
    cases removed with
    | false => exact .pure fun _ same => same
    | true => exact (Keeps.record (fun _ _ same => same) _ _ _).bind fun _ => .pure
  rw [takes.leaves rfl]
  exact Tree.get?_removeTree plain inside unlinked removed location

/-- What is below the counterpart of a directory shows that the counterpart is a directory. -/
theorem isDirectory_of_below {tree : Tree} {target path : Path} (absolute : target.isAbsolute)
    (plain : target.IsPlain) (unlinked : tree.Unlinked [] target.parts) (same : path.anchor = target.anchor)
    (below : target.parts <+: path.parts) (apart : target.parts ≠ path.parts) (fits : path.Fits)
    (reaches : tree.Reaches path.parts) : tree.isDirectory target = .ok true := by
  obtain ⟨rest, whole⟩ := below
  have path_eq : path = target.below rest := Path.eq_of_parts same whole.symm
  have fitsTarget : target.Fits := Glob.fits_of_below absolute (path_eq ▸ fits)
  have front : target.parts <+: path.parts := ⟨rest, whole⟩
  apply Tree.isDirectory_iff.mpr
  apply (Tree.status_iff plain unlinked).mpr
  refine ⟨fitsTarget, fun above before other => ?_, reaches target.parts front apart⟩
  refine reaches above (before.trans front) fun same => apart ?_
  exact front.eq_of_length_le (same ▸ before.length_le)

/-- The removal of a directory strictly below the sources takes away what lies in its counterpart in the
output, and nothing else; an output file is gone afterwards exactly if its source lies strictly below the
directory. For the directory of the sources itself, and for one outside of it, nothing is done. -/
theorem removeDestination_of_directory (layout : Layout) (event : WatchEvent) (session : Session)
    (directory : event.isDirectory) (absolute : event.path.isAbsolute) (plain : event.path.IsPlain) :
    (¬ layout.IsSource event.path → removeDestination event layout session = (.ok false, session)) ∧
    (layout.IsSource event.path → layout.output.isAbsolute → layout.output.IsPlain →
      session.tree.Straight layout.output.parts →
      let after := (removeDestination event layout session).2.tree
      (∀ location, ¬ (layout.output.join (layout.placeOf event.path)).parts <+: location →
        after.get? location = session.tree.get? location) ∧
      after.get? layout.output.parts = session.tree.get? layout.output.parts ∧
      ∀ path, layout.IsSource path → session.tree.isFile (layout.destination path) = .ok true →
        after.get? (layout.destination path).parts =
          if Tree.isBelow path.parts event.path.parts then none
          else session.tree.get? (layout.destination path).parts) := by
  constructor
  · intro elsewhere
    have none : Output.removeCounterpart event.path layout session = (.ok false, session) := by
      apply Output.removeCounterpart_of_none
      intro place below
      by_contra apart
      exact elsewhere (isSource_of_counterpart absolute plain below apart)
    rw [removeDestination_of_isDirectory directory, bind_apply, none]
    rfl
  · intro source outputAbsolute outputPlain straight after
    obtain ⟨rest, nonempty, parts, place, target, plainTarget⟩ := exists_counterpart source outputPlain
    have clear {path : Path} (plain : path.IsPlain) (below : layout.output.parts <+: path.parts) :
        session.tree.Unlinked [] path.parts := straight.unlinked_of_isPlain plain below
    have outside : ¬ (layout.output.below rest).parts <+: layout.output.parts := by
      intro within
      have short := within.length_le
      rw [Path.below_parts, List.length_append] at short
      exact nonempty (List.length_eq_zero_iff.mp (by omega))
    have apart : layout.output.below rest ≠ layout.output := by
      intro same
      exact outside (congrArg Path.parts same ▸ List.prefix_refl _)
    have clearTarget := clear plainTarget (List.prefix_append _ _)
    have file {path : Path} (another : layout.IsSource path)
        (isFile : session.tree.isFile (layout.destination path) = .ok true) :
        (layout.destination path).Fits ∧ session.tree.Reaches (layout.destination path).parts ∧
          session.tree.get? (layout.destination path).parts ≠ some .directory := by
      obtain ⟨content, executable, status⟩ := Tree.isFile_iff.mp isFile
      have plainDestination := another.isPlain_destination outputPlain
      obtain ⟨fits, reaches, present⟩ := (Tree.status_iff plainDestination
        (clear plainDestination another.output_isPrefix)).mp status
      exact ⟨fits, reaches, by simp [present]⟩
    rw [target]
    by_cases present : session.tree.isDirectory (layout.output.below rest) = .ok true
    · have inside : (layout.output.below rest).parts ≠ [] := by simp [nonempty]
      have entries := get?_removeDestination directory place apart plainTarget inside clearTarget present
      refine ⟨fun location out => ?_, ?_, fun path another isFile => ?_⟩
      · exact (entries location).trans (if_neg out)
      · exact (entries _).trans (if_neg outside)
      · have here := ((Tree.status_iff plainTarget clearTarget).mp (Tree.isDirectory_iff.mp present)).2.2
        have different : (layout.destination path).parts ≠ (layout.output.below rest).parts := fun same =>
          (file another isFile).2.2 (same ▸ here)
        refine (entries _).trans (if_congr ?_ rfl rfl)
        rw [← isBelow_destination_iff another parts, isBelow_iff, and_iff_left different]
        rfl
    · have keeps : after = session.tree := removeDestination_keeps directory place present
      refine ⟨fun location _ => by rw [keeps], by rw [keeps], fun path another isFile => ?_⟩
      have notBelow : ¬ Tree.isBelow path.parts event.path.parts := by
        intro below
        obtain ⟨front, other⟩ := isBelow_iff.mp ((isBelow_destination_iff another parts).mpr below)
        obtain ⟨fits, reaches, -⟩ := file another isFile
        obtain ⟨_, -, lies, -⟩ := another.exists_destination
        exact present (isDirectory_of_below outputAbsolute plainTarget clearTarget (by rw [lies]; rfl) front
          other.symm fits reaches)
      rw [keeps, if_neg notBelow]

/-- The removal of the directory takes the component in it away, and leaves the module of the same name and
the directory with a longer name. -/
theorem removeDestination_of_directory_of_kin :
    let after := (removeDestination (removalOf ["ui"] true) (.ofRoot ⟨.root, ["p"]⟩) kinSession).2.tree
    after.get? ["p", "dist", "ui", "App.js"] = none ∧
      after.get? ["p", "dist", "ui.js"] = some (.file [] false) ∧
      after.get? ["p", "dist", "uikit", "x.css"] = some (.file [] false) ∧
      removeDestination (removalOf [] true) (.ofRoot ⟨.root, ["p"]⟩) kinSession = (.ok false, kinSession) := by
  have removes := removeDestination_of_directory (.ofRoot ⟨.root, ["p"]⟩) (removalOf ["ui"] true) kinSession rfl
    rfl (by decide)
  have source {names : List String} (plain : Path.IsPlain ⟨.root, ["p", "src"] ++ names⟩)
      (nonempty : names ≠ []) : (Layout.ofRoot ⟨.root, ["p"]⟩).IsSource ⟨.root, ["p", "src"] ++ names⟩ :=
    ⟨rfl, plain, rfl, List.prefix_append _ _, fun same => nonempty (List.append_cancel_left same)⟩
  obtain ⟨-, -, outputs⟩ := removes.2 (source (by decide) (by decide)) rfl (by decide) kinSession_straight
  have component := outputs _ (@source ["ui", "App.tsx"] (by decide) (by decide))
    (Tree.isFile_iff.mpr ⟨[], false, by decide +kernel⟩)
  have module := outputs _ (@source ["ui.ts"] (by decide) (by decide))
    (Tree.isFile_iff.mpr ⟨[], false, by decide +kernel⟩)
  have style := outputs _ (@source ["uikit", "x.css"] (by decide) (by decide))
    (Tree.isFile_iff.mpr ⟨[], false, by decide +kernel⟩)
  have top := (removeDestination_of_directory (.ofRoot ⟨.root, ["p"]⟩) (removalOf [] true) kinSession rfl rfl
    (by decide)).1 fun source => source.apart (by decide)
  exact ⟨component, module, style, top⟩

end Watch

end TreeBuild
