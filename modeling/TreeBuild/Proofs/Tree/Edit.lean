import TreeBuild.Tree.Access

/-!
# What an operation on a tree leaves as it was

Each operation changes the entry at the location that its path leads to, and makes directories on the
way there. A zone says where that is tolerated: anything may change inside of it, and at the locations
above it directories may come to be where nothing was. What happens at one location then says
everything about an operation, whatever else its path is: the operation is an edit of a zone if its path
leads into the zone.

Where a path leads depends on the tree, and trees change while paths are followed. A ground is a zone
together with what is known of the trees in which paths are followed; no edit takes that knowledge away.
-/
namespace TreeBuild.Tree

/-! ### Entries after elementary changes -/

/-- What is looked up among selected entries is what is looked up among all, if it is selected. -/
theorem lookup_filter (keep : Location → Bool) (location : Location)
    (entries : List (Location × Entry)) :
    lookup location (entries.filter fun entry => keep entry.1) =
      if keep location then lookup location entries else none := by
  induction entries with
  | nil => simp [lookup]
  | cons first rest inductionHypothesis =>
    obtain ⟨place, entry⟩ := first
    by_cases same : place = location
    · subst same
      by_cases kept : keep place <;> simp [lookup, kept, inductionHypothesis]
    · by_cases kept : keep place <;> simp [lookup, kept, same, inductionHypothesis]

/-- A location can be looked up if it is among the entries. -/
theorem lookup_isSome {location : Location} {entries : List (Location × Entry)} :
    (lookup location entries).isSome ↔ ∃ entry, (location, entry) ∈ entries := by
  induction entries with
  | nil => simp [lookup]
  | cons first rest inductionHypothesis =>
    obtain ⟨place, entry⟩ := first
    by_cases same : place = location
    · subst same
      simp [lookup]
    · simp [lookup, same, inductionHypothesis, Ne.symm same]

/-- What a tree holds is among its entries, but for the root. -/
theorem mem_entries_of_get? {tree : Tree} {location : Location} {entry : Entry}
    (present : tree.get? location = some entry) (inside : location ≠ []) :
    (location, entry) ∈ tree.entries := by
  rw [get?, if_neg inside] at present
  revert present
  generalize tree.entries = entries
  induction entries with
  | nil => simp [lookup]
  | cons first rest inductionHypothesis =>
    obtain ⟨place, other⟩ := first
    by_cases same : place = location
    · rintro found
      simp only [lookup, same, if_true, Option.some.injEq] at found
      simp [same, found]
    · intro found
      simp only [lookup, same, if_false] at found
      exact List.mem_cons_of_mem _ (inductionHypothesis found)

/-- The top of a tree is a directory. -/
@[simp]
theorem get?_nil (tree : Tree) : tree.get? [] = some .directory := rfl

/-- What is erased is gone. -/
theorem get?_erase_self (tree : Tree) {location : Location} (inside : location ≠ []) :
    (tree.erase location).get? location = none := by
  have gone := lookup_filter (fun place => decide (place ≠ location)) location tree.entries
  simpa [get?, erase, inside] using gone

/-- Everything else stays when something is erased. -/
theorem get?_erase_of_ne (tree : Tree) {location other : Location} (different : other ≠ location) :
    (tree.erase location).get? other = tree.get? other := by
  have same := lookup_filter (fun place => decide (place ≠ location)) other tree.entries
  simp only [different, ne_eq, not_false_eq_true, decide_true, if_true] at same
  simp only [get?, erase, same, ne_eq]

/-- What is strictly below a location is gone once it has been emptied, and nothing else is. -/
theorem get?_clearBelow (tree : Tree) (top location : Location) :
    (tree.clearBelow top).get? location =
      if isBelow location top then none else tree.get? location := by
  by_cases root : location = []
  · subst root
    cases top <;> simp [isBelow]
  · have same := lookup_filter (fun place => !isBelow place top) location tree.entries
    simp only [get?, clearBelow, root, if_false, same]
    cases isBelow location top <;> simp

/-! ### Zones and edits -/

/-- Where an operation may leave its marks. -/
structure Zone where
  /-- Anything may happen here. -/
  inside : Location → Prop
  /-- A directory may come to be here if nothing was. -/
  above : Location → Prop

namespace Zone

/-- Outside of a zone every entry is as it was, but for directories that came to be above it. -/
def Spares (zone : Zone) (before after : Tree) : Prop :=
  ∀ location, ¬ zone.inside location →
    after.get? location = before.get? location ∨
      zone.above location ∧ before.get? location = none ∧ after.get? location = some .directory

/-- A change of a tree that spares what is outside of a zone, keeps all directories and makes no links. -/
structure Edit (zone : Zone) (before after : Tree) : Prop where
  spares : zone.Spares before after
  directories : ∀ location, before.get? location = some .directory →
    after.get? location = some .directory
  links : ∀ location target, after.get? location = some (.link target) →
    before.get? location = some (.link target)

variable {zone : Zone} {before middle after : Tree}

/-- What does not change spares every zone. -/
theorem Spares.refl (zone : Zone) (tree : Tree) : zone.Spares tree tree :=
  fun _ _ => .inl rfl

/-- What is spared twice is spared. -/
theorem Spares.trans (first : zone.Spares before middle) (second : zone.Spares middle after) :
    zone.Spares before after := by
  intro location outside
  rcases first location outside with same | ⟨above, none, made⟩
  · rcases second location outside with sameAgain | ⟨above, none, made⟩
    · exact .inl (sameAgain.trans same)
    · exact .inr ⟨above, same ▸ none, made⟩
  · rcases second location outside with same | ⟨-, impossible, -⟩
    · exact .inr ⟨above, none, same.trans made⟩
    · rw [made] at impossible
      cases impossible

/-- To change nothing is to edit a zone. -/
theorem Edit.refl (zone : Zone) (tree : Tree) : zone.Edit tree tree :=
  ⟨Spares.refl zone tree, fun _ directory => directory, fun _ _ link => link⟩

/-- Two edits of a zone are one. -/
theorem Edit.trans (first : zone.Edit before middle) (second : zone.Edit middle after) :
    zone.Edit before after where
  spares := first.spares.trans second.spares
  directories location directory := second.directories location (first.directories location directory)
  links location target link := first.links location target (second.links location target link)

/-- An edit of a zone is one of every larger zone. -/
theorem Edit.mono {larger : Zone} (edit : zone.Edit before after)
    (inside : ∀ location, zone.inside location → larger.inside location)
    (above : ∀ location, zone.above location → larger.inside location ∨ larger.above location) :
    larger.Edit before after where
  spares location outside := by
    rcases edit.spares location fun within => outside (inside location within) with same | made
    · exact .inl same
    · exact .inr ⟨(above location made.1).resolve_left outside, made.2⟩
  directories := edit.directories
  links := edit.links

/-- Writing a file over anything but a directory. -/
theorem Edit.put {location : Location} (inside : zone.inside location) {tree : Tree}
    (notDirectory : tree.get? location ≠ some .directory) (content : Text.Bytes) (executable : Bool) :
    zone.Edit tree (tree.put location (.file content executable)) := by
  have notRoot : location ≠ [] := by
    rintro rfl
    exact notDirectory rfl
  refine ⟨?_, ?_, ?_⟩
  · intro other outside
    have different : other ≠ location := fun same => outside (same ▸ inside)
    exact .inl (get?_put_of_ne tree different _)
  · intro other directory
    have different : other ≠ location := fun same => notDirectory (same ▸ directory)
    rwa [get?_put_of_ne tree different]
  · intro other target link
    by_cases same : other = location
    · rw [same, get?_put_self tree notRoot] at link
      cases link
    · rwa [get?_put_of_ne tree same] at link

/-- Making a directory where nothing is. -/
theorem Edit.putDirectory {location : Location} {tree : Tree}
    (reachable : zone.inside location ∨ zone.above location) (free : tree.get? location = none) :
    zone.Edit tree (tree.put location .directory) := by
  have notRoot : location ≠ [] := by
    rintro rfl
    cases free
  refine ⟨?_, ?_, ?_⟩
  · intro other outside
    by_cases same : other = location
    · subst same
      exact .inr ⟨reachable.resolve_left outside, free, get?_put_self tree notRoot _⟩
    · exact .inl (get?_put_of_ne tree same _)
  · intro other directory
    have different : other ≠ location := by
      rintro rfl
      rw [free] at directory
      cases directory
    rwa [get?_put_of_ne tree different]
  · intro other target link
    by_cases same : other = location
    · rw [same, get?_put_self tree notRoot] at link
      cases link
    · rwa [get?_put_of_ne tree same] at link

/-- Taking away anything but a directory. -/
theorem Edit.erase {location : Location} (inside : zone.inside location) {tree : Tree}
    (notDirectory : tree.get? location ≠ some .directory) :
    zone.Edit tree (tree.erase location) := by
  have notRoot : location ≠ [] := by
    rintro rfl
    exact notDirectory rfl
  refine ⟨?_, ?_, ?_⟩
  · intro other outside
    have different : other ≠ location := fun same => outside (same ▸ inside)
    exact .inl (get?_erase_of_ne tree different)
  · intro other directory
    have different : other ≠ location := fun same => notDirectory (same ▸ directory)
    rwa [get?_erase_of_ne tree different]
  · intro other target link
    by_cases same : other = location
    · rw [same, get?_erase_self tree notRoot] at link
      cases link
    · rwa [get?_erase_of_ne tree same] at link

end Zone

/-! ### Copying and removing files -/

/-- A file that is copied is there, and its copy is written to the target, or into it if it is a
directory. -/
theorem copyFile_cases {tree changed : Tree} {source target : Path}
    (copied : tree.copyFile source target = .ok changed) :
    ∃ content executable, tree.status source = .ok (.file content executable) ∧
      tree.writeCopy
        (if (tree.status target).toOption = some .directory then target / source.name else target)
        content executable = .ok changed := by
  unfold copyFile at copied
  by_cases intoDirectory : (tree.status target).toOption = some .directory
  all_goals
    simp only [intoDirectory, if_true, if_false] at copied ⊢
    split at copied
    · cases copied
    · cases copied
    · split at copied
      · cases copied
      · split at copied
        · cases copied
        · rename_i content executable present
          exact ⟨content, executable, present, copied⟩
        · cases copied

/-- What is removed is an entry that is no directory, at the place where the path leads. -/
theorem unlink_cases {tree changed : Tree} {path : Path} (unlinked : tree.unlink path = .ok changed) :
    ∃ location entry, tree.locatePath .entry path = .ok location ∧ tree.get? location = some entry ∧
      entry ≠ .directory ∧ changed = tree.erase location := by
  unfold unlink at unlinked
  split at unlinked
  · cases unlinked
  · rename_i location found
    split at unlinked
    · cases unlinked
    · cases unlinked
    · rename_i entry notDirectory present
      exact ⟨location, entry, found, present, fun same => notDirectory same,
        (Except.ok.inj unlinked).symm⟩

/-! ### Grounds -/

/-- A zone, and what is known of the trees in which paths are followed. -/
structure Ground where
  zone : Zone
  holds : Tree → Prop
  kept : ∀ {before after : Tree}, holds before → zone.Edit before after → holds after

namespace Ground

/-- What a path leads to is inside the zone. -/
def Owns (ground : Ground) (path : Path) : Prop :=
  ∀ tree goal location, ground.holds tree → tree.locatePath goal path = .ok location →
    ground.zone.inside location

/-- A directory may be made at a path and at every path above it. -/
def Opens (ground : Ground) (path : Path) : Prop :=
  ∀ parts, parts <+: path.parts → ∀ tree location, ground.holds tree →
    tree.locatePath .entry ⟨path.anchor, parts⟩ = .ok location →
    ground.zone.inside location ∨ ground.zone.above location

/-- A file may be written into the directory at a path under this name, unless the name leads back to
a directory. -/
def Receives (ground : Ground) (path : Path) (name : String) : Prop :=
  ∀ tree location, ground.holds tree → tree.locatePath .creation (path / name) = .ok location →
    ground.zone.inside location ∨ tree.isDirectoryAt location

/-- What opens on the way to a path opens on the way to the one above. -/
theorem Opens.parent {ground : Ground} {path : Path} (opens : ground.Opens path) :
    ground.Opens path.parent := by
  intro parts front
  exact opens parts (front.trans (List.dropLast_prefix path.parts))

variable {ground : Ground} {tree changed : Tree} {path : Path}

/-- Writing a file that a ground owns edits its zone. -/
theorem write_edit (held : ground.holds tree) (owns : ground.Owns path) {content : Text.Bytes}
    (written : tree.write path content = .ok changed) : ground.zone.Edit tree changed := by
  unfold write at written
  split at written
  · cases written
  · rename_i location found
    have inside := owns tree .creation location held found
    split at written
    · cases written
    · rename_i old executable present
      cases written
      exact .put inside (by simp [present]) _ _
    · rename_i notDirectory _
      cases written
      exact .put inside notDirectory _ _

/-- Removing a file that a ground owns edits its zone. -/
theorem unlink_edit (held : ground.holds tree) (owns : ground.Owns path)
    (unlinked : tree.unlink path = .ok changed) : ground.zone.Edit tree changed := by
  obtain ⟨location, entry, found, present, notDirectory, rfl⟩ := unlink_cases unlinked
  have inside := owns tree .entry location held found
  exact .erase inside (by rw [present]; exact fun same => notDirectory (Option.some.inj same))

/-- Making a directory on the way to a ground edits its zone. -/
theorem makeDirectory_edit (held : ground.holds tree) (opens : ground.Opens path)
    (made : tree.makeDirectory path = .ok changed) : ground.zone.Edit tree changed := by
  unfold makeDirectory at made
  split at made
  · cases made
  · rename_i location found
    split at made
    · cases made
    · rename_i free
      cases made
      have reachable := opens path.parts (List.prefix_refl _) tree location held found
      exact .putDirectory reachable (by simpa using free)

/-- So does making it only if there is none. -/
theorem makeDirectoryIfNone_edit (held : ground.holds tree) (opens : ground.Opens path)
    (made : tree.makeDirectoryIfNone path = .ok changed) : ground.zone.Edit tree changed := by
  unfold makeDirectoryIfNone at made
  split at made
  · rename_i new success
    cases made
    exact makeDirectory_edit held opens success
  · cases made
  · cases made
  · cases made
  · rename_i refusal _ _ _ _
    cases answer : tree.isDirectory path with
    | error fault => simp [answer, bind, Except.bind] at made
    | ok present =>
      cases present <;> simp [answer, bind, Except.bind] at made
      subst made
      exact .refl _ _

/-- A change that may be refused is an edit if it is one when it is not refused. -/
theorem afterChange_edit {change : Except FileFault Tree}
    (edit : ∀ changed, change = .ok changed → ground.zone.Edit tree changed) :
    ground.zone.Edit tree (tree.afterChange change).2 := by
  cases change with
  | ok changed => exact edit changed rfl
  | error fault => exact .refl _ _

/-- Making all directories of a path on the way to a ground edits its zone. -/
theorem makeDirectories_edit (held : ground.holds tree) (opens : ground.Opens path) :
    ground.zone.Edit tree (tree.makeDirectories path).2 := by
  fun_induction makeDirectories tree path with
  | case1 => exact .refl _ _
  | case2 path missing nonempty fault above failed inductionHypothesis =>
    simpa [failed] using inductionHypothesis opens.parent
  | case3 path missing nonempty above made inductionHypothesis =>
    have first : ground.zone.Edit tree above := by simpa [made] using inductionHypothesis opens.parent
    exact first.trans (afterChange_edit fun changed success =>
      makeDirectoryIfNone_edit (ground.kept held first) opens success)
  | case4 path possible =>
    exact afterChange_edit fun changed success => makeDirectoryIfNone_edit held opens success

/-- All trees, where nothing but directories may come to be, anywhere. -/
def growing : Ground where
  zone := ⟨fun _ => False, fun _ => True⟩
  holds _ := True
  kept _ _ := trivial

/-- Directories come to be where nothing was, and nothing else happens, whatever the path is. -/
theorem makeDirectories_grows (tree : Tree) (path : Path) :
    growing.zone.Edit tree (tree.makeDirectories path).2 :=
  makeDirectories_edit trivial fun _ _ _ _ _ _ => .inr trivial

/-- A copy is written where the target leads, unless a directory is there. -/
theorem writeCopy_edit
    (leads : ∀ location, tree.locatePath .creation path = .ok location →
      ground.zone.inside location ∨ tree.isDirectoryAt location)
    {content : Text.Bytes} {executable : Bool}
    (written : tree.writeCopy path content executable = .ok changed) :
    ground.zone.Edit tree changed := by
  unfold writeCopy at written
  split at written
  · rename_i location found
    split at written
    · cases written
    · rename_i notDirectory
      cases written
      have free : tree.get? location ≠ some .directory := by
        simpa [isDirectoryAt] using notDirectory
      exact .put ((leads location found).resolve_right notDirectory) free _ _
  · cases written
  · cases written

/-- A file is copied to its target, or into the directory that is there. -/
theorem copyFile_edit (held : ground.holds tree) {source : Path} (owns : ground.Owns path)
    (receives : ground.Receives path source.name) (copied : tree.copyFile source path = .ok changed) :
    ground.zone.Edit tree changed := by
  obtain ⟨content, executable, -, written⟩ := copyFile_cases copied
  split at written
  · exact writeCopy_edit (receives tree · held) written
  · exact writeCopy_edit (fun location found => .inl (owns tree .creation location held found)) written

end Ground

/-- A path leads to one location only, whatever is below that. -/
def LeadsTo (tree : Tree) (path : Path) (top : Location) : Prop :=
  ∀ other : Tree, (∀ location, ¬ isBelow location top → other.get? location = tree.get? location) →
    ∀ location, other.locatePath .entry path = .ok location → location = top

/-- What is not below a top stays when everything below it is cleared. -/
theorem get?_clearBelow_of_not {tree : Tree} {top location : Location} (outside : ¬ isBelow location top) :
    (tree.clearBelow top).get? location = tree.get? location := by
  rw [get?_clearBelow, if_neg outside]

/-- Removing a tree takes away what its path leads to and what is below that, and nothing else. -/
theorem removeTree_spares {tree : Tree} {path : Path} {top : Location} (leads : tree.LeadsTo path top) :
    ∀ location, ¬ top <+: location → (tree.removeTree path).2.get? location = tree.get? location := by
  intro location outside
  have notBelow : ¬ isBelow location top := by
    simp [isBelow, List.isPrefixOf_iff_prefix, outside]
  unfold removeTree
  split
  · rfl
  · rename_i reached found
    obtain rfl := leads tree (fun _ _ => rfl) reached found
    split
    · rfl
    · rfl
    · split <;> rfl
    · dsimp only
      split
      · exact get?_clearBelow_of_not notBelow
      · rename_i again foundAgain
        obtain rfl := leads _ (fun _ => get?_clearBelow_of_not) again foundAgain
        split
        · exact get?_clearBelow_of_not notBelow
        · have different : location ≠ again := fun same => outside (same ▸ List.prefix_refl _)
          exact (get?_erase_of_ne _ different).trans (get?_clearBelow_of_not notBelow)

/-- Where a tree has been removed nothing is left. -/
theorem removeTree_clears {tree : Tree} {path : Path} {top : Location} (leads : tree.LeadsTo path top)
    (inside : top ≠ []) (removed : (tree.removeTree path).1 = .ok ()) :
    ∀ location, top <+: location → (tree.removeTree path).2.get? location = none := by
  intro location below
  unfold removeTree at removed ⊢
  split at removed
  · cases removed
  · rename_i reached found
    obtain rfl := leads tree (fun _ _ => rfl) reached found
    split at removed
    · cases removed
    · cases removed
    · split at removed <;> cases removed
    · rename_i directory
      dsimp only at removed ⊢
      split at removed
      · cases removed
      · rename_i again foundAgain
        obtain rfl := leads _ (fun _ => get?_clearBelow_of_not) again foundAgain
        split at removed
        · cases removed
        · rename_i notBack
          simp only [notBack, if_false]
          by_cases same : location = again
          · rw [same]
            exact get?_erase_self _ inside
          · rw [get?_erase_of_ne _ same, get?_clearBelow, if_pos]
            simp [isBelow, List.isPrefixOf_iff_prefix, below, same]

end TreeBuild.Tree
