import Mathlib.Data.List.Infix
import Mathlib.Data.List.Nodup
import TreeBuild.Proofs.Path.Spelling
import TreeBuild.Proofs.Tree.Edit
import TreeBuild.Proofs.Tree.Kinds

/-!
# What lies in the directories of a tree

A path at which a file can be made lies in a directory, whatever links lead there, and making that directory
once more changes nothing. What is listed below a directory are the locations of the tree, each of them once, so
a list grows exactly by what has come to be.
-/
namespace TreeBuild

namespace Path

/-- The body of the parts in front is in front of the body. -/
theorem body_prefix (front : List String) (name : String) : body front <+: body (front ++ [name]) := by
  unfold body
  induction front with
  | nil => exact List.nil_prefix
  | cons first others inductionHypothesis =>
    cases others with
    | nil => simp
    | cons second others =>
      simp only [List.map_cons, List.cons_append, List.intercalate_cons_cons] at inductionHypothesis ⊢
      exact (List.prefix_append_right_inj _).mpr inductionHypothesis

/-- The text of the path above is in front of the text of a path, or is the text of the path without parts. -/
theorem toString_parent {path : Path} (inside : path.parts ≠ []) :
    path.parent.toString = "." ∨ ∃ more, path.toString = path.parent.toString ++ more := by
  obtain ⟨anchor, parts⟩ := path
  obtain ⟨front, name, rfl⟩ := List.eq_nil_or_concat' parts |>.resolve_left inside
  have above : (parent ⟨anchor, front ++ [name]⟩) = ⟨anchor, front⟩ := by simp [parent]
  obtain ⟨more, same⟩ := body_prefix front name
  have text : anchorText anchor ++ String.intercalate "/" (front ++ [name]) =
      anchorText anchor ++ String.intercalate "/" front ++ String.ofList more := by
    rw [← String.toList_inj]
    simp only [String.toList_append, toList_intercalate_slash, String.toList_ofList, ← same, List.append_assoc]
  rw [above]
  by_cases empty : anchorText anchor ++ String.intercalate "/" front = ""
  · exact .inl (by simp only [toString, empty, if_true])
  · refine .inr ⟨String.ofList more, ?_⟩
    simp only [toString, text]
    rw [if_neg empty, if_neg]
    intro nothing
    exact empty (String.append_eq_empty_iff.mp nothing).1

end Path

namespace Tree

variable {tree : Tree}

/-! ### The directory above a path -/

/-- Parts in front of a last one lead to a directory, or to the link that is met on the way to the last one. -/
theorem advance_concat {goal : Goal} {location : Location} {parts : List String} {name : String}
    {reached : Reached} (found : tree.advance goal location (parts ++ [name]) = .ok reached) :
    (∃ directory, tree.advance .target location parts = .ok (.here directory) ∧ tree.isDirectoryAt directory) ∨
      ∃ directory target rest, tree.advance .target location parts = .ok (.link directory target rest) ∧
        reached = .link directory target (rest ++ [name]) := by
  induction parts generalizing location with
  | nil =>
    rw [List.nil_append, advance] at found
    split at found
    · cases found
    · rename_i isDirectory
      exact .inl ⟨location, rfl, by simpa using isDirectory⟩
  | cons part rest inductionHypothesis =>
    have looks (looksUp : LooksUp tree goal location part (rest ++ [name])) :
        LooksUp tree .target location part rest := { looksUp with possible := by simp }
    cases advance_eq_iff.mp found with
    | still directory stays onward =>
      rw [advance_eq_iff.mpr (.still directory stays rfl)]
      exact inductionHypothesis onward
    | back directory back onward =>
      rw [advance_eq_iff.mpr (.back directory back rfl)]
      exact inductionHypothesis onward
    | free looksUp missing last | kept looksUp missing last => simp at last
    | @link target looksUp link =>
      exact .inr ⟨location, target, rest, advance_eq_iff.mpr (.link (looks looksUp) link (by simp)), rfl⟩
    | down looksUp present noLink onward =>
      rw [advance_eq_iff.mpr (.down (looks looksUp) present noLink rfl)]
      exact inductionHypothesis onward

/-- What leads to a name below a way leads to a directory first. -/
theorem walk_concat {goal : Goal} {links : Nat} {location found : Location} {parts : List String}
    {name : String} (led : tree.walk goal links location (parts ++ [name]) = .ok found) :
    ∃ directory, tree.walk .target links location parts = .ok directory ∧ tree.isDirectoryAt directory := by
  induction links generalizing location parts with
  | zero =>
    unfold walk at led ⊢
    split at led
    · cases led
    · rename_i reached
      rcases advance_concat reached with ⟨directory, front, isDirectory⟩ | ⟨_, _, _, -, impossible⟩
      · rw [front]
        exact ⟨directory, rfl, isDirectory⟩
      · cases impossible
    · cases led
  | succ links inductionHypothesis =>
    unfold walk at led ⊢
    split at led
    · cases led
    · rename_i reached
      rcases advance_concat reached with ⟨directory, front, isDirectory⟩ | ⟨_, _, _, -, impossible⟩
      · rw [front]
        exact ⟨directory, rfl, isDirectory⟩
      · cases impossible
    · rename_i reached
      rcases advance_concat reached with ⟨directory, front, isDirectory⟩ | ⟨_, _, _, front, same⟩
      · rw [front]
        exact ⟨directory, rfl, isDirectory⟩
      · cases same
        rw [front]
        exact inductionHypothesis (by simpa using led)

/-- A path that leads somewhere lies in a directory. -/
theorem locatePath_parent {goal : Goal} {path : Path} {location : Location} (inside : path.parts ≠ [])
    (led : tree.locatePath goal path = .ok location) :
    ∃ directory, tree.locatePath .target path.parent = .ok directory ∧ tree.isDirectoryAt directory := by
  unfold locatePath locate at led ⊢
  split at led
  · cases led
  rename_i nameable
  split at led
  · cases led
  rename_i noNull
  split at led
  · cases led
  rename_i short
  have above := Path.toString_parent inside
  rw [if_neg, if_neg, if_neg]
  · obtain ⟨front, name, same⟩ := List.eq_nil_or_concat' path.parts |>.resolve_left inside
    rw [same] at led
    simpa [Path.parent, same] using walk_concat led
  · rcases above with dot | ⟨more, same⟩
    · rw [dot]
      decide
    · rw [same, String.utf8ByteSize_append] at short
      omega
  · rcases above with dot | ⟨more, same⟩
    · rw [dot]
      decide
    · rw [same] at noNull
      simp at noNull ⊢
      exact noNull.1
  · rcases above with dot | ⟨more, same⟩
    · rw [dot]
      decide
    · rw [same] at nameable
      simp at nameable ⊢
      exact nameable.1

/-- What parts lead to is found without following the last of them, too, unless that is a link. -/
theorem advance_entry {location : Location} {parts : List String} {reached : Reached}
    (found : tree.advance .target location parts = .ok reached) :
    tree.advance .entry location parts = .ok reached ∨
      ∃ place target, tree.advance .entry location parts = .ok (.here place) ∧
        tree.get? place = some (.link target) := by
  induction parts generalizing location with
  | nil => exact .inl found
  | cons part rest inductionHypothesis =>
    have looks (looksUp : LooksUp tree .target location part rest) : LooksUp tree .entry location part rest :=
      { looksUp with possible := by simp }
    cases advance_eq_iff.mp found with
    | still directory stays onward =>
      rw [advance_eq_iff.mpr (.still directory stays rfl)]
      exact inductionHypothesis onward
    | back directory back onward =>
      rw [advance_eq_iff.mpr (.back directory back rfl)]
      exact inductionHypothesis onward
    | free looksUp missing last => exact .inl (advance_eq_iff.mpr (.free (looks looksUp) missing last))
    | kept looksUp link last entry => cases entry
    | @link target looksUp link =>
      by_cases last : rest = []
      · exact .inr ⟨_, target, advance_eq_iff.mpr (.kept (looks looksUp) link last rfl), link⟩
      · exact .inl (advance_eq_iff.mpr (.link (looks looksUp) link fun both => last both.1))
    | down looksUp present noLink onward =>
      rw [advance_eq_iff.mpr (.down (looks looksUp) present noLink rfl)]
      exact inductionHypothesis onward

/-- What leads somewhere leads to a place as well, which is the same or a link. -/
theorem walk_entry {links : Nat} {location found : Location} {parts : List String}
    (led : tree.walk .target links location parts = .ok found) :
    ∃ place, tree.walk .entry links location parts = .ok place ∧
      (place = found ∨ ∃ target, tree.get? place = some (.link target)) := by
  induction links generalizing location parts with
  | zero =>
    unfold walk at led ⊢
    split at led
    · cases led
    · rename_i reached
      cases led
      rcases advance_entry reached with same | ⟨place, target, stops, link⟩
      · rw [same]
        exact ⟨_, rfl, .inl rfl⟩
      · rw [stops]
        exact ⟨_, rfl, .inr ⟨target, link⟩⟩
    · cases led
  | succ links inductionHypothesis =>
    unfold walk at led ⊢
    split at led
    · cases led
    · rename_i reached
      cases led
      rcases advance_entry reached with same | ⟨place, target, stops, link⟩
      · rw [same]
        exact ⟨_, rfl, .inl rfl⟩
      · rw [stops]
        exact ⟨_, rfl, .inr ⟨target, link⟩⟩
    · rename_i reached
      rcases advance_entry reached with same | ⟨place, target, stops, link⟩
      · rw [same]
        exact inductionHypothesis led
      · rw [stops]
        exact ⟨_, rfl, .inr ⟨target, link⟩⟩

/-- Making a directory that is there changes nothing, and is no fault. -/
theorem makeDirectories_of_isDirectoryAt {path : Path} {location : Location}
    (led : tree.locatePath .target path = .ok location) (isDirectory : tree.isDirectoryAt location) :
    tree.makeDirectories path = (.ok (), tree) := by
  have present : tree.get? location = some .directory := by simpa [isDirectoryAt] using isDirectory
  have there : tree.isDirectory path = .ok true := by
    simp [Tree.isDirectory, probe, status, led, present, Entry.isDirectory]
  obtain ⟨place, found, taken⟩ : ∃ place, tree.locatePath .entry path = .ok place ∧
      (tree.get? place).isSome := by
    have places : ∃ place, tree.locatePath .entry path = .ok place ∧
        (place = location ∨ ∃ target, tree.get? place = some (.link target)) := by
      unfold locatePath locate at led ⊢
      split at led
      · cases led
      rename_i nameable
      split at led
      · cases led
      rename_i noNull
      split at led
      · cases led
      rename_i short
      rw [if_neg nameable, if_neg noNull, if_neg short]
      exact walk_entry led
    obtain ⟨place, found, same | ⟨target, link⟩⟩ := places
    · exact ⟨place, found, by rw [same, present]; rfl⟩
    · exact ⟨place, found, by rw [link]; rfl⟩
  have refused : tree.makeDirectory path = .error .alreadyThere := by
    rw [makeDirectory, found]
    exact if_pos taken
  rw [makeDirectories, refused]
  simp [makeDirectoryIfNone, refused, there, afterChange, bind, Except.bind]

/-- The directory in which a path lies is made without changing anything. -/
theorem makeDirectories_parent {goal : Goal} {path : Path} {location : Location} (inside : path.parts ≠ [])
    (led : tree.locatePath goal path = .ok location) :
    tree.makeDirectories path.parent = (.ok (), tree) := by
  obtain ⟨directory, found, isDirectory⟩ := locatePath_parent inside led
  exact makeDirectories_of_isDirectoryAt found isDirectory

/-! ### What is put into a tree -/

/-- Each location is listed once, and whatever is there lies in directories. -/
structure IsSound (tree : Tree) : Prop where
  once : (tree.entries.map Prod.fst).Nodup
  grounded : ∀ location entry, tree.get? location = some entry → tree.Reaches location

/-- Storing an entry adds its location at the end, unless it is there already. -/
theorem map_store (location : Location) (entry : Entry) (entries : List (Location × Entry)) :
    (store location entry entries).map Prod.fst =
      if location ∈ entries.map Prod.fst then entries.map Prod.fst else entries.map Prod.fst ++ [location] := by
  induction entries with
  | nil => simp [store]
  | cons first rest inductionHypothesis =>
    obtain ⟨place, old⟩ := first
    by_cases same : place = location
    · simp [store, same]
    · simp only [store, same, if_false, List.map_cons, inductionHypothesis, List.mem_cons, Ne.symm same, false_or]
      split <;> rfl

/-- Putting a file or a directory where it fits turns no path aside. -/
theorem widened_put {location : Location} (inside : location ≠ []) {entry : Entry}
    (fits : Entry.Widened (tree.get? location) (some entry)) : tree.Widened (tree.put location entry) := by
  intro other
  by_cases same : other = location
  · subst same
    rw [get?_put_self tree inside]
    exact fits
  · rw [get?_put_of_ne tree same]
    exact .grown (.same _)

/-- A location that is reached is reached in every tree that is wider. -/
theorem Widened.reaches {other : Tree} (widened : tree.Widened other) {location : Location}
    (reaches : tree.Reaches location) : other.Reaches location := by
  intro above front different
  have before : tree.isDirectoryAt above := by simp [Tree.isDirectoryAt, reaches above front different]
  simpa [Tree.isDirectoryAt] using widened.isDirectoryAt before

/-- What is put into directories leaves a tree sound. -/
theorem IsSound.put (sound : tree.IsSound) {location : Location} (inside : location ≠ [])
    (reaches : tree.Reaches location) {entry : Entry} (fits : Entry.Widened (tree.get? location) (some entry)) :
    (tree.put location entry).IsSound := by
  have widened := widened_put inside fits
  refine ⟨?_, fun other present held => ?_⟩
  · change (List.map Prod.fst (store location entry tree.entries)).Nodup
    rw [map_store]
    split
    · exact sound.once
    · rename_i new
      refine List.nodup_append.mpr ⟨sound.once, by simp, fun known member last only => ?_⟩
      rintro rfl
      exact new (List.mem_singleton.mp only ▸ member)
  · by_cases same : other = location
    · exact same ▸ widened.reaches reaches
    · rw [get?_put_of_ne tree same] at held
      exact widened.reaches (sound.grounded other present held)

/-- Writing a file leaves a sound tree. -/
theorem IsSound.write (sound : tree.IsSound) {path : Path} {content : Text.Bytes} {after : Tree}
    (written : tree.write path content = .ok after) : after.IsSound := by
  obtain ⟨location, executable, led, inside, fits, rfl⟩ := write_put written
  exact sound.put inside (locatePath_isApart led).1 (.grown fits)

/-- Making directories keeps what putting a directory keeps where nothing was. -/
theorem makeDirectories_keeps {property : Tree → Prop}
    (put : ∀ tree location, property tree → tree.Reaches location → tree.get? location = none →
      property (tree.put location .directory))
    (holds : property tree) (path : Path) : property (tree.makeDirectories path).2 := by
  have one (tree : Tree) (path : Path) (holds : property tree) :
      property (tree.afterChange (tree.makeDirectoryIfNone path)).2 := by
    cases made : tree.makeDirectoryIfNone path with
    | error fault => exact holds
    | ok changed =>
      unfold makeDirectoryIfNone at made
      split at made
      · rename_i new success
        cases made
        unfold makeDirectory at success
        split at success
        · cases success
        · rename_i location found
          split at success
          · cases success
          · rename_i free
            cases success
            exact put tree location holds (locatePath_isApart found).1 (by simpa using free)
      · cases made
      · cases made
      · cases made
      · cases answer : tree.isDirectory path with
        | error fault => simp [answer, bind, Except.bind] at made
        | ok present =>
          cases present <;> simp [answer, bind, Except.bind] at made
          exact made ▸ holds
  fun_induction makeDirectories tree path with
  | case1 => exact holds
  | case2 path missing nonempty fault above failed inductionHypothesis => simpa [failed] using inductionHypothesis
  | case3 path missing nonempty above made inductionHypothesis =>
    exact one above path (by simpa [made] using inductionHypothesis)
  | case4 path possible => exact one _ path holds

/-- Making directories leaves a tree sound and turns no path aside. -/
theorem IsSound.makeDirectories (sound : tree.IsSound) (path : Path) :
    (tree.makeDirectories path).2.IsSound ∧ tree.Widened (tree.makeDirectories path).2 := by
  have put (other : Tree) (location : Location) (holds : other.IsSound ∧ tree.Widened other)
      (reaches : other.Reaches location) (none : other.get? location = none) :
      (other.put location .directory).IsSound ∧ tree.Widened (other.put location .directory) := by
    have inside : location ≠ [] := by
      rintro rfl
      cases none
    have fits : Entry.Widened (other.get? location) (some .directory) := none ▸ .directory
    exact ⟨holds.1.put inside reaches fits, holds.2.trans (widened_put inside fits)⟩
  exact makeDirectories_keeps put ⟨sound, (Grown.refl tree).widened⟩ path

/-! ### What is listed below a directory -/

/-- Something with such a name lies strictly below a location. -/
structure Lists (tree : Tree) (test : String → Bool) (top location : Location) : Prop where
  present : (tree.get? location).isSome
  below : isBelow location top
  named : test (location.getLast?.getD "")

/-- The path of a location below the one that a path leads to. -/
def pathFrom (path : Path) (top location : Location) : Path :=
  ⟨path.anchor, path.parts ++ location.drop top.length⟩

/-- Paths that are given to places below a top tell these places apart. -/
theorem pathFrom_inj {path : Path} {top first second : Location} (firstBelow : isBelow first top)
    (secondBelow : isBelow second top) (same : pathFrom path top first = pathFrom path top second) :
    first = second := by
  simp only [isBelow, Bool.and_eq_true, List.isPrefixOf_iff_prefix] at firstBelow secondBelow
  have rest : first.drop top.length = second.drop top.length :=
    List.append_cancel_left (congrArg Path.parts same)
  rw [List.prefix_iff_eq_append.mp firstBelow.1 |>.symm, rest, List.prefix_iff_eq_append.mp secondBelow.1]

/-- A path is one of a directory if it leads to a directory. -/
theorem isDirectory_of_locatePath {path : Path} {top : Location} (led : tree.locatePath .target path = .ok top) :
    tree.isDirectory path = .ok (tree.isDirectoryAt top) := by
  unfold isDirectory probe status
  rw [led]
  cases present : tree.get? top with
  | none => simp [present, isDirectoryAt, isAbsence]
  | some entry => cases entry <;> simp [present, isDirectoryAt, Entry.isDirectory]

/-- Below a place that can be located, the list holds everything with such a name, and each path once. -/
theorem IsSound.pathsBelow (sound : tree.IsSound) (test : String → Bool) {path : Path} {top : Location}
    (led : tree.locatePath .target path = .ok top) :
    ∃ paths, tree.pathsBelow test path = .ok paths ∧ paths.Nodup ∧
      ∀ other, other ∈ paths ↔ ∃ location, tree.Lists test top location ∧ other = pathFrom path top location := by
  have inside {location : Location} (below : isBelow location top) : location ≠ [] := by
    rintro rfl
    simp only [isBelow, Bool.and_eq_true, List.isPrefixOf_iff_prefix, List.prefix_nil] at below
    simp [below.1] at below
  unfold Tree.pathsBelow
  rw [isDirectory_of_locatePath led, led]
  by_cases isDirectory : tree.isDirectoryAt top
  · let listed (location : Location) : Option Path :=
      if isBelow location top ∧ test (location.getLast?.getD "") then some (pathFrom path top location) else none
    refine ⟨(tree.entries.map Prod.fst).filterMap listed, ?_, ?_, fun other => ?_⟩
    · rw [isDirectory, List.filterMap_map]
      rfl
    · refine List.Nodup.filterMap (fun first second answer told again => ?_) sound.once
      simp only [listed, Option.ite_none_right_eq_some, Option.mem_def, Option.some.injEq] at told again
      exact pathFrom_inj told.1.1 again.1.1 (told.2.trans again.2.symm)
    · simp only [listed, List.mem_filterMap, List.mem_map, Option.ite_none_right_eq_some, Option.some.injEq]
      constructor
      · rintro ⟨_, ⟨⟨location, entry⟩, member, rfl⟩, ⟨below, named⟩, rfl⟩
        refine ⟨location, ⟨?_, below, named⟩, rfl⟩
        rw [get?, if_neg (inside below)]
        exact lookup_isSome.mpr ⟨entry, member⟩
      · rintro ⟨location, ⟨present, below, named⟩, rfl⟩
        rw [get?, if_neg (inside below)] at present
        obtain ⟨entry, member⟩ := lookup_isSome.mp present
        exact ⟨location, ⟨_, member, rfl⟩, ⟨below, named⟩, rfl⟩
  · refine ⟨[], by simp [isDirectory, bind, Except.bind], List.nodup_nil, fun other => ?_⟩
    simp only [List.not_mem_nil, false_iff, not_exists, not_and]
    intro location lists
    obtain ⟨entry, present⟩ := Option.isSome_iff_exists.mp lists.present
    have below := lists.below
    simp only [isBelow, Bool.and_eq_true, List.isPrefixOf_iff_prefix, decide_eq_true_eq] at below
    have above := sound.grounded location entry present top below.1 (Ne.symm below.2)
    simp [isDirectoryAt, above] at isDirectory

end Tree

end TreeBuild
