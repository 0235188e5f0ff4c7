import Mathlib.Logic.Function.Basic
import TreeBuild.Proofs.Tree.Named

/-!
# What the files of a tree hold

Most of what a build is asked for concerns the files of a tree and what they hold, whatever directories
are around them. In a regular tree there are no links, and everything that is present has a name and lies
in a directory, so that a file can be reached if its path can be looked up at all. Each operation leads from one regular
tree to another, and changes what the files hold at one location at most.
-/
namespace TreeBuild.Tree

/-- What the files of a tree hold, location by location. -/
abbrev Contents := Location → Option Text.Bytes

/-- The content of the file at a location. -/
def contentAt? (tree : Tree) (location : Location) : Option Text.Bytes :=
  match tree.get? location with
  | some (.file content _) => some content
  | _ => none

/-- Making directories changes no file, whether it succeeds or not. -/
theorem contentAt?_makeDirectories (tree : Tree) (path : Path) (location : Location) :
    (tree.makeDirectories path).2.contentAt? location = tree.contentAt? location := by
  rcases (Ground.makeDirectories_grows tree path).spares location id with same | ⟨-, none, made⟩
  · simp only [contentAt?, same]
  · simp only [contentAt?, none, made]

/-- A tree without links in which everything that is present has a name and lies in a directory. -/
structure IsRegular (tree : Tree) : Prop where
  linkless : tree.Linkless
  named : ∀ location entry, tree.get? location = some entry → ∀ part ∈ location, Path.IsName part
  reached : ∀ location entry, tree.get? location = some entry → tree.Reaches location

/-- A location has a content if there is a file with it. -/
theorem contentAt?_eq_some {tree : Tree} {location : Location} {content : Text.Bytes} :
    tree.contentAt? location = some content ↔
      ∃ executable, tree.get? location = some (.file content executable) := by
  unfold contentAt?
  split
  · rename_i other executable present
    rw [present]
    simp [eq_comm]
  · rename_i noFile
    constructor
    · intro impossible
      cases impossible
    · rintro ⟨executable, present⟩
      exact absurd present (noFile content executable)

/-- A file has its content. -/
theorem contentAt?_of_get? {tree : Tree} {location : Location} {content : Text.Bytes}
    {executable : Bool} (present : tree.get? location = some (.file content executable)) :
    tree.contentAt? location = some content :=
  contentAt?_eq_some.mpr ⟨executable, present⟩

/-- A directory has no content. -/
theorem contentAt?_eq_none_of_directory {tree : Tree} {location : Location}
    (directory : tree.get? location = some .directory) : tree.contentAt? location = none := by
  rw [contentAt?, directory]

/-- Where there is nothing, there is no content. -/
theorem contentAt?_eq_none_of_none {tree : Tree} {location : Location}
    (missing : tree.get? location = none) : tree.contentAt? location = none := by
  rw [contentAt?, missing]

/-- Trees that hold the same at a location have the same file there. -/
theorem contentAt?_congr {tree other : Tree} {location : Location}
    (same : tree.get? location = other.get? location) :
    tree.contentAt? location = other.contentAt? location := by
  rw [contentAt?, contentAt?, same]

/-- The content of the file at a location has been changed, or the file has been added or removed, and the
other files are the same. There is no new directory. -/
structure Changes (location : Location) (content : Option Text.Bytes) (before after : Tree) :
    Prop where
  regular : after.IsRegular
  contents : after.contentAt? = Function.update before.contentAt? location content
  directories : ∀ other, after.get? other = some .directory → before.get? other = some .directory

namespace Changes

variable {location : Location} {content : Option Text.Bytes} {before after : Tree}

/-- A place has the content that it is changed to. -/
theorem here (changes : Changes location content before after) :
    after.contentAt? location = content := by
  rw [changes.contents, Function.update_self]

/-- Every other place keeps its content. -/
theorem elsewhere (changes : Changes location content before after) {other : Location}
    (different : other ≠ location) : after.contentAt? other = before.contentAt? other := by
  rw [changes.contents, Function.update_of_ne different]

/-- A change to what was there before leaves all files as they were. -/
theorem same (changes : Changes location content before after)
    (unchanged : before.contentAt? location = content) : after.contentAt? = before.contentAt? := by
  rw [changes.contents, ← unchanged, Function.update_eq_self]

end Changes

/-- The files of a tree are the same as before. -/
structure SameFiles (before after : Tree) : Prop where
  regular : after.IsRegular
  contents : after.contentAt? = before.contentAt?

/-- A regular tree has the same files as itself. -/
theorem IsRegular.sameFiles {tree : Tree} (regular : tree.IsRegular) : SameFiles tree tree :=
  ⟨regular, rfl⟩

/-- Two changes that leave the files as they are leave them so together. -/
theorem SameFiles.trans {before middle after : Tree} (first : SameFiles before middle)
    (second : SameFiles middle after) : SameFiles before after :=
  ⟨second.regular, second.contents.trans first.contents⟩

/-- A tree is regular if each of its entries is: no link, with a name, and with directories above it. -/
theorem isRegular_of_entries {tree : Tree}
    (good : ∀ item ∈ tree.entries, (item.2.isFile || item.2.isDirectory) = true ∧
      (∀ part ∈ item.1, Path.IsName part) ∧
      ∀ count < item.1.length, tree.get? (item.1.take count) = some .directory) : tree.IsRegular where
  linkless location target link := by
    have inside : location ≠ [] := by
      rintro rfl
      cases link
    have known := (good _ (mem_entries_of_get? link inside)).1
    simp [Entry.isFile, Entry.isDirectory] at known
  named location entry present part member := by
    have inside : location ≠ [] := List.ne_nil_of_mem member
    exact (good _ (mem_entries_of_get? present inside)).2.1 part member
  reached location entry present above front other := by
    have inside : location ≠ [] := by
      rintro rfl
      exact other (List.prefix_nil.mp front)
    have shorter : above.length < location.length :=
      Nat.lt_of_le_of_ne front.length_le fun same => other (front.eq_of_length same)
    have known := (good _ (mem_entries_of_get? present inside)).2.2 above.length shorter
    rwa [← List.prefix_iff_eq_take.mp front] at known

namespace IsRegular

variable {tree changed : Tree} {path : Path} {location : Location}

/-- What is present at a location below another shows that the other is a directory. -/
theorem directory_above (regular : tree.IsRegular) {above : Location} {entry : Entry}
    (present : tree.get? location = some entry) (front : above <+: location)
    (other : above ≠ location) : tree.get? above = some .directory :=
  regular.reached location entry present above front other

/-! ### Entries that are put and taken away -/

/-- A regular tree stays so if an entry is put where it is reached, and no directory is replaced by something
else. -/
theorem put {entry : Entry} (regular : tree.IsRegular) (reaches : tree.Reaches location)
    (names : ∀ part ∈ location, Path.IsName part) (noLink : ∀ target, entry ≠ .link target) (inside : location ≠ [])
    (keeps : tree.get? location = some .directory → entry = .directory) :
    (tree.put location entry).IsRegular where
  linkless other target link := by
    by_cases same : other = location
    · rw [same, get?_put_self _ inside] at link
      exact noLink target (Option.some.inj link)
    · rw [get?_put_of_ne _ same] at link
      exact regular.linkless other target link
  named other found present := by
    by_cases same : other = location
    · exact same ▸ names
    · rw [get?_put_of_ne _ same] at present
      exact regular.named other found present
  reached other found present := by
    have before : tree.Reaches other := by
      by_cases same : other = location
      · exact same ▸ reaches
      · rw [get?_put_of_ne _ same] at present
        exact regular.reached other found present
    intro above front different
    have directory := before above front different
    by_cases same : above = location
    · rw [same, get?_put_self _ inside, keeps (same ▸ directory)]
    · rw [get?_put_of_ne _ same, directory]

/-- A file that is put where no directory stands is the only change. -/
theorem put_file (regular : tree.IsRegular) (reaches : tree.Reaches location)
    (names : ∀ part ∈ location, Path.IsName part)
    (notDirectory : tree.get? location ≠ some .directory) (content : Text.Bytes)
    (executable : Bool) :
    Changes location (some content) tree (tree.put location (.file content executable)) where
  regular := by
    have inside : location ≠ [] := by
      rintro rfl
      exact notDirectory rfl
    exact regular.put reaches names (fun _ same => nomatch same) inside
      fun directory => absurd directory notDirectory
  contents := by
    have inside : location ≠ [] := by
      rintro rfl
      exact notDirectory rfl
    funext other
    by_cases same : other = location
    · rw [same, Function.update_self]
      exact contentAt?_of_get? (get?_put_self _ inside _)
    · rw [Function.update_of_ne same]
      exact contentAt?_congr (get?_put_of_ne _ same _)
  directories other directory := by
    have inside : location ≠ [] := by
      rintro rfl
      exact notDirectory rfl
    by_cases same : other = location
    · rw [same, get?_put_self _ inside] at directory
      cases directory
    · rwa [get?_put_of_ne _ same] at directory

/-- A directory that is made where nothing was changes no file. -/
theorem put_directory (regular : tree.IsRegular) (reaches : tree.Reaches location)
    (names : ∀ part ∈ location, Path.IsName part)
    (free : tree.get? location = none) : SameFiles tree (tree.put location .directory) where
  regular := by
    have inside : location ≠ [] := by
      rintro rfl
      cases free
    exact regular.put reaches names (fun _ same => nomatch same) inside fun _ => rfl
  contents := by
    have inside : location ≠ [] := by
      rintro rfl
      cases free
    funext other
    by_cases same : other = location
    · rw [same, contentAt?_eq_none_of_none free]
      exact contentAt?_eq_none_of_directory (get?_put_self _ inside _)
    · exact contentAt?_congr (get?_put_of_ne _ same _)

/-- An entry that is no directory can be taken away without further change. -/
theorem erase (regular : tree.IsRegular) (notDirectory : tree.get? location ≠ some .directory) :
    Changes location none tree (tree.erase location) := by
  have inside : location ≠ [] := by
    rintro rfl
    exact notDirectory rfl
  refine ⟨⟨fun other target link => ?_, fun other found present => ?_,
    fun other found present above front different => ?_⟩, ?_, fun other directory => ?_⟩
  · by_cases same : other = location
    · rw [same, get?_erase_self _ inside] at link
      cases link
    · rw [get?_erase_of_ne _ same] at link
      exact regular.linkless other target link
  · by_cases same : other = location
    · rw [same, get?_erase_self _ inside] at present
      cases present
    · rw [get?_erase_of_ne _ same] at present
      exact regular.named other found present
  · by_cases same : other = location
    · rw [same, get?_erase_self _ inside] at present
      cases present
    · rw [get?_erase_of_ne _ same] at present
      have directory := regular.reached other found present above front different
      by_cases gone : above = location
      · exact absurd (gone ▸ directory) notDirectory
      · rw [get?_erase_of_ne _ gone, directory]
  · funext other
    by_cases same : other = location
    · rw [same, Function.update_self]
      exact contentAt?_eq_none_of_none (get?_erase_self _ inside)
    · rw [Function.update_of_ne same]
      exact contentAt?_congr (get?_erase_of_ne _ same)
  · by_cases same : other = location
    · rw [same, get?_erase_self _ inside] at directory
      cases directory
    · rwa [get?_erase_of_ne _ same] at directory

/-! ### Questions -/

/-- In a regular tree a path leads to the location that it spells, if the system takes it and what is above are
directories. -/
theorem locatePath_iff (regular : tree.IsRegular) (plain : path.IsPlain) {goal : Goal} :
    tree.locatePath goal path = .ok location ↔
      location = path.parts ∧ path.Fits ∧ tree.Reaches path.parts :=
  Tree.locatePath_iff plain (regular.linkless.unlinked [] path.parts)

/-- In a regular tree there is an entry at a path if the system takes the path and the entry is where it spells.
-/
theorem status_iff (regular : tree.IsRegular) (plain : path.IsPlain) {entry : Entry} :
    tree.status path = .ok entry ↔ path.Fits ∧ tree.get? path.parts = some entry := by
  rw [Tree.status_iff plain (regular.linkless.unlinked [] path.parts)]
  constructor
  · rintro ⟨fits, -, present⟩
    exact ⟨fits, present⟩
  · rintro ⟨fits, present⟩
    exact ⟨fits, regular.reached _ _ present, present⟩

/-- The answer to a question that a path is asked: nothing is at a path that cannot be looked up. -/
theorem probe_iff (regular : tree.IsRegular) (plain : path.IsPlain) {test : Entry → Bool}
    {found : Bool} (told : tree.probe test path = .ok found) :
    found = true ↔ path.Fits ∧ ∃ entry, tree.get? path.parts = some entry ∧ test entry = true := by
  unfold probe at told
  split at told
  · rename_i entry present
    obtain ⟨fits, here⟩ := (regular.status_iff plain).mp present
    cases told
    simp [fits, here]
  · rename_i refusal refused
    have lost : ∀ entry, ¬ (path.Fits ∧ tree.get? path.parts = some entry) := by
      intro entry present
      rw [(regular.status_iff plain).mpr present] at refused
      cases refused
    split at told
    · cases told
      simp only [Bool.false_eq_true, false_iff]
      rintro ⟨fits, entry, present, -⟩
      exact lost entry ⟨fits, present⟩
    · cases told

/-- A file is found at a path that can be looked up and that has one. -/
theorem isFile_iff (regular : tree.IsRegular) (plain : path.IsPlain) {found : Bool}
    (told : tree.isFile path = .ok found) :
    found = true ↔ path.Fits ∧ (tree.contentAt? path.parts).isSome := by
  rw [regular.probe_iff plain told]
  constructor
  · rintro ⟨fits, entry, present, isFile⟩
    cases entry with
    | file content executable => exact ⟨fits, by rw [contentAt?_of_get? present]; rfl⟩
    | directory | link => cases isFile
  · rintro ⟨fits, isFile⟩
    obtain ⟨content, held⟩ := Option.isSome_iff_exists.mp isFile
    obtain ⟨executable, present⟩ := contentAt?_eq_some.mp held
    exact ⟨fits, _, present, rfl⟩

/-- In a regular tree a directory is found where there is one, if the system takes the path. -/
theorem isDirectory_iff (regular : tree.IsRegular) (plain : path.IsPlain) {found : Bool}
    (told : tree.isDirectory path = .ok found) :
    found = true ↔ path.Fits ∧ tree.get? path.parts = some .directory := by
  rw [regular.probe_iff plain told]
  constructor
  · rintro ⟨fits, entry, present, isDirectory⟩
    cases entry with
    | directory => exact ⟨fits, present⟩
    | file | link => cases isDirectory
  · rintro ⟨fits, present⟩
    exact ⟨fits, _, present, rfl⟩

/-- In a regular tree a file is read where there is one, if the system takes the path. -/
theorem read_iff (regular : tree.IsRegular) (plain : path.IsPlain) {content : Text.Bytes} :
    tree.read path = .ok content ↔ path.Fits ∧ tree.contentAt? path.parts = some content := by
  unfold read
  split
  · rename_i refusal refused
    simp only [reduceCtorEq, false_iff]
    rintro ⟨fits, held⟩
    obtain ⟨executable, present⟩ := contentAt?_eq_some.mp held
    rw [(regular.status_iff plain).mpr ⟨fits, present⟩] at refused
    cases refused
  · rename_i other executable found
    obtain ⟨fits, present⟩ := (regular.status_iff plain).mp found
    rw [contentAt?_of_get? present]
    simp [fits]
  · rename_i entry noFile found
    obtain ⟨fits, present⟩ := (regular.status_iff plain).mp found
    simp only [reduceCtorEq, false_iff]
    rintro ⟨-, held⟩
    obtain ⟨executable, here⟩ := contentAt?_eq_some.mp held
    rw [present] at here
    exact noFile content executable (Option.some.inj here)

/-- On the way to what is present, nothing is found missing. -/
theorem advance_of_present (linkless : tree.Linkless) {goal : Goal} {parts : List String}
    (names : ∀ part ∈ parts, Path.IsName part)
    (present : ∀ front, front <+: parts → front ≠ [] → tree.get? (location ++ front) ≠ none) :
    (∃ found, tree.advance goal location parts = .ok (.here found)) ∨
      ∃ refusal, tree.advance goal location parts = .error refusal ∧ refusal ≠ .noEntry := by
  induction parts generalizing location with
  | nil => exact .inl ⟨location, rfl⟩
  | cons part rest inductionHypothesis =>
    have name := names part List.mem_cons_self
    have here := present [part] (by simp) (by simp)
    generalize ended : tree.advance goal location (part :: rest) = outcome
    cases advance_eq_iff.mp ended with
    | shut | slash | long => exact .inr ⟨_, rfl, by decide⟩
    | still directory stays => exact absurd stays (by simp [name.notDot, closingSlash, name.nonempty])
    | back directory back => exact absurd back name.notBack
    | free looksUp missing | missing looksUp missing => exact absurd missing here
    | kept looksUp link | link looksUp link => exact absurd link (linkless _ _)
    | down looksUp held noLink onward =>
      rw [← onward]
      refine inductionHypothesis (fun other member => names other (List.mem_cons_of_mem _ member)) ?_
      intro front before nonempty
      have further := present (part :: front) (List.cons_prefix_cons.mpr ⟨rfl, before⟩) (by simp)
      simpa using further

/-- Where nothing is found by name, there is nothing. -/
theorem get?_of_noEntry (regular : tree.IsRegular) (plain : path.IsPlain) {goal : Goal}
    (missing : tree.locatePath goal path = .error .noEntry) : tree.get? path.parts = none := by
  by_contra held
  obtain ⟨entry, present⟩ := Option.ne_none_iff_exists'.mp held
  have onWay : ∀ front, front <+: path.parts → front ≠ [] → tree.get? ([] ++ front) ≠ none := by
    intro front before _ none
    by_cases same : front = path.parts
    · rw [List.nil_append, same, present] at none
      cases none
    · rw [List.nil_append, regular.directory_above present before same] at none
      cases none
  unfold locatePath locate walk at missing
  split at missing
  · cases missing
  split at missing
  · cases missing
  split at missing
  · cases missing
  rcases advance_of_present regular.linkless plain onWay with ⟨found, leads⟩ | ⟨refusal, leads, other⟩
  · rw [leads] at missing
    cases missing
  · rw [leads] at missing
    exact other (Except.error.inj missing)

/-- A file that cannot be read because there is nothing is not there. -/
theorem contentAt?_of_read_error (regular : tree.IsRegular) (plain : path.IsPlain) {text : String}
    (missing : tree.read path = .error (.refused .noEntry text)) :
    tree.contentAt? path.parts = none := by
  unfold read at missing
  split at missing
  · rename_i refusal refused
    have same : refusal = .noEntry := by
      injection missing with missing
      injection missing
    subst same
    unfold status at refused
    split at refused
    · rename_i other lost
      cases refused
      exact contentAt?_eq_none_of_none (regular.get?_of_noEntry plain lost)
    · rename_i found led
      obtain ⟨rfl, -, -⟩ := (regular.locatePath_iff plain).mp led
      split at refused
      · cases refused
      · rename_i none
        exact contentAt?_eq_none_of_none none
  · cases missing
  · cases missing

/-! ### Operations -/

/-- Writing a file changes the content where its path says, and no other. -/
theorem write (regular : tree.IsRegular) (plain : path.IsPlain) {content : Text.Bytes}
    (written : tree.write path content = .ok changed) :
    path.Fits ∧ Changes path.parts (some content) tree changed := by
  unfold Tree.write at written
  split at written
  · cases written
  · rename_i place found
    obtain ⟨rfl, fits, reaches⟩ := (regular.locatePath_iff plain).mp found
    refine ⟨fits, ?_⟩
    split at written
    · cases written
    · rename_i old executable present
      cases written
      exact regular.put_file reaches plain (by rw [present]; simp) content executable
    · rename_i notDirectory _
      cases written
      exact regular.put_file reaches plain notDirectory content false

/-- What is unlinked is gone, and if nothing can be unlinked because there is nothing, no file was there. -/
theorem unlink (regular : tree.IsRegular) (plain : path.IsPlain)
    (unlinked : tree.unlink path = .ok changed) : Changes path.parts none tree changed := by
  obtain ⟨notDirectory, rfl⟩ := regular.linkless.unlink_eq plain unlinked
  exact regular.erase notDirectory

/-- If nothing can be removed because nothing is there, there is nothing. -/
theorem get?_of_unlink_error (regular : tree.IsRegular) (plain : path.IsPlain) {text : String}
    (refused : tree.unlink path = .error (.refused .noEntry text)) : tree.get? path.parts = none := by
  unfold Tree.unlink at refused
  split at refused
  · rename_i refusal lost
    injection refused with refused
    injection refused with same
    exact regular.get?_of_noEntry plain (same ▸ lost)
  · rename_i found led
    obtain ⟨rfl, -, -⟩ := (regular.locatePath_iff plain).mp led
    split at refused
    · rename_i none
      exact none
    · cases refused
    · cases refused

/-- So there is no content either. -/
theorem contentAt?_of_unlink_error (regular : tree.IsRegular) (plain : path.IsPlain) {text : String}
    (refused : tree.unlink path = .error (.refused .noEntry text)) :
    tree.contentAt? path.parts = none :=
  contentAt?_eq_none_of_none (regular.get?_of_unlink_error plain refused)

/-- What has been unlinked was no directory. -/
theorem notDirectory_of_unlink (regular : tree.IsRegular) (plain : path.IsPlain)
    (unlinked : tree.unlink path = .ok changed) : changed.get? path.parts ≠ some .directory := by
  obtain ⟨notDirectory, rfl⟩ := regular.linkless.unlink_eq plain unlinked
  intro directory
  by_cases inside : path.parts = []
  · rw [inside] at notDirectory
    exact notDirectory rfl
  · rw [get?_erase_self _ inside] at directory
    cases directory

/-- Making a directory leaves the files as they are. -/
theorem makeDirectory (regular : tree.IsRegular) (plain : path.IsPlain)
    (made : tree.makeDirectory path = .ok changed) : SameFiles tree changed := by
  unfold Tree.makeDirectory at made
  split at made
  · cases made
  · rename_i place found
    obtain ⟨rfl, -, reaches⟩ := (regular.locatePath_iff plain).mp found
    split at made
    · cases made
    · rename_i free
      cases made
      exact regular.put_directory reaches plain (by simpa using free)

/-- So does making it only if there is none. -/
theorem makeDirectoryIfNone (regular : tree.IsRegular) (plain : path.IsPlain)
    (made : tree.makeDirectoryIfNone path = .ok changed) : SameFiles tree changed := by
  unfold Tree.makeDirectoryIfNone at made
  split at made
  · rename_i other found
    cases made
    exact regular.makeDirectory plain found
  · cases made
  · cases made
  · cases made
  · cases isDirectory : tree.isDirectory path with
    | error fault => simp [isDirectory, bind, Except.bind] at made
    | ok answer =>
      cases answer with
      | true =>
        simp [isDirectory, bind, Except.bind] at made
        exact made ▸ regular.sameFiles
      | false => simp [isDirectory, bind, Except.bind] at made

/-- What leaves the files as they are leaves them so if it is refused, too. -/
theorem afterChange (regular : tree.IsRegular) {change : Except FileFault Tree}
    (same : ∀ after, change = .ok after → SameFiles tree after) :
    SameFiles tree (tree.afterChange change).2 := by
  cases change with
  | error fault => exact regular.sameFiles
  | ok after => exact same after rfl

/-- Making directories changes no file, even where it fails on the way. -/
theorem makeDirectories (regular : tree.IsRegular) (plain : path.IsPlain) :
    SameFiles tree (tree.makeDirectories path).2 := by
  induction length : path.parts.length generalizing path with
  | zero =>
    unfold Tree.makeDirectories
    split
    · rw [if_pos (by simpa using length)]
      exact regular.sameFiles
    · exact regular.afterChange fun after made => regular.makeDirectoryIfNone plain made
  | succ count inductionHypothesis =>
    unfold Tree.makeDirectories
    split
    · have nonempty : ¬ path.parts.isEmpty := by
        intro empty
        simp [List.isEmpty_iff.mp empty] at length
      rw [if_neg nonempty]
      have plainParent : path.parent.IsPlain := fun part member =>
        plain part (List.dropLast_subset _ member)
      have above := inductionHypothesis plainParent (by simp [Path.parent, length])
      split
      · rename_i fault other failed
        rw [failed] at above
        exact above
      · rename_i other made
        rw [made] at above
        exact above.trans (above.regular.afterChange fun after again =>
          above.regular.makeDirectoryIfNone plain again)
    · exact regular.afterChange fun after made => regular.makeDirectoryIfNone plain made

/-- The directories that are made lie on the way to the last of them. -/
theorem directory_of_makeDirectories (regular : tree.IsRegular) (plain : path.IsPlain)
    (directory : (tree.makeDirectories path).2.get? location = some .directory) :
    tree.get? location = some .directory ∨ location <+: path.parts := by
  let ground : Ground :=
    { zone := ⟨fun other => other <+: path.parts, fun _ => False⟩
      holds := Linkless
      kept := fun linkless edit => linkless.edit edit }
  have opens : ground.Opens path :=
    Ground.opens_of_isPlain (fun _ linkless => linkless) plain fun _ front => front
  have edit := Ground.makeDirectories_edit regular.linkless opens
  by_cases inside : location <+: path.parts
  · exact .inr inside
  · rcases edit.spares location inside with same | ⟨none, -⟩
    · exact .inl (same ▸ directory)
    · exact none.elim

/-- A copy of a file that does not go into a directory changes the file at its target only. -/
theorem copyFile (regular : tree.IsRegular) {source : Path} (plainSource : source.IsPlain)
    (plain : path.IsPlain) (notDirectory : tree.get? path.parts ≠ some .directory)
    (copied : tree.copyFile source path = .ok changed) :
    ∃ content, tree.contentAt? source.parts = some content ∧ source.Fits ∧ path.Fits ∧
      Changes path.parts (some content) tree changed := by
  obtain ⟨content, executable, present, written⟩ := copyFile_cases copied
  have outside : (tree.status path).toOption ≠ some .directory := by
    intro directory
    cases told : tree.status path with
    | error refusal => simp [told, Except.toOption] at directory
    | ok entry =>
      simp only [told, Except.toOption, Option.some.injEq] at directory
      exact notDirectory (directory ▸ ((regular.status_iff plain).mp told).2)
  rw [if_neg outside] at written
  obtain ⟨fitsSource, held⟩ := (regular.status_iff plainSource).mp present
  unfold writeCopy at written
  split at written
  · rename_i place found
    obtain ⟨rfl, fits, reaches⟩ := (regular.locatePath_iff plain).mp found
    split at written
    · cases written
    · cases written
      exact ⟨content, contentAt?_of_get? held, fitsSource, fits,
        regular.put_file reaches plain notDirectory content executable⟩
  · cases written
  · cases written

/-- A tree that is removed leaves no file, and all other files are the same. -/
theorem removeTree (regular : tree.IsRegular) (plain : path.IsPlain) (inside : path.parts ≠ [])
    (removed : (tree.removeTree path).1 = .ok ()) :
    (tree.removeTree path).2.IsRegular ∧
      ∀ location, (tree.removeTree path).2.get? location =
        if path.parts <+: location then none else tree.get? location := by
  have entries := get?_removeTree plain inside (regular.linkless.unlinked [] path.parts) removed
  refine ⟨⟨fun location target link => ?_, fun location entry present => ?_,
    fun location entry present above front other => ?_⟩, entries⟩
  · rw [entries] at link
    split at link
    · cases link
    · exact regular.linkless location target link
  · rw [entries] at present
    split at present
    · cases present
    · exact regular.named location entry present
  · rw [entries] at present ⊢
    split at present
    · cases present
    · rename_i outside
      rw [if_neg fun below => outside (below.trans front)]
      exact regular.reached location entry present above front other

/-- A directory that is there can be removed with all that is below it. -/
theorem removeTree_of_isDirectory (regular : tree.IsRegular) (plain : path.IsPlain)
    (inside : path.parts ≠ []) (directory : tree.isDirectory path = .ok true) :
    (tree.removeTree path).1 = .ok () :=
  removeTree_ok plain inside (regular.linkless.unlinked [] path.parts) (Tree.isDirectory_iff.mp directory)

end IsRegular

end TreeBuild.Tree
