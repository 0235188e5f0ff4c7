import TreeBuild.Proofs.Tree.Straight

/-!
# Paths by names

A path by names that no link turns aside leads to the location of these names, and nowhere else. It
leads there if the system takes its text and if everything above the location is a directory, so what
is at the path can be read off the tree.
-/
namespace TreeBuild

/-- A path that the system takes: its text and its parts have a form in bytes, and are not too long. -/
structure Path.Fits (path : Path) : Prop where
  nameable : path.toString.toList.any Text.isUnnameable = false
  noNull : path.toString.toList.contains '\x00' = false
  short : path.toString.utf8ByteSize ≤ Tree.maxPathBytes
  shortParts : ∀ part ∈ path.parts, part.utf8ByteSize ≤ Tree.maxNameBytes

namespace Tree

/-- Everything strictly above a location is a directory. -/
def Reaches (tree : Tree) (location : Location) : Prop :=
  ∀ above, above <+: location → above ≠ location → tree.get? above = some .directory

/-- Names lead down from a directory if there is one, and if each is short enough. -/
theorem advance_cons_iff {tree : Tree} {goal : Goal} {location found : Location} {part : String}
    {rest : List String} (name : Path.IsName part) (names : ∀ part ∈ rest, Path.IsName part)
    (unlinked : ∀ target, tree.get? (location ++ [part]) ≠ some (.link target)) :
    tree.advance goal location (part :: rest) = .ok (.here found) ↔
      tree.get? location = some .directory ∧ part.utf8ByteSize ≤ maxNameBytes ∧
        (rest ≠ [] → tree.get? (location ++ [part]) = some .directory) ∧
        tree.advance goal (location ++ [part]) rest = .ok (.here found) := by
  have notSlash : part ≠ closingSlash := name.nonempty
  have restNot : rest ≠ [closingSlash] := by
    rintro rfl
    exact (names closingSlash (by simp)).nonempty rfl
  rw [advance]
  simp only [name.notDot, notSlash, name.notBack, restNot, decide_false, Bool.or_self, Bool.and_false,
    Bool.false_eq_true, if_false]
  by_cases directory : tree.get? location = some .directory
  · by_cases long : maxNameBytes < part.utf8ByteSize
    · simp [isDirectoryAt, directory, long, Nat.not_le.mpr long]
    · have short := Nat.not_lt.mp long
      simp only [isDirectoryAt, directory, long, short, decide_true, Bool.not_true,
        Bool.false_eq_true, if_false, true_and]
      cases present : tree.get? (location ++ [part]) with
      | none =>
        cases rest with
        | nil => simp [advance]
        | cons next others => simp
      | some entry =>
        cases entry with
        | link target => exact absurd present (unlinked target)
        | directory => simp
        | file content executable =>
          cases rest with
          | nil => simp
          | cons next others =>
            have none : ¬ tree.isDirectoryAt (location ++ [part]) := by simp [isDirectoryAt, present]
            simp [advance, none]
  · simp [isDirectoryAt, directory]

/-- Names lead to the location that they make up, if everything on the way is a directory. -/
theorem advance_iff {tree : Tree} {goal : Goal} {location found : Location} {parts : List String}
    (names : ∀ part ∈ parts, Path.IsName part) (unlinked : tree.Unlinked location parts) :
    tree.advance goal location parts = .ok (.here found) ↔
      found = location ++ parts ∧ (∀ part ∈ parts, part.utf8ByteSize ≤ maxNameBytes) ∧
        ∀ front, front <+: parts → front ≠ parts →
          tree.get? (location ++ front) = some .directory := by
  induction parts generalizing location with
  | nil =>
    constructor
    · intro advanced
      cases advanced
      refine ⟨by simp, by simp, fun front before other => ?_⟩
      exact absurd (List.prefix_nil.mp before) other
    · rintro ⟨rfl, -, -⟩
      simp [advance]
  | cons part rest inductionHypothesis =>
    have name := names part List.mem_cons_self
    have others : ∀ part ∈ rest, Path.IsName part := fun other member =>
      names other (List.mem_cons_of_mem _ member)
    have next := Location.next_of_isName name location
    have clear := unlinked.head
    rw [next] at clear
    rw [advance_cons_iff name others clear, inductionHypothesis others (next ▸ unlinked.tail)]
    constructor
    · rintro ⟨directory, short, further, rfl, shortOthers, below⟩
      refine ⟨by simp, ?_, fun front before other => ?_⟩
      · intro other member
        rcases List.mem_cons.mp member with rfl | later
        · exact short
        · exact shortOthers other later
      · cases front with
        | nil => simpa using directory
        | cons first front =>
          obtain ⟨rfl, within⟩ := List.cons_prefix_cons.mp before
          have different : front ≠ rest := fun same => other (by rw [same])
          simpa using below front within different
    · rintro ⟨rfl, short, below⟩
      refine ⟨?_, short part List.mem_cons_self, fun more => ?_, by simp,
        fun other member => short other (List.mem_cons_of_mem _ member), fun front before other => ?_⟩
      · simpa using below [] (List.nil_prefix) (by simp)
      · exact below [part] (by simp) (by simpa using Ne.symm more)
      · have different : part :: front ≠ part :: rest := by simpa using other
        simpa using below (part :: front) (List.cons_prefix_cons.mpr ⟨rfl, before⟩) different

/-- No link is met on the way along names that none stands at. -/
theorem unlinked_of_isName {tree : Tree} {parts : List String}
    (names : ∀ part ∈ parts, Path.IsName part)
    (clear : ∀ location target, tree.get? location = some (.link target) → ¬ location <+: parts) :
    tree.Unlinked [] parts := by
  intro front before target link
  have short := Location.follow_of_isName (fun part member => names part (before.subset member)) []
  rw [short] at link
  exact clear front target link before

/-- No link turns a path by names aside that leads down to a straight place and on from there. -/
theorem Straight.unlinked_of_isPlain {tree : Tree} {top : Location} {path : Path}
    (straight : tree.Straight top) (plain : path.IsPlain) (below : top <+: path.parts) :
    tree.Unlinked [] path.parts := by
  apply unlinked_of_isName plain
  intro location target link front
  rcases List.prefix_or_prefix_of_prefix front below with above | lower
  · exact (straight location target link).1 above
  · exact (straight location target link).2 lower

/-- A path by names leads to the location of these names, if it leads anywhere. -/
theorem locatePath_iff {tree : Tree} {goal : Goal} {path : Path} {location : Location}
    (plain : path.IsPlain) (unlinked : tree.Unlinked [] path.parts) :
    tree.locatePath goal path = .ok location ↔
      location = path.parts ∧ path.Fits ∧ tree.Reaches path.parts := by
  constructor
  · intro found
    have leads := advance_of_locatePath unlinked found
    obtain ⟨rfl, short, below⟩ := (advance_iff plain unlinked).mp leads
    unfold locatePath locate at found
    split at found
    · cases found
    rename_i nameable
    split at found
    · cases found
    rename_i noNull
    split at found
    · cases found
    rename_i fits
    refine ⟨rfl, ⟨by simpa using nameable, by simpa using noNull, Nat.not_lt.mp fits, short⟩, ?_⟩
    exact fun above before other => by simpa using below above before other
  · rintro ⟨rfl, fits, reaches⟩
    have leads : tree.advance goal [] path.parts = .ok (.here path.parts) := by
      refine (advance_iff plain unlinked).mpr ⟨by simp, fits.shortParts, fun front before other => ?_⟩
      simpa using reaches front before other
    unfold locatePath locate walk
    rw [fits.nameable, fits.noNull, leads]
    simp [Nat.not_lt.mpr fits.short]

/-- What is at a path by names is what the tree holds there. -/
theorem status_iff {tree : Tree} {path : Path} {entry : Entry}
    (plain : path.IsPlain) (unlinked : tree.Unlinked [] path.parts) :
    tree.status path = .ok entry ↔
      path.Fits ∧ tree.Reaches path.parts ∧ tree.get? path.parts = some entry := by
  unfold status
  cases found : tree.locatePath .target path with
  | error refusal =>
    have lost : ¬ (path.Fits ∧ tree.Reaches path.parts) := by
      rintro ⟨fits, reaches⟩
      rw [(locatePath_iff plain unlinked).mpr ⟨rfl, fits, reaches⟩] at found
      cases found
    simp only [reduceCtorEq, false_iff]
    exact fun ⟨fits, reaches, _⟩ => lost ⟨fits, reaches⟩
  | ok location =>
    obtain ⟨rfl, fits, reaches⟩ := (locatePath_iff plain unlinked).mp found
    cases present : tree.get? path.parts with
    | none => simp [present]
    | some other => simp [present, fits, reaches]

/-- A file is at a path if it is what the path leads to. -/
theorem isFile_iff {tree : Tree} {path : Path} :
    tree.isFile path = .ok true ↔
      ∃ content executable, tree.status path = .ok (.file content executable) := by
  unfold isFile probe
  cases tree.status path with
  | error refusal => by_cases absent : isAbsence refusal <;> simp [absent]
  | ok entry => cases entry <;> simp [Entry.isFile]

/-- A directory is at a path if it is what the path leads to. -/
theorem isDirectory_iff {tree : Tree} {path : Path} :
    tree.isDirectory path = .ok true ↔ tree.status path = .ok .directory := by
  unfold isDirectory probe
  cases tree.status path with
  | error refusal => by_cases absent : isAbsence refusal <;> simp [absent]
  | ok entry => cases entry <;> simp [Entry.isDirectory]

/-- The text of an absolute path is looked up part by part. -/
theorem systemParts_toString {path : Path} (absolute : path.isAbsolute) (proper : path.IsProper)
    (nonempty : path.parts ≠ []) : systemParts path.toString = path.parts := by
  obtain ⟨c, last, noSlash⟩ := Path.getLast?_toString absolute proper nonempty
  have parts : (Text.split '/' path.toString).filter (· ≠ "") = path.parts := by
    refine Path.filter_split_toString absolute proper (by decide) fun part member => ?_
    simpa using (proper part member).nonempty
  have ends : path.toString.toList.getLast? ≠ some '/' := by
    rw [last]
    exact fun same => noSlash (Option.some.inj same)
  simp only [systemParts, parts, ends, if_false]

/-! ### Removing trees -/

/-- What is on the way to a location is not below it. -/
theorem not_isBelow_of_isPrefix {above top : Location} (front : above <+: top) : ¬ isBelow above top := by
  intro below
  simp only [isBelow, Bool.and_eq_true, List.isPrefixOf_iff_prefix, decide_eq_true_eq] at below
  exact below.2 (front.eq_of_length_le below.1.length_le)

/-- No link is met on the way to a location after something below it has changed. -/
theorem Unlinked.of_same {tree other : Tree} {parts : List String}
    (names : ∀ part ∈ parts, Path.IsName part) (unlinked : tree.Unlinked [] parts)
    (same : ∀ location, ¬ isBelow location parts → other.get? location = tree.get? location) :
    other.Unlinked [] parts := by
  intro front before target link
  have down : Location.follow [] front = front :=
    Location.follow_of_isName (fun part member => names part (before.subset member)) []
  have clear := unlinked front before target
  rw [down] at link clear
  rw [same front (not_isBelow_of_isPrefix before)] at link
  exact clear link

/-- A path by names that no link turns aside leads to one location only, whatever is below that. -/
theorem leadsTo_of_unlinked {tree : Tree} {path : Path} (plain : path.IsPlain)
    (unlinked : tree.Unlinked [] path.parts) : tree.LeadsTo path path.parts := by
  intro other same location found
  exact ((locatePath_iff plain (unlinked.of_same plain same)).mp found).1

/-- What is left after a tree has been removed. -/
theorem get?_removeTree {tree : Tree} {path : Path} (plain : path.IsPlain) (inside : path.parts ≠ [])
    (unlinked : tree.Unlinked [] path.parts) (removed : (tree.removeTree path).1 = .ok ())
    (location : Location) :
    (tree.removeTree path).2.get? location =
      if path.parts <+: location then none else tree.get? location := by
  have leads := leadsTo_of_unlinked plain unlinked
  split
  · rename_i below
    exact removeTree_clears leads inside removed location below
  · rename_i outside
    exact removeTree_spares leads location outside

/-- A directory at a path by names can be removed with all that is below it. -/
theorem removeTree_ok {tree : Tree} {path : Path} (plain : path.IsPlain) (inside : path.parts ≠ [])
    (unlinked : tree.Unlinked [] path.parts) (directory : tree.status path = .ok .directory) :
    (tree.removeTree path).1 = .ok () := by
  obtain ⟨fits, reaches, present⟩ := (status_iff plain unlinked).mp directory
  have found : tree.locatePath .entry path = .ok path.parts :=
    (locatePath_iff plain unlinked).mpr ⟨rfl, fits, reaches⟩
  have foundAgain : (tree.clearBelow path.parts).locatePath .entry path = .ok path.parts := by
    have clear := unlinked.of_same plain fun _ => get?_clearBelow_of_not
    refine (locatePath_iff plain clear).mpr ⟨rfl, fits, fun above front other => ?_⟩
    rw [get?_clearBelow_of_not (not_isBelow_of_isPrefix front)]
    exact reaches above front other
  have notBack : path.name ≠ ".." := by
    rcases path.name_cases with ⟨empty, -⟩ | last
    · exact absurd empty inside
    · exact (plain _ last).notBack
  unfold removeTree
  simp only [found, present, foundAgain, if_neg notBack]

/-! ### Loops of links -/

/-- A way is refused for one of four reasons, and for the last of them only where a file is to be made. -/
theorem refusal_of_advance {tree : Tree} {goal : Goal} {location : Location} {parts : List String}
    {refusal : Refusal} (refused : tree.advance goal location parts = .error refusal) :
    refusal = .notDirectory ∨ refusal = .noEntry ∨ refusal = .nameTooLong ∨
      refusal = .isDirectory ∧ goal = .creation := by
  induction parts generalizing location with
  | nil => cases refused
  | cons part rest inductionHypothesis =>
    cases advance_eq_iff.mp refused with
    | shut => exact .inl rfl
    | missing => exact .inr (.inl rfl)
    | long => exact .inr (.inr (.inl rfl))
    | slash directory moves notBack creates => exact .inr (.inr (.inr ⟨rfl, creates⟩))
    | still _ _ onward | back _ _ onward | down _ _ _ onward => exact inductionHypothesis onward

/-- Links are counted where they are followed, and nowhere else. -/
theorem advance_ne_tooManyLinks (tree : Tree) (goal : Goal) (location : Location)
    (parts : List String) : tree.advance goal location parts ≠ .error .tooManyLinks := by
  intro refused
  simpa using refusal_of_advance refused

/-- Where no link is on the way, a path is not refused for too many links. -/
theorem Unlinked.locatePath_ne_tooManyLinks {tree : Tree} {path : Path} (unlinked : tree.Unlinked [] path.parts)
    (goal : Goal) : tree.locatePath goal path ≠ .error .tooManyLinks := by
  unfold locatePath locate walk
  intro looped
  split at looped
  · cases looped
  split at looped
  · cases looped
  split at looped
  · cases looped
  split at looped
  · rename_i refusal stopped
    cases looped
    exact advance_ne_tooManyLinks tree goal [] path.parts stopped
  · cases looped
  · rename_i directory target rest reached
    cases advance_eq_follow unlinked reached

/-- Where no link is met, no path leads into a loop of links. -/
theorem Unlinked.status_ne_tooManyLinks {tree : Tree} {path : Path} (unlinked : tree.Unlinked [] path.parts) :
    tree.status path ≠ .error .tooManyLinks := by
  unfold status
  have never := unlinked.locatePath_ne_tooManyLinks .target
  intro looped
  split at looped
  · rename_i refusal stopped
    cases looped
    exact never stopped
  · split at looped <;> cases looped

/-! ### Trees without links -/

/-- No link stands anywhere. -/
def Linkless (tree : Tree) : Prop :=
  ∀ location target, tree.get? location ≠ some (.link target)

namespace Linkless

variable {tree : Tree}

/-- In a tree without links there are none on any way. -/
theorem unlinked (linkless : tree.Linkless) (location : Location) (parts : List String) :
    tree.Unlinked location parts :=
  fun _ _ => linkless _

/-- Where there are no links, a text leads where its parts say. -/
theorem locate_eq_follow (linkless : tree.Linkless) {goal : Goal} {text : String} {parts : List String}
    {location : Location} (led : tree.locate goal text parts = .ok location) :
    location = Location.follow [] parts := by
  have unlinked := linkless.unlinked [] parts
  unfold locate walk at led
  split at led
  · cases led
  split at led
  · cases led
  split at led
  · cases led
  split at led
  · cases led
  · rename_i advanced
    cases led
    cases advance_eq_follow unlinked advanced
    rfl
  · rename_i advanced
    cases advance_eq_follow unlinked advanced

/-- A tree without links stays so when a zone of it is edited. -/
theorem edit {zone : Zone} {after : Tree} (linkless : tree.Linkless) (edit : zone.Edit tree after) :
    after.Linkless :=
  fun location target link => linkless location target (edit.links location target link)

/-- What can be taken away is not a directory, and it is gone then. -/
theorem unlink_eq (linkless : tree.Linkless) {path : Path} (plain : path.IsPlain) {changed : Tree}
    (unlinked : tree.unlink path = .ok changed) :
    tree.get? path.parts ≠ some .directory ∧ changed = tree.erase path.parts := by
  obtain ⟨location, entry, found, present, notDirectory, rfl⟩ := unlink_cases unlinked
  obtain ⟨rfl, -, -⟩ := (locatePath_iff plain (linkless.unlinked [] path.parts)).mp found
  rw [present]
  exact ⟨fun same => notDirectory (Option.some.inj same), rfl⟩

end Linkless

namespace Ground

variable {ground : Ground} {path : Path}

/-- A path without special parts opens if everything above it is in the zone. -/
theorem opens_of_isPlain (linkless : ∀ tree, ground.holds tree → tree.Linkless) (plain : path.IsPlain)
    (inside : ∀ front, front <+: path.parts → ground.zone.inside front) : ground.Opens path := by
  intro front before tree location held found
  have plainFront : Path.IsPlain ⟨path.anchor, front⟩ := fun part member =>
    plain part (before.subset member)
  have unlinked := (linkless tree held).unlinked [] front
  exact .inl (((locatePath_iff plainFront unlinked).mp found).1 ▸ inside front before)

end Ground

end Tree

end TreeBuild
