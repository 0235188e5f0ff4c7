import TreeBuild.Proofs.Path.Spelling
import TreeBuild.Proofs.Tree.Edit

/-!
# Paths that no link turns aside

A path can be followed by its text alone: names lead down and two dots lead up. The tree has the last
word, because a link may stand anywhere, and a part below nothing or below a file leads nowhere. Where
no link is met, though, the text tells where the path leads if it leads anywhere.

So a directory that no link stands at, above or below is a ground: a path that goes down to it by name
and does not leave it from there on leads into it, before and after every edit.
-/
namespace TreeBuild

/-- Where one part leads by its text. -/
def Location.next (location : Location) (part : String) : Location :=
  if part = "." ∨ part = Tree.closingSlash then location
  else if part = ".." then location.dropLast
  else location ++ [part]

/-- Where parts lead by their texts. -/
def Location.follow (location : Location) (parts : List String) : Location :=
  parts.foldl Location.next location

namespace Location

/-- A way in two parts is followed one part after the other. -/
theorem follow_append (location : Location) (front back : List String) :
    follow location (front ++ back) = follow (follow location front) back :=
  List.foldl_append

/-- Names lead down. -/
theorem next_of_isName {part : String} (name : Path.IsName part) (location : Location) :
    next location part = location ++ [part] := by
  have notEmpty : part ≠ Tree.closingSlash := name.nonempty
  simp [next, name.notDot, notEmpty, name.notBack]

/-- Names are followed by going down. -/
theorem follow_of_isName {parts : List String} (names : ∀ part ∈ parts, Path.IsName part)
    (location : Location) : follow location parts = location ++ parts := by
  induction parts generalizing location with
  | nil => simp [follow]
  | cons part rest inductionHypothesis =>
    have further := inductionHypothesis (fun other member => names other (List.mem_cons_of_mem _ member))
      (location ++ [part])
    rw [follow, List.foldl_cons, next_of_isName (names part List.mem_cons_self)]
    simpa [follow] using further

end Location

/-- Whether a path goes down to a location by name and never leaves it from there on. -/
def Path.StaysIn (path : Path) (top : Location) : Prop :=
  ∃ rest, path.parts = top ++ rest ∧ ∀ front, front <+: rest → top <+: Location.follow top front

namespace Tree

/-! ### Where a path leads -/

/-- The name of an entry is looked up in a directory. -/
structure LooksUp (tree : Tree) (goal : Goal) (location : Location) (part : String) (rest : List String) :
    Prop where
  directory : tree.isDirectoryAt location
  moves : ¬ (part = "." ∨ part = closingSlash)
  notBack : part ≠ ".."
  possible : ¬ (goal = .creation ∧ rest = [closingSlash])
  short : part.utf8ByteSize ≤ maxNameBytes

/-- What comes of the first of several parts: it is refused, the way ends at it, or the parts behind it are
followed from where it leads. -/
inductive Stride (tree : Tree) (goal : Goal) (location : Location) (part : String) (rest : List String) :
    Except Refusal Reached → Prop where
  | shut (shut : ¬ tree.isDirectoryAt location) : Stride tree goal location part rest (.error .notDirectory)
  | still {outcome : Except Refusal Reached} (directory : tree.isDirectoryAt location)
      (stays : part = "." ∨ part = closingSlash) (onward : tree.advance goal location rest = outcome) :
      Stride tree goal location part rest outcome
  | back {outcome : Except Refusal Reached} (directory : tree.isDirectoryAt location) (back : part = "..")
      (onward : tree.advance goal location.dropLast rest = outcome) :
      Stride tree goal location part rest outcome
  | slash (directory : tree.isDirectoryAt location) (moves : ¬ (part = "." ∨ part = closingSlash))
      (notBack : part ≠ "..") (creates : goal = .creation) (slash : rest = [closingSlash]) :
      Stride tree goal location part rest (.error .isDirectory)
  | long (directory : tree.isDirectoryAt location) (moves : ¬ (part = "." ∨ part = closingSlash))
      (notBack : part ≠ "..") (possible : ¬ (goal = .creation ∧ rest = [closingSlash]))
      (long : maxNameBytes < part.utf8ByteSize) : Stride tree goal location part rest (.error .nameTooLong)
  | free (looksUp : LooksUp tree goal location part rest) (missing : tree.get? (location ++ [part]) = none)
      (last : rest = []) : Stride tree goal location part rest (.ok (.here (location ++ [part])))
  | missing (looksUp : LooksUp tree goal location part rest) (missing : tree.get? (location ++ [part]) = none)
      (more : rest ≠ []) : Stride tree goal location part rest (.error .noEntry)
  | kept {target : String} (looksUp : LooksUp tree goal location part rest)
      (link : tree.get? (location ++ [part]) = some (.link target)) (last : rest = []) (entry : goal = .entry) :
      Stride tree goal location part rest (.ok (.here (location ++ [part])))
  | link {target : String} (looksUp : LooksUp tree goal location part rest)
      (link : tree.get? (location ++ [part]) = some (.link target)) (follows : ¬ (rest = [] ∧ goal = .entry)) :
      Stride tree goal location part rest (.ok (.link location target rest))
  | down {entry : Entry} {outcome : Except Refusal Reached} (looksUp : LooksUp tree goal location part rest)
      (present : tree.get? (location ++ [part]) = some entry) (noLink : ∀ target, entry ≠ .link target)
      (onward : tree.advance goal (location ++ [part]) rest = outcome) :
      Stride tree goal location part rest outcome

/-- Several parts are followed by a stride along the first one. -/
theorem advance_eq_iff {tree : Tree} {goal : Goal} {location : Location} {part : String} {rest : List String}
    {outcome : Except Refusal Reached} :
    tree.advance goal location (part :: rest) = outcome ↔ Stride tree goal location part rest outcome := by
  rw [advance]
  constructor
  · rintro rfl
    split
    · rename_i shut
      exact .shut (by simpa using shut)
    rename_i directory
    have directory : tree.isDirectoryAt location := by simpa using directory
    split
    · rename_i stays
      exact .still directory (by simpa using stays) rfl
    rename_i moves
    have moves : ¬ (part = "." ∨ part = closingSlash) := by simpa using moves
    split
    · rename_i back
      exact .back directory back rfl
    rename_i notBack
    split
    · rename_i slash
      obtain ⟨creates, slash⟩ : goal = .creation ∧ rest = [closingSlash] := by simpa using slash
      exact .slash directory moves notBack creates slash
    rename_i possible
    have possible : ¬ (goal = .creation ∧ rest = [closingSlash]) := by simpa using possible
    split
    · rename_i long
      exact .long directory moves notBack possible long
    rename_i short
    have looksUp : LooksUp tree goal location part rest := ⟨directory, moves, notBack, possible, Nat.not_lt.mp short⟩
    split
    · rename_i missing
      cases rest with
      | nil => exact .free looksUp missing rfl
      | cons next others => exact .missing looksUp missing (List.cons_ne_nil next others)
    · rename_i target link
      split
      · rename_i last
        obtain ⟨last, entry⟩ : rest = [] ∧ goal = .entry := by simpa using last
        exact .kept looksUp link last entry
      · rename_i follows
        exact .link looksUp link (by simpa using follows)
    · rename_i entry noLink present
      exact .down looksUp present noLink rfl
  · intro stride
    cases stride with
    | shut shut => rw [if_pos (by simpa using shut)]
    | still directory stays onward =>
      rw [if_neg (by simp [directory]), if_pos (by simpa using stays), onward]
    | back directory back onward =>
      have moves : ¬ (part = "." ∨ part = closingSlash) := back ▸ by decide
      rw [if_neg (by simp [directory]), if_neg (by simpa using moves), if_pos back, onward]
    | slash directory moves notBack creates slash =>
      rw [if_neg (by simp [directory]), if_neg (by simpa using moves), if_neg notBack,
        if_pos (by simp [creates, slash])]
    | long directory moves notBack possible long =>
      rw [if_neg (by simp [directory]), if_neg (by simpa using moves), if_neg notBack,
        if_neg (by simpa using possible), if_pos long]
    | free looksUp | missing looksUp | kept looksUp | link looksUp | down looksUp =>
      -- From here on it depends on the entry that is found, which each of these cases says.
      rw [if_neg (by simp [looksUp.directory]), if_neg (by simpa using looksUp.moves), if_neg looksUp.notBack,
        if_neg (by simpa using looksUp.possible), if_neg (Nat.not_lt.mpr looksUp.short)]
      simp [*]

/-- One part of the way, if no link stands at its end: it starts from a directory. -/
theorem advance_cons {tree : Tree} {goal : Goal} {location : Location} {part : String}
    {rest : List String} {reached : Reached}
    (unlinked : ∀ target, tree.get? (location.next part) ≠ some (.link target))
    (advanced : tree.advance goal location (part :: rest) = .ok reached) :
    tree.isDirectoryAt location ∧ tree.advance goal (location.next part) rest = .ok reached := by
  have down (looksUp : LooksUp tree goal location part rest) : location.next part = location ++ [part] := by
    simp [Location.next, looksUp.moves, looksUp.notBack]
  cases advance_eq_iff.mp advanced with
  | still directory stays onward =>
    have here : location.next part = location := by simp [Location.next, stays]
    rw [here]
    exact ⟨directory, onward⟩
  | back directory back onward =>
    have up : location.next part = location.dropLast := by simp [Location.next, back, closingSlash]
    exact ⟨directory, up ▸ onward⟩
  | free looksUp missing last =>
    subst last
    exact ⟨looksUp.directory, down looksUp ▸ rfl⟩
  | kept looksUp link last entry => exact absurd link (down looksUp ▸ unlinked _)
  | link looksUp link follows => exact absurd link (down looksUp ▸ unlinked _)
  | down looksUp present noLink onward => exact ⟨looksUp.directory, down looksUp ▸ onward⟩

/-- No link is met on the way along these parts. -/
def Unlinked (tree : Tree) (location : Location) (parts : List String) : Prop :=
  ∀ front, front <+: parts → ∀ target, tree.get? (location.follow front) ≠ some (.link target)

/-- No link is at the first part of a way without links. -/
theorem Unlinked.head {tree : Tree} {location : Location} {part : String} {rest : List String}
    (unlinked : tree.Unlinked location (part :: rest)) (target : String) :
    tree.get? (location.next part) ≠ some (.link target) :=
  unlinked [part] (by simp) target

/-- Behind its first part such a way has no links either. -/
theorem Unlinked.tail {tree : Tree} {location : Location} {part : String} {rest : List String}
    (unlinked : tree.Unlinked location (part :: rest)) : tree.Unlinked (location.next part) rest :=
  fun front before => unlinked (part :: front) (List.cons_prefix_cons.mpr ⟨rfl, before⟩)

/-- Where no link is met, parts lead where their texts say. -/
theorem advance_eq_follow {tree : Tree} {goal : Goal} {location : Location} {parts : List String}
    {reached : Reached} (unlinked : tree.Unlinked location parts)
    (advanced : tree.advance goal location parts = .ok reached) :
    reached = .here (location.follow parts) := by
  induction parts generalizing location with
  | nil => exact (Except.ok.inj advanced).symm
  | cons part rest inductionHypothesis =>
    exact inductionHypothesis unlinked.tail (advance_cons unlinked.head advanced).2

/-- A way that leads anywhere goes through directories. -/
theorem isDirectoryAt_of_advance {tree : Tree} {goal : Goal} {location : Location}
    {front : List String} {part : String} {rest : List String} {reached : Reached}
    (unlinked : tree.Unlinked location (front ++ part :: rest))
    (advanced : tree.advance goal location (front ++ part :: rest) = .ok reached) :
    tree.isDirectoryAt (location.follow front) := by
  induction front generalizing location with
  | nil => exact (advance_cons unlinked.head advanced).1
  | cons first others inductionHypothesis =>
    exact inductionHypothesis unlinked.tail (advance_cons unlinked.head advanced).2

/-- A path that leads anywhere is followed without a fault. -/
theorem advance_of_locatePath {tree : Tree} {goal : Goal} {path : Path} {location : Location}
    (unlinked : tree.Unlinked [] path.parts) (found : tree.locatePath goal path = .ok location) :
    tree.advance goal [] path.parts = .ok (.here location) := by
  unfold locatePath locate at found
  split at found
  · cases found
  split at found
  · cases found
  split at found
  · cases found
  unfold walk at found
  split at found
  · cases found
  · rename_i here advanced
    cases found
    exact advanced
  · rename_i directory target rest advanced
    cases advance_eq_follow unlinked advanced

/-- Where no link is met, a path leads where its text says. -/
theorem locatePath_eq_follow {tree : Tree} {goal : Goal} {path : Path} {location : Location}
    (unlinked : tree.Unlinked [] path.parts) (found : tree.locatePath goal path = .ok location) :
    location = Location.follow [] path.parts := by
  cases advance_eq_follow unlinked (advance_of_locatePath unlinked found)
  rfl

/-! ### Straight trees -/

/-- No link stands at a location, above it or below it. -/
def Straight (tree : Tree) (top : Location) : Prop :=
  ∀ location target, tree.get? location = some (.link target) →
    ¬ location <+: top ∧ ¬ top <+: location

/-- What is straight stays so when a zone is edited. -/
theorem Straight.edit {before after : Tree} {top : Location} {zone : Zone}
    (straight : before.Straight top) (edit : zone.Edit before after) : after.Straight top :=
  fun location target link => straight location target (edit.links location target link)

/-- No link is met on the way to a straight place and on from there, as long as the way does not turn
off above it. -/
theorem Straight.unlinked {tree : Tree} {top : Location} (straight : tree.Straight top)
    (names : ∀ part ∈ top, Path.IsName part) {rest : List String}
    (near : ∀ front, front <+: rest →
      Location.follow top front <+: top ∨ top <+: Location.follow top front) :
    tree.Unlinked [] (top ++ rest) := by
  intro front before target link
  have clear := straight _ target link
  rcases List.prefix_or_prefix_of_prefix before (List.prefix_append top rest) with above | below
  · have down := Location.follow_of_isName
      (fun part member => names part (above.subset member)) []
    rw [down] at clear
    exact clear.1 (by simpa using above)
  · obtain ⟨onward, rfl⟩ := below
    have within : onward <+: rest := (List.prefix_append_right_inj top).mp before
    rw [Location.follow_append, Location.follow_of_isName names, List.nil_append] at clear
    rcases near onward within with higher | lower
    · exact clear.1 higher
    · exact clear.2 lower

/-! ### Rooms -/

/-- A place that belongs to a ground with all that is below it, and that no link turns away from. -/
structure Ground.Room (ground : Ground) (top : Location) : Prop where
  names : ∀ part ∈ top, Path.IsName part
  straight : ∀ tree, ground.holds tree → tree.Straight top
  inside : ∀ location, top <+: location → ground.zone.inside location
  above : ∀ location, location <+: top → ground.zone.inside location ∨ ground.zone.above location

namespace Ground.Room

variable {ground : Ground} {top : Location} {path : Path}

/-- A path that goes down to a room and stays in it leads into it. -/
theorem follow (room : ground.Room top) (stays : path.StaysIn top) {tree : Tree} {goal : Goal}
    {location : Location} (held : ground.holds tree)
    (found : tree.locatePath goal path = .ok location) : top <+: location := by
  obtain ⟨rest, parts, within⟩ := stays
  have unlinked : tree.Unlinked [] path.parts := by
    rw [parts]
    exact (room.straight tree held).unlinked room.names fun front before => .inr (within front before)
  have leads := locatePath_eq_follow unlinked found
  rw [parts, Location.follow_append, Location.follow_of_isName room.names, List.nil_append] at leads
  subst leads
  exact within rest (List.prefix_refl rest)

/-- A ground owns the files that stay in its room. -/
theorem owns (room : ground.Room top) (stays : path.StaysIn top) : ground.Owns path :=
  fun _ _ location held found => room.inside location (room.follow stays held found)

/-- Directories may be made on the way to a room and in it. -/
theorem opens (room : ground.Room top) (stays : path.StaysIn top) : ground.Opens path := by
  obtain ⟨rest, parts, within⟩ := stays
  intro front before tree location held found
  rcases List.prefix_or_prefix_of_prefix (parts ▸ before) (List.prefix_append top rest) with
    above | below
  · have names : ∀ part ∈ front, Path.IsName part :=
      fun part member => room.names part (above.subset member)
    have unlinked : tree.Unlinked [] front := by
      intro shorter before target link
      refine (room.straight tree held _ target link).1 ?_
      rw [Location.follow_of_isName fun part member => names part (before.subset member)]
      exact before.trans above
    have leads := locatePath_eq_follow unlinked found
    rw [Location.follow_of_isName names, List.nil_append] at leads
    subst leads
    exact room.above _ above
  · obtain ⟨onward, rfl⟩ := below
    have onwardPrefix : onward <+: rest := (List.prefix_append_right_inj top).mp (parts ▸ before)
    have staysShort : Path.StaysIn ⟨path.anchor, top ++ onward⟩ top :=
      ⟨onward, rfl, fun shorter first => within shorter (first.trans onwardPrefix)⟩
    exact .inl (room.inside location (room.follow staysShort held found))

/-- Two dots behind a path in a room lead into the room, or to the directory above it. -/
theorem back (room : ground.Room top) (stays : path.StaysIn top) {tree : Tree} {goal : Goal}
    {location : Location} (held : ground.holds tree)
    (found : tree.locatePath goal ⟨path.anchor, path.parts ++ [".."]⟩ = .ok location) :
    top <+: location ∨ tree.isDirectoryAt location := by
  obtain ⟨rest, parts, within⟩ := stays
  have inner := within rest (List.prefix_refl rest)
  have up : Location.follow top (rest ++ [".."]) = (Location.follow top rest).dropLast := by
    rw [Location.follow_append]
    rfl
  have unlinked : tree.Unlinked [] (top ++ (rest ++ [".."])) := by
    refine (room.straight tree held).unlinked room.names fun front before => ?_
    rcases List.prefix_concat_iff.mp before with rfl | shorter
    · rw [up]
      exact List.prefix_or_prefix_of_prefix (List.dropLast_prefix _) inner
    · exact .inr (within front shorter)
  rw [parts, List.append_assoc] at found
  have leads := locatePath_eq_follow unlinked found
  have advanced := advance_of_locatePath unlinked found
  rw [Location.follow_append, Location.follow_of_isName room.names, List.nil_append, up] at leads
  subst leads
  rcases List.eq_nil_or_concat (Location.follow top rest) with empty | ⟨above, last, longer⟩
  · rw [empty]
    exact .inr rfl
  · rw [longer, List.concat_eq_append] at inner ⊢
    rcases List.prefix_concat_iff.mp inner with rfl | deeper
    · right
      have names : ∀ part ∈ above, Path.IsName part :=
        fun part member => room.names part (List.mem_append_left _ member)
      have way : above ++ [last] ++ (rest ++ [".."]) = above ++ last :: (rest ++ [".."]) := by simp
      rw [way] at unlinked advanced
      have directory := isDirectoryAt_of_advance unlinked advanced
      rw [Location.follow_of_isName names] at directory
      simpa using directory
    · left
      simpa using deeper

/-- A file may be written into a directory in a room, under any name that a path can have. -/
theorem receives (room : ground.Room top) (stays : path.StaysIn top) {name : String}
    (isPart : name = "" ∨ Path.IsPart name) : ground.Receives path name := by
  intro tree location held found
  rcases isPart with rfl | isPart
  · have same : path / "" = path := by
      change path.join (Path.ofString "") = path
      cases path
      simp [Path.join, Path.ofString, Path.isAbsolute, Path.anchorOf, Path.partsOf, Text.split,
        Text.splitAt]
    rw [same] at found
    exact .inl (room.inside location (room.follow stays held found))
  · rw [Path.div_of_isPart path isPart] at found
    by_cases leadsBack : name = ".."
    · subst leadsBack
      exact (room.back stays held found).imp_left (room.inside location)
    · obtain ⟨rest, parts, within⟩ := stays
      have deeper : Path.StaysIn ⟨path.anchor, path.parts ++ [name]⟩ top := by
        refine ⟨rest ++ [name], by rw [parts, List.append_assoc], fun front before => ?_⟩
        rcases List.prefix_concat_iff.mp before with rfl | shorter
        · rw [Location.follow_append]
          change top <+: Location.next (Location.follow top rest) name
          rw [Location.next_of_isName ⟨isPart, leadsBack⟩]
          exact (within rest (List.prefix_refl rest)).trans (List.prefix_append _ _)
        · exact within front shorter
      exact .inl (room.inside location (room.follow deeper held found))

end Ground.Room

end Tree

end TreeBuild
