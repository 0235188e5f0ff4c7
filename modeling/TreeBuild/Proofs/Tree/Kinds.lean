import TreeBuild.Proofs.Tree.Named

/-!
# Trees that differ in what their files hold

Paths are followed through directories and links, and no file is opened on the way. Two trees that hold
the same but for the content of files therefore lead every path to the same place, and have files and
directories at the same paths. Writing to a file that is there makes such a tree, whatever links the path
goes through, and what was written is what is read from the path then. The same is read where the file has
been made, for the way to it was there already.
-/
namespace TreeBuild

/-- Two entries are the same, or both are files. -/
inductive Entry.Alike : Option Entry → Option Entry → Prop where
  | same (entry : Option Entry) : Alike entry entry
  | files (content other : Text.Bytes) (executable executableOther : Bool) :
      Alike (some (.file content executable)) (some (.file other executableOther))

/-- Two entries are the same, or a file has come, be it in the place of another one. -/
inductive Entry.Grown : Option Entry → Option Entry → Prop where
  | same (entry : Option Entry) : Grown entry entry
  | replaced (old content : Text.Bytes) (executableOld executable : Bool) :
      Grown (some (.file old executableOld)) (some (.file content executable))
  | made (content : Text.Bytes) (executable : Bool) : Grown none (some (.file content executable))

/-- Two entries are the same, or a file or a directory has come. -/
inductive Entry.Widened : Option Entry → Option Entry → Prop where
  | grown {entry other : Option Entry} (grown : Grown entry other) : Widened entry other
  | directory : Widened none (some .directory)

namespace Tree

/-- Two trees hold the same everywhere, but for the content of files. -/
def Alike (tree other : Tree) : Prop :=
  ∀ location, Entry.Alike (tree.get? location) (other.get? location)

/-- A tree is like itself. -/
theorem Alike.refl (tree : Tree) : tree.Alike tree := fun _ => .same _

/-- Trees that are both like a third one are alike. -/
theorem Alike.trans {tree other another : Tree} (first : tree.Alike other)
    (second : other.Alike another) : tree.Alike another := by
  intro location
  have before := first location
  have after := second location
  generalize tree.get? location = start at before
  generalize other.get? location = middle at before after
  generalize another.get? location = final at after
  cases before with
  | same => exact after
  | files => cases after <;> exact .files _ _ _ _

section

variable {tree other : Tree} (alike : tree.Alike other)
include alike

/-- Trees that are alike have directories at the same places. -/
theorem Alike.isDirectoryAt (location : Location) :
    other.isDirectoryAt location = tree.isDirectoryAt location := by
  have here := alike location
  unfold Tree.isDirectoryAt
  generalize tree.get? location = first at here
  generalize other.get? location = second at here
  cases here <;> simp

/-- Parts are followed to the same place. -/
theorem Alike.advance (goal : Goal) (location : Location) (parts : List String) :
    other.advance goal location parts = tree.advance goal location parts := by
  induction parts generalizing location with
  | nil => rfl
  | cons part rest inductionHypothesis =>
    have next := alike (location ++ [part])
    simp only [Tree.advance, alike.isDirectoryAt, inductionHypothesis]
    generalize tree.get? (location ++ [part]) = first at next
    generalize other.get? (location ++ [part]) = second at next
    cases next <;> rfl

/-- A way leads to the same in trees that are alike. -/
theorem Alike.walk (goal : Goal) (links : Nat) (location : Location) (parts : List String) :
    other.walk goal links location parts = tree.walk goal links location parts := by
  induction links generalizing location parts with
  | zero =>
    unfold Tree.walk
    rw [alike.advance]
  | succ links inductionHypothesis =>
    unfold Tree.walk
    simp only [alike.advance, inductionHypothesis]

/-- Every path leads to the same place. -/
theorem Alike.locatePath (goal : Goal) (path : Path) :
    other.locatePath goal path = tree.locatePath goal path := by
  simp only [Tree.locatePath, locate, alike.walk]

/-- A question that does not tell files apart has the same answer. -/
theorem Alike.probe {test : Entry → Bool}
    (blind : ∀ content other executable executableOther,
      test (.file content executable) = test (.file other executableOther)) (path : Path) :
    other.probe test path = tree.probe test path := by
  simp only [Tree.probe, status, alike.locatePath]
  cases tree.locatePath .target path with
  | error refusal => rfl
  | ok location =>
    have here := alike location
    dsimp only
    generalize tree.get? location = first at here
    generalize other.get? location = second at here
    cases here with
    | same => rfl
    | files content again executable executableOther =>
      exact congrArg Except.ok (blind again content executableOther executable)

/-- A file is found at the same paths in trees that are alike. -/
theorem Alike.isFile (path : Path) : other.isFile path = tree.isFile path :=
  alike.probe (fun _ _ _ _ => rfl) path

/-- So is a directory. -/
theorem Alike.isDirectory (path : Path) : other.isDirectory path = tree.isDirectory path :=
  alike.probe (fun _ _ _ _ => rfl) path

end

/-! ### What comes to be -/

/-- A tree in which files have come, be it in the place of others. -/
def Grown (tree other : Tree) : Prop :=
  ∀ location, Entry.Grown (tree.get? location) (other.get? location)

/-- A tree in which files and directories have come. -/
def Widened (tree other : Tree) : Prop :=
  ∀ location, Entry.Widened (tree.get? location) (other.get? location)

/-- A tree that has not changed has grown by nothing. -/
theorem Grown.refl (tree : Tree) : tree.Grown tree := fun _ => .same _

/-- A tree that has grown is wider. -/
theorem Grown.widened {tree other : Tree} (grown : tree.Grown other) : tree.Widened other :=
  fun location => .grown (grown location)

/-- A tree that is widened twice is wider. -/
theorem Widened.trans {tree other another : Tree} (first : tree.Widened other) (second : other.Widened another) :
    tree.Widened another := by
  intro location
  have before := first location
  have after := second location
  generalize tree.get? location = start at before
  generalize other.get? location = middle at before after
  generalize another.get? location = final at after
  cases before with
  | directory =>
    cases after with
    | grown grown =>
      cases grown
      exact .directory
  | grown grown =>
    cases grown with
    | same => exact after
    | replaced =>
      cases after with
      | grown grown => cases grown <;> exact .grown (.replaced _ _ _ _)
    | made =>
      cases after with
      | grown grown => cases grown <;> exact .grown (.made _ _)

section

variable {tree other : Tree} (widened : tree.Widened other)
include widened

/-- A directory stays one when a tree is widened. -/
theorem Widened.isDirectoryAt {location : Location} (isDirectory : tree.isDirectoryAt location) :
    other.isDirectoryAt location := by
  have here := widened location
  unfold Tree.isDirectoryAt at isDirectory ⊢
  generalize tree.get? location = first at here isDirectory
  generalize other.get? location = second at here
  cases here with
  | directory => rfl
  | grown grown =>
    cases grown with
    | same => exact isDirectory
    | replaced => simp at isDirectory
    | made => simp at isDirectory

/-- Links stay as they are. -/
theorem Widened.link {location : Location} {target : String}
    (link : tree.get? location = some (.link target)) : other.get? location = some (.link target) := by
  have here := widened location
  rw [link] at here
  generalize other.get? location = later at here ⊢
  cases here with
  | grown grown =>
    cases grown
    rfl

/-- What is no link stays, or another file takes its place. -/
theorem Widened.present {location : Location} {entry : Entry} (present : tree.get? location = some entry)
    (noLink : ∀ target, entry ≠ .link target) :
    ∃ later, other.get? location = some later ∧ ∀ target, later ≠ .link target := by
  have here := widened location
  rw [present] at here
  generalize other.get? location = later at here ⊢
  cases here with
  | grown grown =>
    cases grown with
    | same => exact ⟨entry, rfl, noLink⟩
    | replaced => exact ⟨_, rfl, nofun⟩

/-- No link comes. -/
theorem Widened.noLink_of_none {location : Location} (missing : tree.get? location = none) {later : Entry}
    (come : other.get? location = some later) (target : String) : later ≠ .link target := by
  rintro rfl
  have here := widened location
  rw [missing, come] at here
  cases here with
  | grown grown => cases grown

/-- Where parts lead to, they still lead when files and directories have come, and what may be made at a place
is found there when it is looked for. -/
theorem Widened.advance {goal wider : Goal} (follows : goal ≠ .entry)
    (same : wider = goal ∨ goal = .creation ∧ wider = .target) {location : Location} {parts : List String}
    {reached : Reached} (found : tree.advance goal location parts = .ok reached) :
    other.advance wider location parts = .ok reached := by
  have widerFollows : wider ≠ .entry := by
    rcases same with rfl | ⟨-, rfl⟩
    · exact follows
    · nofun
  have slash {rest : List String} (possible : ¬ (goal = .creation ∧ rest = [closingSlash])) :
      ¬ (wider = .creation ∧ rest = [closingSlash]) := by
    rcases same with rfl | ⟨-, rfl⟩
    · exact possible
    · simp
  induction parts generalizing location with
  | nil => exact found
  | cons part rest inductionHypothesis =>
    have looks (looksUp : LooksUp tree goal location part rest) : LooksUp other wider location part rest :=
      { looksUp with
        directory := widened.isDirectoryAt looksUp.directory
        possible := slash looksUp.possible }
    refine advance_eq_iff.mpr ?_
    cases advance_eq_iff.mp found with
    | still directory stays onward =>
      exact .still (widened.isDirectoryAt directory) stays (inductionHypothesis onward)
    | back directory back onward =>
      exact .back (widened.isDirectoryAt directory) back (inductionHypothesis onward)
    | free looksUp missing last =>
      subst last
      cases come : other.get? (location ++ [part]) with
      | none => exact .free (looks looksUp) come rfl
      | some later => exact .down (looks looksUp) come (widened.noLink_of_none missing come) rfl
    | kept looksUp link last entry => exact absurd entry follows
    | link looksUp link =>
      exact .link (looks looksUp) (widened.link link) fun entry => widerFollows entry.2
    | down looksUp present noLink onward =>
      obtain ⟨later, stays, noLinkLater⟩ := widened.present present noLink
      exact .down (looks looksUp) stays noLinkLater (inductionHypothesis onward)

/-- A way that leads somewhere leads there in a wider tree. -/
theorem Widened.walk {goal wider : Goal} (follows : goal ≠ .entry)
    (same : wider = goal ∨ goal = .creation ∧ wider = .target) {links : Nat} {location found : Location}
    {parts : List String} (led : tree.walk goal links location parts = .ok found) :
    other.walk wider links location parts = .ok found := by
  induction links generalizing location parts with
  | zero =>
    unfold Tree.walk at led ⊢
    split at led
    · cases led
    · rename_i reached
      rw [widened.advance follows same reached]
      exact led
    · cases led
  | succ links inductionHypothesis =>
    unfold Tree.walk at led ⊢
    split at led
    · cases led
    · rename_i reached
      rw [widened.advance follows same reached]
      exact led
    · rename_i reached
      rw [widened.advance follows same reached]
      exact inductionHypothesis led

/-- A path that leads somewhere still leads there. -/
theorem Widened.locatePath {goal wider : Goal} (follows : goal ≠ .entry)
    (same : wider = goal ∨ goal = .creation ∧ wider = .target) {path : Path} {location : Location}
    (led : tree.locatePath goal path = .ok location) : other.locatePath wider path = .ok location := by
  unfold Tree.locatePath locate at led ⊢
  split
  · rename_i unnameable
    simp [unnameable] at led
  · rename_i nameable
    rw [if_neg nameable] at led
    split
    · rename_i null
      rw [if_pos null] at led
      cases led
    · rename_i noNull
      rw [if_neg noNull] at led
      split
      · rename_i long
        rw [if_pos long] at led
        cases led
      · rename_i short
        rw [if_neg short] at led
        exact widened.walk follows same led

end

/-- Where a file may be made, the same place is found when it is looked for, also once files have come. -/
theorem Grown.locatePath_of_creation {tree other : Tree} (grown : tree.Grown other) {path : Path}
    {location : Location} (led : tree.locatePath .creation path = .ok location) :
    other.locatePath .target path = .ok location :=
  grown.widened.locatePath (by decide) (.inr ⟨rfl, rfl⟩) led

section

variable {tree other : Tree} (grown : tree.Grown other)
include grown

/-- A tree that has grown has directories at the same places. -/
theorem Grown.isDirectoryAt (location : Location) :
    other.isDirectoryAt location = tree.isDirectoryAt location := by
  have here := grown location
  unfold Tree.isDirectoryAt
  generalize tree.get? location = first at here
  generalize other.get? location = second at here
  cases here <;> simp

/-- Once files have come, parts lead to the same place, or are stopped by a file where nothing was before. -/
theorem Grown.advance_cases (location : Location) (parts : List String) :
    other.advance .target location parts = tree.advance .target location parts ∨
      tree.advance .target location parts = .error .noEntry ∧
        other.advance .target location parts = .error .notDirectory := by
  induction parts generalizing location with
  | nil => exact .inl rfl
  | cons part rest inductionHypothesis =>
    have directoryAt (directory : tree.isDirectoryAt location) : other.isDirectoryAt location :=
      (grown.isDirectoryAt location).trans directory
    have looks (looksUp : LooksUp tree .target location part rest) : LooksUp other .target location part rest :=
      { looksUp with directory := directoryAt looksUp.directory }
    generalize ended : tree.advance .target location (part :: rest) = outcome
    -- Where the way goes on, what becomes of it becomes of the whole way.
    have further (place : Location) (onward : tree.advance .target place rest = outcome)
        (stride : ∀ outcome, other.advance .target place rest = outcome →
          Stride other .target location part rest outcome) :
        other.advance .target location (part :: rest) = outcome ∨
          outcome = .error .noEntry ∧ other.advance .target location (part :: rest) = .error .notDirectory := by
      rcases inductionHypothesis place with same | ⟨missing, stopped⟩
      · exact .inl (advance_eq_iff.mpr (stride _ (same.trans onward)))
      · exact .inr ⟨onward.symm.trans missing, advance_eq_iff.mpr (stride _ stopped)⟩
    cases advance_eq_iff.mp ended with
    | shut shut => exact .inl (advance_eq_iff.mpr (.shut (by rwa [grown.isDirectoryAt])))
    | still directory stays onward => exact further _ onward fun _ => .still (directoryAt directory) stays
    | back directory back onward => exact further _ onward fun _ => .back (directoryAt directory) back
    | slash directory moves notBack creates => cases creates
    | long directory moves notBack possible long =>
      exact .inl (advance_eq_iff.mpr (.long (directoryAt directory) moves notBack possible long))
    | free looksUp missing last =>
      subst last
      cases come : other.get? (location ++ [part]) with
      | none => exact .inl (advance_eq_iff.mpr (.free (looks looksUp) come rfl))
      | some later =>
        have noLink := grown.widened.noLink_of_none missing come
        exact .inl (advance_eq_iff.mpr (.down (looks looksUp) come noLink rfl))
    | missing looksUp missing more =>
      cases come : other.get? (location ++ [part]) with
      | none => exact .inl (advance_eq_iff.mpr (.missing (looks looksUp) come more))
      | some later =>
        have noLink := grown.widened.noLink_of_none missing come
        have notDirectory : ¬ other.isDirectoryAt (location ++ [part]) := by
          rw [grown.isDirectoryAt]
          simp [Tree.isDirectoryAt, missing]
        have stopped : other.advance .target (location ++ [part]) rest = .error .notDirectory := by
          obtain ⟨first, others, rfl⟩ := List.exists_cons_of_ne_nil more
          exact advance_eq_iff.mpr (.shut notDirectory)
        exact .inr ⟨rfl, advance_eq_iff.mpr (.down (looks looksUp) come noLink stopped)⟩
    | kept looksUp link last entry => cases entry
    | link looksUp link follows =>
      exact .inl (advance_eq_iff.mpr (.link (looks looksUp) (grown.widened.link link) follows))
    | down looksUp present noLink onward =>
      obtain ⟨later, stays, noLinkLater⟩ := grown.widened.present present noLink
      exact further _ onward fun _ => .down (looks looksUp) stays noLinkLater

/-- A way leads to the same in a tree that has grown, or it ends at a new file in place of nothing. -/
theorem Grown.walk_cases (links : Nat) (location : Location) (parts : List String) :
    other.walk .target links location parts = tree.walk .target links location parts ∨
      tree.walk .target links location parts = .error .noEntry ∧
        other.walk .target links location parts = .error .notDirectory := by
  induction links generalizing location parts with
  | zero =>
    unfold Tree.walk
    rcases grown.advance_cases location parts with same | ⟨missing, stopped⟩
    · rw [same]
      exact .inl rfl
    · rw [missing, stopped]
      exact .inr ⟨rfl, rfl⟩
  | succ links inductionHypothesis =>
    unfold Tree.walk
    rcases grown.advance_cases location parts with same | ⟨missing, stopped⟩
    · rw [same]
      split
      · exact .inl rfl
      · exact .inl rfl
      · exact inductionHypothesis _ _
    · rw [missing, stopped]
      exact .inr ⟨rfl, rfl⟩

/-- A path that can be looked up can be looked up once files have come. -/
theorem Grown.probe_answers {test : Entry → Bool} {path : Path} {found : Bool}
    (told : tree.probe test path = .ok found) : ∃ again, other.probe test path = .ok again := by
  have places : other.locatePath .target path = tree.locatePath .target path ∨
      tree.locatePath .target path = .error .noEntry ∧ other.locatePath .target path = .error .notDirectory := by
    unfold Tree.locatePath locate
    split
    · exact .inl rfl
    split
    · exact .inl rfl
    split
    · exact .inl rfl
    · exact grown.walk_cases _ _ _
  unfold Tree.probe status at told ⊢
  rcases places with same | ⟨-, stopped⟩
  · rw [same]
    cases led : tree.locatePath .target path with
    | error refusal =>
      simp only [led] at told ⊢
      exact ⟨found, told⟩
    | ok location =>
      cases here : other.get? location with
      | none => exact ⟨false, by simp [here, isAbsence]⟩
      | some entry => exact ⟨test entry, by simp [here]⟩
  · rw [stopped]
    exact ⟨false, rfl⟩

end

/-! ### Writing -/

variable {tree : Tree}

/-- A location at which there are directories all the way down. -/
def Stands (tree : Tree) (location : Location) : Prop :=
  ∀ above, above <+: location → tree.get? above = some .directory

/-- What is reached lies in directories and is no link unless links are asked for, or it is a link to follow. -/
def Reached.IsApart (tree : Tree) (goal : Goal) : Reached → Prop
  | .here location =>
    tree.Reaches location ∧ (goal ≠ .entry → ∀ target, tree.get? location ≠ some (.link target))
  | .link directory _ _ => tree.Stands directory

/-- Below a directory that stands, every name is reached. -/
theorem Stands.reaches {location : Location} (stands : tree.Stands location) (part : String) :
    tree.Reaches (location ++ [part]) := by
  intro above inside other
  rcases List.prefix_concat_iff.mp inside with same | inside
  · exact absurd same other
  · exact stands above inside

/-- What a way meets on its course is apart from links that are to be followed. -/
theorem advance_isApart {goal : Goal} {location : Location} {parts : List String}
    {reached : Reached} (stands : tree.Stands location)
    (found : tree.advance goal location parts = .ok reached) : reached.IsApart tree goal := by
  induction parts generalizing location with
  | nil =>
    cases found
    refine ⟨fun above inside _ => stands above inside, fun _ target link => ?_⟩
    rw [stands location List.prefix_rfl] at link
    cases link
  | cons part rest inductionHypothesis =>
    cases advance_eq_iff.mp found with
    | still directory stays onward => exact inductionHypothesis stands onward
    | back directory back onward =>
      exact inductionHypothesis (fun above inside => stands above (inside.trans (List.dropLast_prefix _))) onward
    | free looksUp missing => exact ⟨stands.reaches part, fun _ target link => by simp [missing] at link⟩
    | kept looksUp link last entry => exact ⟨stands.reaches part, fun follows => absurd entry follows⟩
    | link => exact stands
    | @down entry _ looksUp present noLink onward =>
      cases entry with
      | link target => exact absurd rfl (noLink target)
      | directory =>
        refine inductionHypothesis (fun above inside => ?_) onward
        rcases List.prefix_concat_iff.mp inside with rfl | inside
        · exact present
        · exact stands above inside
      | file content executable =>
        cases rest with
        | nil =>
          cases onward
          exact ⟨stands.reaches part, fun _ target link => by simp [present] at link⟩
        | cons part rest =>
          rw [advance, if_pos (by simp [isDirectoryAt, present])] at onward
          cases onward

/-- A path that is followed to its end leads to something that lies in directories, and not to a link unless
links are asked for. -/
theorem walk_isApart {goal : Goal} {links : Nat} {location found : Location}
    {parts : List String} (stands : tree.Stands location)
    (led : tree.walk goal links location parts = .ok found) :
    tree.Reaches found ∧ (goal ≠ .entry → ∀ target, tree.get? found ≠ some (.link target)) := by
  have root : tree.Stands [] := fun above inside => (List.prefix_nil.mp inside) ▸ rfl
  induction links generalizing location parts with
  | zero =>
    unfold walk at led
    split at led <;> cases led
    rename_i reached
    exact advance_isApart stands reached
  | succ links inductionHypothesis =>
    unfold walk at led
    split at led
    · cases led
    · rename_i reached
      cases led
      exact advance_isApart stands reached
    · rename_i reached
      refine inductionHypothesis ?_ led
      split
      · exact root
      · exact advance_isApart stands reached

/-- What a path leads to is reached, and it is no link if links are to be followed. -/
theorem locatePath_isApart {goal : Goal} {path : Path} {location : Location}
    (led : tree.locatePath goal path = .ok location) :
    tree.Reaches location ∧ (goal ≠ .entry → ∀ target, tree.get? location ≠ some (.link target)) := by
  unfold locatePath locate at led
  split at led
  · cases led
  split at led
  · cases led
  split at led
  · cases led
  exact walk_isApart (fun above inside => (List.prefix_nil.mp inside) ▸ rfl) led

/-- What is written is put where the path leads, in the place of a file or where nothing was. -/
theorem write_put {path : Path} {content : Text.Bytes} {after : Tree}
    (written : tree.write path content = .ok after) :
    ∃ location executable, tree.locatePath .creation path = .ok location ∧ location ≠ [] ∧
      Entry.Grown (tree.get? location) (some (.file content executable)) ∧
      after = tree.put location (.file content executable) := by
  unfold write at written
  split at written
  · cases written
  · rename_i location led
    have noLink := (locatePath_isApart led).2 (by decide)
    have inside (other : tree.get? location ≠ some .directory) : location ≠ [] := by
      rintro rfl
      exact other rfl
    split at written
    · cases written
    · rename_i old executable present
      cases written
      exact ⟨location, executable, led, inside (by simp [present]), present ▸ .replaced .., rfl⟩
    · rename_i notDirectory notFile
      cases written
      refine ⟨location, false, led, inside notDirectory, ?_, rfl⟩
      cases entry : tree.get? location with
      | none => exact .made ..
      | some present =>
        cases present with
        | directory => exact absurd entry notDirectory
        | link target => exact absurd entry (noLink target)
        | file old executable => exact absurd entry (notFile old executable)

/-- What has been written is what is read from the path then, whatever links it goes through, and nothing but
this file has come. -/
theorem write_grown {path : Path} {content : Text.Bytes} {after : Tree}
    (written : tree.write path content = .ok after) : tree.Grown after ∧ after.read path = .ok content := by
  obtain ⟨location, executable, led, inside, fits, rfl⟩ := write_put written
  have grown : tree.Grown (tree.put location (.file content executable)) := by
    intro other
    by_cases same : other = location
    · subst same
      rw [get?_put_self tree inside]
      exact fits
    · rw [get?_put_of_ne tree same]
      exact .same _
  refine ⟨grown, ?_⟩
  simp only [read, status, grown.locatePath_of_creation led, get?_put_self tree inside]

/-- Where a copy of a file goes: to its target, or into the directory that is there, under its own name. -/
def landing (tree : Tree) (source target : Path) : Path :=
  if (tree.status target).toOption = some .directory then target / source.name else target

/-- From one tree to another a file has been copied. Directories were made for it where nothing was before. Then
the file that the source led to came to where the copy goes, with its content and its mode, and nothing else
has changed. -/
inductive Copies (source target : Path) (before after : Tree) : Prop where
  | copy {made : Tree} {place : Location} {content : Text.Bytes} {executable : Bool}
      (directories : ∀ location, made.get? location = before.get? location ∨
        before.get? location = none ∧ made.get? location = some .directory)
      (held : made.status source = .ok (.file content executable))
      (led : made.locatePath .creation (made.landing source target) = .ok place)
      (landed : after.status (made.landing source target) = .ok (.file content executable))
      (spared : ∀ location, location ≠ place → after.get? location = made.get? location)

/-- A file that is copied behind the making of directories. -/
theorem copies_of_copyFile {source target : Path} {made after : Tree}
    (directories : ∀ location, made.get? location = tree.get? location ∨
      tree.get? location = none ∧ made.get? location = some .directory)
    (copied : made.copyFile source target = .ok after) : Copies source target tree after := by
  obtain ⟨content, executable, held, written⟩ := copyFile_cases copied
  change made.writeCopy (made.landing source target) content executable = .ok after at written
  unfold writeCopy at written
  split at written
  · rename_i place led
    split at written
    · cases written
    · rename_i notDirectory
      cases written
      have free : made.get? place ≠ some .directory := by simpa [Tree.isDirectoryAt] using notDirectory
      have inside : place ≠ [] := by
        rintro rfl
        exact free rfl
      have noLink := (locatePath_isApart led).2 (by decide)
      have grown : made.Grown (made.put place (.file content executable)) := by
        intro other
        by_cases same : other = place
        · rw [same, get?_put_self made inside]
          cases entry : made.get? place with
          | none => exact .made ..
          | some present =>
            cases present with
            | directory => exact absurd entry free
            | link target => exact absurd entry (noLink target)
            | file old mode => exact .replaced ..
        · rw [get?_put_of_ne made same]
          exact .same _
      refine .copy directories held led ?_ fun other different => get?_put_of_ne made different _
      simp only [status, grown.locatePath_of_creation led, get?_put_self made inside]
  · cases written
  · cases written

/-- What can be read is a file where the path leads. -/
theorem get?_of_read {path : Path} {content : Text.Bytes} (held : tree.read path = .ok content) :
    ∃ location executable, tree.locatePath .target path = .ok location ∧
      tree.get? location = some (.file content executable) := by
  unfold read status at held
  cases led : tree.locatePath .target path with
  | error refusal => simp [led] at held
  | ok location =>
    cases here : tree.get? location with
    | none => simp [led, here] at held
    | some present =>
      cases present <;> simp only [led, here] at held <;> cases held
      exact ⟨location, _, rfl, here⟩

/-- Writing to a file that can be read puts its new content where the path leads. -/
theorem write_eq_put {path : Path} {old content : Text.Bytes} {after : Tree}
    (held : tree.read path = .ok old) (written : tree.write path content = .ok after) :
    ∃ location executable, tree.locatePath .target path = .ok location ∧ location ≠ [] ∧
      tree.get? location = some (.file old executable) ∧
      after = tree.put location (.file content executable) := by
  obtain ⟨location, executable, found, here⟩ := get?_of_read held
  unfold write at written
  split at written
  · cases written
  · rename_i other led
    have same := Grown.locatePath_of_creation (fun _ => .same _) led
    obtain rfl : location = other := Except.ok.inj (found.symm.trans same)
    have inside : location ≠ [] := by
      rintro rfl
      cases here
    rw [here] at written
    cases written
    exact ⟨location, executable, found, inside, here, rfl⟩

/-- A file that gets another content is still a file. -/
theorem alike_put {location : Location} {old : Text.Bytes} {executable : Bool}
    (here : tree.get? location = some (.file old executable)) (content : Text.Bytes) :
    tree.Alike (tree.put location (.file content executable)) := by
  have inside : location ≠ [] := by
    rintro rfl
    cases here
  intro other
  by_cases same : other = location
  · subst same
    rw [here, get?_put_self tree inside]
    exact .files _ _ _ _
  · rw [get?_put_of_ne tree same]
    exact .same _

/-- Writing to a file that can be read changes nothing but its content. -/
theorem write_alike {path : Path} {old content : Text.Bytes} {after : Tree}
    (held : tree.read path = .ok old) (written : tree.write path content = .ok after) :
    tree.Alike after ∧ after.read path = .ok content := by
  refine ⟨?_, (write_grown written).2⟩
  obtain ⟨location, executable, -, -, here, rfl⟩ := write_eq_put held written
  exact alike_put here content

end Tree

end TreeBuild
