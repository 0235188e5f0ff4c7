import Mathlib.Data.List.Induction
import Mathlib.Data.List.Perm.Subperm
import Mathlib.Data.List.Nodup
import TreeBuild.Proofs.Project.Discovery
import TreeBuild.Proofs.Specifier.Among
import TreeBuild.Proofs.Tree.Contents

/-!
# Descending through directories

Two stars stand for the directories below a place at any depth, as far as neither they nor what is above
them is hidden. In a regular tree the walk that lists them finds each of them by its names, since the
system looks up what the walk spells, and its fuel lasts: a directory lies no deeper than there are
entries in the tree.
-/
namespace TreeBuild

open TreeBuild.Tree

/-! ### Joined names -/

namespace Path

/-- The bodies of two rows of parts are put together with a slash. -/
theorem body_append {front back : List String} (nonempty : front ≠ []) (more : back ≠ []) :
    body (front ++ back) = body front ++ '/' :: body back := by
  induction front with
  | nil => exact absurd rfl nonempty
  | cons first rest inductionHypothesis =>
    cases rest with
    | nil =>
      have others : back.map String.toList ≠ [] := by simpa using more
      simp [body, List.intercalate_cons_of_ne_nil others]
    | cons second others =>
      have later : (second :: others ++ back).map String.toList ≠ [] := by simp
      have rest : (second :: others).map String.toList ≠ [] := by simp
      have further := inductionHypothesis (by simp)
      unfold body at further ⊢
      rw [List.cons_append, List.map_cons, List.intercalate_cons_of_ne_nil later, further,
        List.map_cons (l := second :: others), List.intercalate_cons_of_ne_nil rest]
      simp

/-- A row of proper parts has a body. -/
theorem body_ne_nil {parts : List String} (proper : ∀ part ∈ parts, IsPart part) (nonempty : parts ≠ []) :
    body parts ≠ [] := by
  obtain ⟨c, last, -⟩ := getLast?_body proper nonempty
  rintro empty
  simp [empty] at last

/-- A joined text does not begin with a slash. -/
theorem head?_body {parts : List String} (proper : ∀ part ∈ parts, IsPart part) :
    (body parts).head? ≠ some '/' := by
  have leading := takeWhile_body proper
  cases letters : body parts with
  | nil => simp
  | cons c rest =>
    rintro same
    obtain rfl : c = '/' := by simpa using same
    simp [letters] at leading

/-- The path with more parts behind. -/
def below (path : Path) (parts : List String) : Path := ⟨path.anchor, path.parts ++ parts⟩

/-- A path below another has the parts of both. -/
@[simp]
theorem below_parts (path : Path) (parts : List String) : (path.below parts).parts = path.parts ++ parts :=
  rfl

/-- Below what is below a path is below that path. -/
theorem below_below (path : Path) (front back : List String) :
    (path.below front).below back = path.below (front ++ back) := by
  simp [below]

/-- A way below a path leads through its first part. -/
theorem below_cons (path : Path) (first : String) (rest : List String) :
    path.below (first :: rest) = (path.below [first]).below rest :=
  (path.below_below [first] rest).symm

end Path

namespace Glob

open TreeBuild.Path

/-- Names with slashes between them. -/
def spelled (names : List String) : String := String.intercalate "/" names

/-- Names are spelled as the body of a path. -/
theorem toList_spelled (names : List String) : (spelled names).toList = body names :=
  toList_intercalate_slash names

/-- Joining a path and names spells the path behind these names. -/
theorem joinText_toString {path : Path} (rooted : path.anchor = .root) (plain : path.IsPlain)
    {names : List String} (proper : ∀ part ∈ names, IsPart part) (nonempty : names ≠ []) :
    joinText path.toString (spelled names) = (path.below names).toString := by
  have absolute : path.isAbsolute := by simp [isAbsolute, rooted]
  have absoluteBelow : (path.below names).isAbsolute := absolute
  have letters := toList_toString_of_isAbsolute absolute
  have head : (spelled names).toList.head? ≠ some '/' := by
    rw [toList_spelled]
    exact head?_body proper
  rw [joinText, if_neg head, ← String.toList_inj, toList_toString_of_isAbsolute absoluteBelow]
  by_cases root : path.parts = []
  · have slash : path.toString.toList = ['/'] := by
      rw [letters, rooted, root]
      rfl
    have closed : (decide (path.toString = "") || decide (path.toString.toList.getLast? = some '/')) =
        true := by simp [slash]
    rw [if_pos closed, String.toList_append, slash, toList_spelled, below, rooted]
    simp [anchorText, root]
  · obtain ⟨c, last, noSlash⟩ := getLast?_toString absolute plain.proper root
    have text : path.toString ≠ "" := by
      rw [ne_eq, ← String.toList_eq_nil_iff, letters, rooted]
      simp [anchorText]
    have unclosed : ¬ (decide (path.toString = "") ||
        decide (path.toString.toList.getLast? = some '/')) = true := by simp [text, last, noSlash]
    rw [if_neg unclosed, String.toList_append, String.toList_append, letters, toList_spelled, below,
      body_append root nonempty]
    simp

/-- Names are spelled by some text. -/
theorem spelled_ne_empty {names : List String} (proper : ∀ part ∈ names, IsPart part)
    (nonempty : names ≠ []) : spelled names ≠ "" := by
  rw [ne_eq, ← String.toList_eq_nil_iff, toList_spelled]
  exact body_ne_nil proper nonempty

/-- The text of a path from the root is not empty. -/
theorem toString_ne_empty {path : Path} (rooted : path.anchor = .root) : path.toString ≠ "" := by
  have absolute : path.isAbsolute := by simp [isAbsolute, rooted]
  rw [ne_eq, ← String.toList_eq_nil_iff, toList_toString_of_isAbsolute absolute, rooted]
  simp [anchorText]

/-- The text of a path and the spelling of names below it are put together to the text of the path below. -/
theorem joinNonempty_toString {path : Path} (rooted : path.anchor = .root) (plain : path.IsPlain)
    {names : List String} (proper : ∀ part ∈ names, IsPart part) (nonempty : names ≠ []) :
    joinNonempty path.toString (spelled names) = (path.below names).toString := by
  rw [joinNonempty, if_neg (toString_ne_empty rooted), if_neg (spelled_ne_empty proper nonempty)]
  exact joinText_toString rooted plain proper nonempty

/-- Joining names and names spells all of them. -/
theorem joinText_spelled {front back : List String} (properFront : ∀ part ∈ front, IsPart part)
    (begun : front ≠ []) (proper : ∀ part ∈ back, IsPart part) (more : back ≠ []) :
    joinText (spelled front) (spelled back) = spelled (front ++ back) := by
  have head : (spelled back).toList.head? ≠ some '/' := by
    rw [toList_spelled]
    exact head?_body proper
  obtain ⟨c, last, noSlash⟩ := getLast?_body properFront begun
  have unclosed : ¬ (decide (spelled front = "") ||
      decide ((spelled front).toList.getLast? = some '/')) = true := by
    simp [spelled_ne_empty properFront begun, toList_spelled, last, noSlash]
  rw [joinText, if_neg head, if_neg unclosed, ← String.toList_inj, String.toList_append,
    String.toList_append, toList_spelled, toList_spelled, toList_spelled, body_append begun more]
  simp

/-- A single name is spelled as it is. -/
theorem spelled_singleton (name : String) : spelled [name] = name := by
  rw [← String.toList_inj, toList_spelled]
  simp [body]

/-- Joining a path and a name spells the path behind the name. -/
theorem joinText_name {path : Path} (rooted : path.anchor = .root) (plain : path.IsPlain) {name : String}
    (isName : IsName name) : joinText path.toString name = (path.below [name]).toString := by
  have joined := joinText_toString rooted plain
    (fun part inside => List.mem_singleton.mp inside ▸ isName.toIsPart) (List.cons_ne_nil name [])
  rwa [spelled_singleton] at joined

/-- Putting the text of a path and a name together spells the path behind the name. -/
theorem joinNonempty_name {path : Path} (rooted : path.anchor = .root) (plain : path.IsPlain) {name : String}
    (isName : IsName name) : joinNonempty path.toString name = (path.below [name]).toString := by
  rw [joinNonempty, if_neg (toString_ne_empty rooted), if_neg isName.nonempty]
  exact joinText_name rooted plain isName

/-- Joining a name and names spells all of them. -/
theorem joinText_cons {name : String} (isName : IsName name) {names : List String}
    (proper : ∀ part ∈ names, IsPart part) (nonempty : names ≠ []) :
    joinText name (spelled names) = spelled (name :: names) := by
  have one : ∀ part ∈ [name], IsPart part := fun part inside =>
    List.mem_singleton.mp inside ▸ isName.toIsPart
  have joined := joinText_spelled one (List.cons_ne_nil name []) proper nonempty
  rwa [spelled_singleton] at joined

/-- Putting a name and names together spells all of them. -/
theorem joinNonempty_spelled {name : String} (isName : IsName name) {names : List String}
    (proper : ∀ part ∈ names, IsPart part) (nonempty : names ≠ []) :
    joinNonempty name (spelled names) = spelled (name :: names) := by
  rw [joinNonempty, if_neg isName.nonempty, if_neg (spelled_ne_empty proper nonempty)]
  exact joinText_cons isName proper nonempty

/-- A slash at the end of a text stays there when the text is joined to another. -/
theorem joinText_append_slash (first : String) {second : String} (nonempty : second ≠ "") :
    joinText first (second ++ "/") = joinText first second ++ "/" := by
  have head : (second ++ "/").toList.head? = second.toList.head? := by
    cases letters : second.toList with
    | nil => exact absurd (String.toList_eq_nil_iff.mp letters) nonempty
    | cons c rest => simp [letters]
  unfold joinText
  rw [head]
  split
  · rfl
  · split
    · rw [String.append_assoc]
    · simp [String.append_assoc]

/-- A name is put behind a slash. -/
theorem joinText_of_slash (text : String) {name : String} (isName : IsName name) :
    joinText (text ++ "/") name = text ++ "/" ++ name := by
  have head : name.toList.head? ≠ some '/' := fun slash =>
    isName.noSlash (List.mem_of_head? slash)
  have closed : (decide (text ++ "/" = "") || decide ((text ++ "/").toList.getLast? = some '/')) = true := by
    simp
  rw [joinText, if_neg head, if_pos closed]

/-! ### The names in a directory -/

/-- What is put among others is there then, and so are the others. -/
theorem mem_insertSorted {names : List String} {name other : String} :
    other ∈ Text.insertSorted name names ↔ other = name ∨ other ∈ names := by
  induction names with
  | nil => simp [Text.insertSorted]
  | cons first rest inductionHypothesis =>
    rw [Text.insertSorted]
    split
    · rw [List.mem_cons, inductionHypothesis, List.mem_cons, or_left_comm]
    · rw [List.mem_cons]

/-- Names are the same ones when they are sorted. -/
theorem mem_sorted {names : List String} {name : String} : name ∈ Text.sorted names ↔ name ∈ names := by
  unfold Text.sorted
  induction names with
  | nil => rfl
  | cons first rest inductionHypothesis =>
    rw [List.foldr_cons, mem_insertSorted, inductionHypothesis, List.mem_cons]

/-- The children of a location are the names of what is present directly below it. -/
theorem mem_children {tree : Tree} {top : Location} {name : String} :
    name ∈ tree.children top ↔ (tree.get? (top ++ [name])).isSome := by
  have inside : top ++ [name] ≠ [] := by simp
  rw [Tree.children, Tree.get?, if_neg inside, lookup_isSome, List.mem_filterMap]
  constructor
  · rintro ⟨⟨location, entry⟩, member, found⟩
    split at found
    · rename_i below
      obtain ⟨nonempty, rfl⟩ := below
      refine ⟨entry, ?_⟩
      have split := List.dropLast_append_getLast? name found
      rwa [split]
    · cases found
  · rintro ⟨entry, member⟩
    exact ⟨_, member, by simp⟩

section

variable {tree : Tree} {text name : String} {onlyDirectories : Bool} {names : List String}
  {location : Location}

/-- What is listed is present where the text leads. -/
theorem located_of_mem_namesIn (told : namesIn tree text onlyDirectories = .ok names)
    (member : name ∈ names) : ∃ location,
      tree.locate .target text (systemParts text) = .ok location ∧
        (tree.get? (location ++ [name])).isSome := by
  unfold namesIn at told
  split at told
  · cases told
  · cases told
    cases member
  · rename_i found led
    refine ⟨found, led, ?_⟩
    split at told
    · cases told
      exact mem_children.mp (List.mem_filter.mp member).1
    · cases told
      cases member

/-- What is listed in a regular tree are names. -/
theorem isName_of_mem_namesIn (regular : tree.IsRegular)
    (told : namesIn tree text onlyDirectories = .ok names) (member : name ∈ names) : IsName name := by
  obtain ⟨location, -, present⟩ := located_of_mem_namesIn told member
  obtain ⟨entry, present⟩ := Option.isSome_iff_exists.mp present
  exact regular.named _ _ present name (by simp)

/-- What is present in a directory that can be looked up is listed. -/
theorem mem_namesIn (told : namesIn tree text onlyDirectories = .ok names)
    (led : tree.locate .target text (systemParts text) = .ok location)
    (directory : tree.get? location = some .directory)
    (present : (tree.get? (location ++ [name])).isSome)
    (accepted : onlyDirectories → tree.statusOfText? (joinText text name) = some .directory) :
    name ∈ names := by
  unfold namesIn at told
  rw [led] at told
  dsimp only at told
  rw [if_pos (by simpa [Tree.isDirectoryAt] using directory)] at told
  cases told
  refine List.mem_filter.mpr ⟨mem_children.mpr present, ?_⟩
  cases onlyDirectories with
  | false => rfl
  | true => simpa using accepted rfl

end

/-! ### All directories below a place -/

/-- The answer of a walk: what is listed at one place, and what the walks below it answer. -/
theorem namesBelow_cases {tree : Tree} {onlyDirectories : Bool} {fuel : Nat} {text : String}
    {names : List String} (told : namesBelow tree onlyDirectories (fuel + 1) text = .ok names) :
    ∃ listed, namesIn tree text onlyDirectories = .ok listed ∧
      (∀ other ∈ names, ∃ name ∈ listed, isHidden name = false ∧ ∃ deeper,
        namesBelow tree onlyDirectories fuel (joinNonempty text name) = .ok deeper ∧
          (other = name ∨ ∃ rest ∈ deeper, other = joinNonempty name rest)) ∧
      ∀ name ∈ listed, isHidden name = false → ∃ deeper,
        namesBelow tree onlyDirectories fuel (joinNonempty text name) = .ok deeper ∧
          name ∈ names ∧ ∀ rest ∈ deeper, joinNonempty name rest ∈ names := by
  rw [namesBelow] at told
  obtain ⟨listed, first, told⟩ := exists_of_bind_eq_ok told
  obtain ⟨groups, all, told⟩ := exists_of_bind_eq_ok told
  cases told
  have each := forall₂_of_mapM all
  have group {name : String} {answer : List String}
      (given : (do
        let below ← namesBelow tree onlyDirectories fuel (joinNonempty text name)
        return name :: below.map (joinNonempty name) : Except FileFault (List String)) = .ok answer) :
      ∃ deeper, namesBelow tree onlyDirectories fuel (joinNonempty text name) = .ok deeper ∧
        answer = name :: deeper.map (joinNonempty name) := by
    obtain ⟨deeper, below, given⟩ := exists_of_bind_eq_ok given
    exact ⟨deeper, below, (Except.ok.inj given).symm⟩
  refine ⟨listed, first, fun other member => ?_, fun name member shown => ?_⟩
  · obtain ⟨answer, within, member⟩ := List.mem_flatten.mp member
    obtain ⟨name, found, given⟩ := exists_of_forall₂ each.flip within
    obtain ⟨inside, shown⟩ := List.mem_filter.mp found
    obtain ⟨deeper, below, rfl⟩ := group given
    refine ⟨name, inside, by simpa using shown, deeper, below, ?_⟩
    rcases List.mem_cons.mp member with same | later
    · exact .inl same
    · obtain ⟨rest, inDeeper, rfl⟩ := List.mem_map.mp later
      exact .inr ⟨rest, inDeeper, rfl⟩
  · obtain ⟨answer, within, given⟩ := exists_of_forall₂ each
      (List.mem_filter.mpr ⟨member, by simpa using shown⟩)
    obtain ⟨deeper, below, rfl⟩ := group given
    refine ⟨deeper, below, List.mem_flatten.mpr ⟨_, within, List.mem_cons_self⟩, fun rest inDeeper => ?_⟩
    exact List.mem_flatten.mpr ⟨_, within, List.mem_cons_of_mem _ (List.mem_map.mpr ⟨rest, inDeeper, rfl⟩)⟩

section

variable {tree : Tree} {path : Path} {onlyDirectories : Bool} {names : List String}

/-- The text of a path leads to the location of its parts. -/
theorem locate_toString (regular : tree.IsRegular) (rooted : path.anchor = .root) (plain : path.IsPlain)
    (nonempty : path.parts ≠ []) {goal : Goal} {found : Location} :
    tree.locate goal path.toString (systemParts path.toString) = .ok found ↔
      found = path.parts ∧ path.Fits ∧ tree.Reaches path.parts := by
  have absolute : path.isAbsolute := by simp [isAbsolute, rooted]
  rw [Tree.systemParts_toString absolute plain.proper nonempty]
  exact regular.locatePath_iff plain

/-- Names that are not hidden. -/
def AreShown (names : List String) : Prop := ∀ name ∈ names, IsName name ∧ isHidden name = false

/-- Names behind a path by names make up another one. -/
theorem isPlain_below (plain : path.IsPlain) {parts : List String} (names : ∀ part ∈ parts, IsName part) :
    (path.below parts).IsPlain := by
  intro part inside
  rcases List.mem_append.mp inside with above | last
  · exact plain part above
  · exact names part last

/-- A name behind a path by names makes up another one. -/
theorem isPlain_below_name (plain : path.IsPlain) {name : String} (isName : IsName name) :
    (path.below [name]).IsPlain :=
  isPlain_below plain fun _ inside => List.mem_singleton.mp inside ▸ isName

/-- So do a name and more names behind it. -/
theorem isPlain_below_cons (plain : path.IsPlain) {name : String} (isName : IsName name) {rest : List String}
    (names : ∀ part ∈ rest, IsName part) : (path.below (name :: rest)).IsPlain := by
  rw [below_cons]
  exact isPlain_below (isPlain_below_name plain isName) names

/-- What is listed at a path is present behind it. -/
theorem present_of_mem_namesIn (regular : tree.IsRegular) (rooted : path.anchor = .root)
    (plain : path.IsPlain) (nonempty : path.parts ≠ [])
    (told : namesIn tree path.toString onlyDirectories = .ok names) {name : String} (member : name ∈ names) :
    IsName name ∧ (tree.get? (path.parts ++ [name])).isSome ∧
      joinNonempty path.toString name = (path.below [name]).toString := by
  obtain ⟨location, led, present⟩ := located_of_mem_namesIn told member
  obtain ⟨rfl, -, -⟩ := (locate_toString regular rooted plain nonempty).mp led
  have isName := isName_of_mem_namesIn regular told member
  exact ⟨isName, present, joinNonempty_name rooted plain isName⟩

/-- What a walk answers are the spellings of names that are not hidden, of something that is there. -/
theorem present_of_mem_namesBelow (regular : tree.IsRegular) {fuel : Nat} (rooted : path.anchor = .root)
    (plain : path.IsPlain) (nonempty : path.parts ≠ [])
    (told : namesBelow tree onlyDirectories fuel path.toString = .ok names) :
    ∀ text ∈ names, ∃ dirs, dirs ≠ [] ∧ text = spelled dirs ∧ AreShown dirs ∧
      (tree.get? (path.parts ++ dirs)).isSome := by
  induction fuel generalizing path names with
  | zero =>
    cases told
    simp
  | succ fuel inductionHypothesis =>
    obtain ⟨listed, first, parts, -⟩ := namesBelow_cases told
    intro text member
    obtain ⟨name, inside, shown, deeper, below, which⟩ := parts text member
    obtain ⟨isName, present, joined⟩ := present_of_mem_namesIn regular rooted plain nonempty first inside
    rcases which with rfl | ⟨rest, found, rfl⟩
    · refine ⟨[text], by simp, (spelled_singleton text).symm, fun other found => ?_, present⟩
      rw [List.mem_singleton.mp found]
      exact ⟨isName, shown⟩
    · rw [joined] at below
      obtain ⟨dirs, some, rfl, others, there⟩ :=
        @inductionHypothesis (path.below [name]) deeper rooted (isPlain_below_name plain isName) (by simp) below
          rest found
      refine ⟨name :: dirs, by simp, joinNonempty_spelled isName
        (fun part inside => (others part inside).1.toIsPart) some, fun other inside => ?_, by simpa using there⟩
      rcases List.mem_cons.mp inside with rfl | later
      · exact ⟨isName, shown⟩
      · exact others other later

/-- A path that can be looked up leads through paths that can be looked up. -/
theorem fits_of_below (absolute : path.isAbsolute) {parts : List String}
    (fits : (path.below parts).Fits) : path.Fits := by
  induction parts using List.reverseRecOn with
  | nil => simpa [Path.below] using fits
  | append_singleton front last inductionHypothesis =>
    refine inductionHypothesis (@Path.Fits.front (path.below front) absolute last ?_)
    simpa [Path.below] using fits

/-- A directory that can be looked up is found in the one above it. -/
theorem mem_namesIn_of_below (regular : tree.IsRegular) (rooted : path.anchor = .root)
    (plain : path.IsPlain) (nonempty : path.parts ≠ []) {listed : List String}
    (told : namesIn tree path.toString onlyDirectories = .ok listed) {name : String}
    (isName : IsName name) (fits : (path.below [name]).Fits)
    (directory : tree.get? (path.parts ++ [name]) = some .directory) : name ∈ listed := by
  have present : (tree.get? (path.parts ++ [name])).isSome := by
    rw [directory]
    rfl
  have above : tree.get? path.parts = some .directory :=
    regular.directory_above directory ⟨[name], rfl⟩ (by simp)
  have led := (@locate_toString tree path regular rooted plain nonempty .target path.parts).mpr
    ⟨rfl, fits_of_below (by simp [isAbsolute, rooted]) fits, regular.reached _ _ above⟩
  refine mem_namesIn told led above present fun _ => ?_
  have ledBelow := (@locate_toString tree (path.below [name]) regular rooted (isPlain_below_name plain isName)
    (by simp) .target (path.parts ++ [name])).mpr ⟨rfl, fits, regular.reached _ _ directory⟩
  rw [joinText_name rooted plain isName, statusOfText?, ledBelow]
  exact directory

/-- Every directory below a place that can be looked up is found, unless a name on the way is hidden. -/
theorem mem_namesBelow (regular : tree.IsRegular) {fuel : Nat} (rooted : path.anchor = .root)
    (plain : path.IsPlain) (nonempty : path.parts ≠ [])
    (told : namesBelow tree onlyDirectories fuel path.toString = .ok names) {dirs : List String}
    (more : dirs ≠ []) (shown : AreShown dirs) (deep : dirs.length ≤ fuel)
    (fits : (path.below dirs).Fits) (directory : tree.get? (path.parts ++ dirs) = some .directory) :
    spelled dirs ∈ names := by
  induction fuel generalizing path names dirs with
  | zero => exact absurd (List.length_eq_zero_iff.mp (Nat.le_zero.mp deep)) more
  | succ fuel inductionHypothesis =>
    obtain ⟨listed, first, -, parts⟩ := namesBelow_cases told
    cases dirs with
    | nil => exact absurd rfl more
    | cons name rest =>
      obtain ⟨isName, notHidden⟩ := shown name List.mem_cons_self
      have split := path.below_cons name rest
      have fitsFirst : (path.below [name]).Fits := fits_of_below (by simp [isAbsolute, below, rooted]) (split ▸ fits)
      have firstDirectory : tree.get? (path.parts ++ [name]) = some .directory := by
        by_cases last : rest = []
        · simpa [last] using directory
        · refine regular.directory_above directory ⟨rest, by simp⟩ ?_
          simpa using Ne.symm last
      have member := mem_namesIn_of_below regular rooted plain nonempty first isName fitsFirst
        firstDirectory
      obtain ⟨deeper, below, alone, further⟩ := parts name member notHidden
      by_cases last : rest = []
      · rw [last, spelled_singleton]
        exact alone
      · rw [joinNonempty_name rooted plain isName] at below
        have others : AreShown rest := fun other inside => shown other (List.mem_cons_of_mem _ inside)
        have inside := @inductionHypothesis (path.below [name]) deeper rooted (isPlain_below_name plain isName)
          (by simp) below rest last others (by simpa using deep) (split ▸ fits)
          (by simpa using directory)
        rw [← joinNonempty_spelled isName (fun part inside => (others part inside).1.toIsPart) last]
        exact further _ inside

end

/-- What is present lies no deeper than there are entries. -/
theorem length_le_entries {tree : Tree} (regular : tree.IsRegular) {location : Location} {entry : Entry}
    (present : tree.get? location = some entry) : location.length ≤ tree.entries.length := by
  -- every front of the location but the first is present, and no two of them are the same
  let fronts := (List.range location.length).map fun count => location.take (count + 1)
  have distinct : fronts.Nodup := by
    refine List.Nodup.map_on (fun count inside other within same => ?_) List.nodup_range
    have lengths := congrArg List.length same
    rw [List.length_take, List.length_take] at lengths
    have := List.mem_range.mp inside
    have := List.mem_range.mp within
    omega
  have found : fronts ⊆ tree.entries.map Prod.fst := by
    intro front member
    obtain ⟨count, inside, rfl⟩ := List.mem_map.mp member
    have nonempty : location.take (count + 1) ≠ [] := by
      have some := List.mem_range.mp inside
      intro empty
      have none := congrArg List.length empty
      rw [List.length_take, List.length_nil] at none
      omega
    obtain ⟨other, held⟩ : ∃ other, tree.get? (location.take (count + 1)) = some other := by
      by_cases same : location.take (count + 1) = location
      · exact ⟨entry, same.symm ▸ present⟩
      · exact ⟨_, regular.directory_above present (List.take_prefix _ _) same⟩
    rw [Tree.get?, if_neg nonempty] at held
    obtain ⟨_, member⟩ := lookup_isSome.mp (Option.isSome_iff_exists.mpr ⟨other, held⟩)
    exact List.mem_map.mpr ⟨_, member, rfl⟩
  simpa [fronts] using (List.subperm_of_subset distinct found).length_le

/-! ### Everything below the sources -/

/-- A single star matches every name. -/
theorem matchName_star (name : String) : matchName "*" name = true := by
  have one : atoms "*".toList = [.star] := by decide
  rw [matchName, one]
  generalize name.toList = letters
  induction letters with
  | nil => rfl
  | cons c rest inductionHypothesis =>
    rw [matchAtoms, someEnd]
    rw [matchAtoms] at inductionHypothesis
    rw [inductionHypothesis, Bool.or_true]

/-- The search below the sources asks for the names in them, and in the directories below them. -/
theorem expand_eq (tree : Tree) (text : String) : expand tree text "src/**/*" = (do
    let dirs ← namesBelow tree true (depthBound tree) (joinNonempty text "src")
    let groups ← ("" :: dirs).mapM fun place => do
      let names ← namesIn tree (joinNonempty text (joinText "src" place)) false
      return (names.filter (!isHidden ·)).map (joinText (joinText "src" place))
    return groups.flatten) := by
  have first : splitLast "src/**/*" = ("src/**", "*") := by decide
  have second : splitLast "src/**" = ("src", "**") := by decide
  have magic : hasMagic "src/**/*" = true ∧ hasMagic "src/**" = true ∧ hasMagic "src" = false ∧
      hasMagic "*" = true ∧ hasMagic "**" = true ∧ isHidden "*" = false := by decide
  obtain ⟨magicAll, magicFront, literal, magicStar, magicDeep, shownStar⟩ := magic
  have files (place : String) : matchesIn tree place "*" false = (do
      let names ← namesIn tree place false
      return names.filter (!isHidden ·)) := by
    rw [matchesIn, magicStar, if_neg (by decide), if_neg (by decide)]
    simp only [shownStar, matchName_star, Bool.false_or, Bool.and_true]
  have below (place : String) : matchesIn tree place "**" true = (do
      return "" :: (← namesBelow tree true (depthBound tree) place)) := by
    rw [matchesIn, magicDeep, if_neg (by decide), if_pos (show "**" = anyDepth from rfl)]
  have directories (fuel : Nat) : expandFrom tree text (fuel + 1) true "src/**" = (do
      let dirs ← namesBelow tree true (depthBound tree) (joinNonempty text "src")
      return ("" :: dirs).map (joinText "src")) := by
    rw [expandFrom, second]
    simp only [magicFront, literal, Bool.not_true, Bool.and_false, Bool.false_eq_true, if_false]
    rw [if_neg (by decide)]
    simp [below, Except.pure, pure, bind, Except.bind]
    cases namesBelow tree true (depthBound tree) (joinNonempty text "src") <;> simp
  have whole : ¬ ("src/**/*" = "" || anyDepth.toList.isPrefixOf "src/**/*".toList) := by decide
  have found : expand tree text "src/**/*" = expandFrom tree text 9 false "src/**/*" := by
    rw [expand]
    simp only [if_neg whole]
    exact bind_pure _
  rw [found, expandFrom, first]
  simp only [magicAll, magicFront, Bool.not_true, Bool.false_eq_true, if_false, Bool.and_true]
  rw [if_neg (by decide), if_pos (by decide), directories]
  simp only [files, bind_assoc, pure_bind, List.mapM_map, Function.comp_def]

/-- What it finds is what is in them. -/
theorem expand_everything {tree : Tree} {text : String} {found : List String}
    (told : expand tree text "src/**/*" = .ok found) :
    ∃ dirs, namesBelow tree true (depthBound tree) (joinNonempty text "src") = .ok dirs ∧
      ∃ groups, found = groups.flatten ∧
        List.Forall₂ (fun place group => ∃ names,
            namesIn tree (joinNonempty text (joinText "src" place)) false = .ok names ∧
              group = (names.filter (!isHidden ·)).map (joinText (joinText "src" place)))
          ("" :: dirs) groups := by
  rw [expand_eq] at told
  obtain ⟨dirs, below, told⟩ := exists_of_bind_eq_ok told
  obtain ⟨groups, each, same⟩ := exists_of_bind_eq_ok told
  cases same
  refine ⟨dirs, below, groups, rfl, (forall₂_of_mapM each).imp fun place group given => ?_⟩
  obtain ⟨names, listed, same⟩ := exists_of_bind_eq_ok given
  exact ⟨names, listed, (Except.ok.inj same).symm⟩

section

variable {tree : Tree} {root path : Path} {found : List String}

/-- Directories lead down to the last of them, also if a slash behind it asks for a directory. -/
theorem advance_append_closingSlash {location : Location} {parts : List String}
    (names : ∀ part ∈ parts, IsName part) (short : ∀ part ∈ parts, part.utf8ByteSize ≤ maxNameBytes)
    (directories : ∀ front, front <+: parts → tree.get? (location ++ front) = some .directory) :
    tree.advance .target location (parts ++ [closingSlash]) = .ok (.here (location ++ parts)) := by
  induction parts generalizing location with
  | nil =>
    have here := directories [] (List.prefix_refl [])
    rw [List.append_nil] at here
    simp [advance, isDirectoryAt, here]
  | cons part rest inductionHypothesis =>
    have name := names part List.mem_cons_self
    have here := directories [] (List.nil_prefix)
    rw [List.append_nil] at here
    have next := directories [part] (by simp)
    have further := @inductionHypothesis (location ++ [part])
      (fun other member => names other (List.mem_cons_of_mem _ member))
      (fun other member => short other (List.mem_cons_of_mem _ member))
      (fun front before => by
        simpa using directories (part :: front) (List.cons_prefix_cons.mpr ⟨rfl, before⟩))
    have looksUp : LooksUp tree .target location part (rest ++ [closingSlash]) := {
      directory := by simp [isDirectoryAt, here]
      moves := not_or.mpr ⟨name.notDot, name.nonempty⟩
      notBack := name.notBack
      possible := by simp
      short := short part List.mem_cons_self }
    refine advance_eq_iff.mpr (.down looksUp next (fun _ => by simp) ?_)
    simpa using further

/-- A slash behind the text of a path is the last of its parts. -/
theorem systemParts_append_slash (rooted : path.anchor = .root) (plain : path.IsPlain)
    (nonempty : path.parts ≠ []) :
    systemParts (path.toString ++ "/") = path.parts ++ [closingSlash] := by
  have absolute : path.isAbsolute := by simp [isAbsolute, rooted]
  have letters : (path.toString ++ "/").toList = '/' :: body (path.parts ++ [""]) := by
    rw [body_append nonempty (List.cons_ne_nil "" []), String.toList_append,
      toList_toString_of_isAbsolute absolute, rooted]
    simp [anchorText, body]
  have pieces : ∀ piece ∈ (path.parts ++ [""]).map String.toList, '/' ∉ piece := by
    intro piece member
    obtain ⟨part, inside, rfl⟩ := List.mem_map.mp member
    rcases List.mem_append.mp inside with front | last
    · exact (plain part front).noSlash
    · rw [List.mem_singleton.mp last]
      decide
  have names : ∀ part ∈ path.parts, ¬ part = "" := fun part member => (plain part member).nonempty
  have ends : (path.toString ++ "/").toList.getLast? = some '/' := by simp
  rw [systemParts, if_pos ends, Text.split, Text.splitAt_eq_splitOn, letters,
    List.splitOn_cons_eq_if_modifyHead, body, List.splitOn_intercalate '/' pieces (by simp)]
  simpa using names

/-- The text of a path with more parts behind it. -/
theorem toString_below (rooted : path.anchor = .root) (plain : path.IsPlain) (nonempty : path.parts ≠ [])
    {names : List String} (proper : ∀ part ∈ names, IsPart part) (more : names ≠ []) :
    (path.below names).toString = path.toString ++ "/" ++ spelled names := by
  have absolute : path.isAbsolute := by simp [isAbsolute, rooted]
  obtain ⟨c, last, noSlash⟩ := getLast?_toString absolute plain.proper nonempty
  have head : (spelled names).toList.head? ≠ some '/' := by
    rw [toList_spelled]
    exact head?_body proper
  have unclosed : ¬ (decide (path.toString = "") ||
      decide (path.toString.toList.getLast? = some '/')) = true := by
    simp [toString_ne_empty rooted, last, noSlash]
  rw [← joinText_toString rooted plain proper more, joinText, if_neg head, if_neg unclosed]

/-- A path that can be looked up leaves room for a slash behind what is above it. -/
theorem room_of_below (rooted : path.anchor = .root) (plain : path.IsPlain) (nonempty : path.parts ≠ [])
    {names : List String} (proper : ∀ part ∈ names, IsPart part) (more : names ≠ [])
    (fits : (path.below names).Fits) : path.toString.utf8ByteSize < maxPathBytes := by
  have short := fits.short
  have slash : "/".utf8ByteSize = 1 := rfl
  rw [toString_below rooted plain nonempty proper more, String.utf8ByteSize_append,
    String.utf8ByteSize_append, slash] at short
  omega

/-- The text of a path with a slash behind it leads to the directory at the path. -/
theorem locate_append_slash (regular : tree.IsRegular) (rooted : path.anchor = .root)
    (plain : path.IsPlain) (nonempty : path.parts ≠ []) (fits : path.Fits)
    (room : path.toString.utf8ByteSize < maxPathBytes) (directory : tree.get? path.parts = some .directory) :
    tree.locate .target (path.toString ++ "/") (systemParts (path.toString ++ "/")) = .ok path.parts := by
  have leads : tree.advance .target [] (path.parts ++ [closingSlash]) = .ok (.here path.parts) := by
    refine advance_append_closingSlash plain fits.shortParts fun front before => ?_
    by_cases same : front = path.parts
    · simpa [same] using directory
    · simpa using regular.directory_above directory before same
  have nameable : (path.toString ++ "/").toList.any Text.isUnnameable = false := by
    rw [String.toList_append, List.any_append, fits.nameable]
    decide
  have noNull : (path.toString ++ "/").toList.contains '\x00' = false := by
    rw [String.toList_append, List.contains_append, fits.noNull]
    decide
  have short : (path.toString ++ "/").utf8ByteSize ≤ maxPathBytes := by
    have slash : "/".utf8ByteSize = 1 := rfl
    rw [String.utf8ByteSize_append, slash]
    omega
  unfold locate walk
  rw [systemParts_append_slash rooted plain nonempty, leads, nameable, noNull]
  rw [if_neg (by simp), if_neg (by simp), if_neg (by omega)]

/-- Without a name below the sources, a slash is put behind their path. -/
theorem joinNonempty_top (rooted : root.anchor = .root) (plain : root.IsPlain) :
    joinNonempty root.toString (joinText "src" (spelled [])) = (root.below ["src"]).toString ++ "/" := by
  have top : joinText "src" (spelled []) = "src" ++ "/" := by decide
  rw [top, joinNonempty, if_neg (toString_ne_empty rooted), if_neg (by decide),
    joinText_append_slash _ (by decide), joinText_name rooted plain (by decide)]

/-- Names below the sources are put behind the path of the sources. -/
theorem joinNonempty_deep (rooted : root.anchor = .root) (plain : root.IsPlain) {parts : List String}
    (names : ∀ part ∈ parts, IsName part) (nonempty : parts ≠ []) :
    joinNonempty root.toString (joinText "src" (spelled parts)) = (root.below ("src" :: parts)).toString := by
  have source : IsName "src" := by decide
  have proper : ∀ part ∈ parts, IsPart part := fun part member => (names part member).toIsPart
  rw [joinText_cons source proper nonempty]
  exact joinNonempty_toString rooted plain (List.forall_mem_cons.mpr ⟨source.toIsPart, proper⟩) (by simp)

/-- A name in a directory below the sources, or in the sources themselves, is put behind those that lead there. -/
theorem joinText_below {parts : List String} (names : ∀ part ∈ parts, IsName part) {name : String}
    (isName : IsName name) :
    joinText (joinText "src" (spelled parts)) name = spelled ("src" :: (parts ++ [name])) := by
  by_cases top : parts = []
  · subst top
    have place : joinText "src" (spelled []) = "src" ++ "/" := by decide
    rw [place, joinText_of_slash "src" isName, ← String.toList_inj, toList_spelled]
    simp [body]
  · have source : IsName "src" := by decide
    have proper : ∀ part ∈ parts, IsPart part := fun part member => (names part member).toIsPart
    rw [joinText_cons source proper top]
    nth_rewrite 1 [← spelled_singleton name]
    exact joinText_spelled (List.forall_mem_cons.mpr ⟨source.toIsPart, proper⟩) (by simp)
      (List.forall_mem_singleton.mpr isName.toIsPart) (by simp)

/-- What is asked of the sources, or of a directory below them, leads there. -/
theorem location_of_locate (regular : tree.IsRegular) (rooted : root.anchor = .root) (plain : root.IsPlain)
    {parts : List String} (names : ∀ part ∈ parts, IsName part) {text : String} {location : Location}
    (asked : text = joinNonempty root.toString (joinText "src" (spelled parts)))
    (led : tree.locate .target text (systemParts text) = .ok location) :
    location = root.parts ++ "src" :: parts := by
  have source : IsName "src" := by decide
  by_cases top : parts = []
  · subst top
    have plainSource := isPlain_below_name plain source
    rw [asked, joinNonempty_top rooted plain,
      @systemParts_append_slash (root.below ["src"]) rooted plainSource (by simp)] at led
    rw [regular.linkless.locate_eq_follow led, Location.follow_append, Location.follow_of_isName plainSource]
    simp [Location.follow, Location.next, closingSlash]
  · rw [asked, joinNonempty_deep rooted plain names top] at led
    exact ((@locate_toString tree (root.below ("src" :: parts)) regular rooted
      (isPlain_below_cons plain source names) (by simp) .target _).mp led).1

/-- A directory below the sources that can be looked up is led to, and so are the sources themselves if there is
room for a slash behind their path. -/
theorem locate_below (regular : tree.IsRegular) (rooted : root.anchor = .root) (plain : root.IsPlain)
    (room : (root.below ["src"]).toString.utf8ByteSize < maxPathBytes) {parts : List String}
    (names : ∀ part ∈ parts, IsName part) (fits : (root.below ("src" :: parts)).Fits)
    (directory : tree.get? (root.parts ++ "src" :: parts) = some .directory) {text : String}
    (asked : text = joinNonempty root.toString (joinText "src" (spelled parts))) :
    tree.locate .target text (systemParts text) = .ok (root.parts ++ "src" :: parts) := by
  have source : IsName "src" := by decide
  by_cases top : parts = []
  · subst top
    rw [asked, joinNonempty_top rooted plain]
    exact @locate_append_slash tree (root.below ["src"]) regular rooted (isPlain_below_name plain source) (by simp)
      fits room directory
  · rw [asked, joinNonempty_deep rooted plain names top]
    exact (@locate_toString tree (root.below ("src" :: parts)) regular rooted
      (isPlain_below_cons plain source names) (by simp) .target _).mpr ⟨rfl, fits, regular.reached _ _ directory⟩

/-- What is found below the sources are the spellings of names that are not hidden, of something that is
there. -/
theorem present_of_mem_expand (regular : tree.IsRegular) (rooted : root.anchor = .root)
    (plain : root.IsPlain) (told : expand tree root.toString "src/**/*" = .ok found) {spelling : String}
    (member : spelling ∈ found) : ∃ parts, parts ≠ [] ∧ spelling = spelled ("src" :: parts) ∧
      AreShown parts ∧ (tree.get? (root.parts ++ "src" :: parts)).isSome := by
  obtain ⟨dirs, below, groups, rfl, each⟩ := expand_everything told
  obtain ⟨group, within, member⟩ := List.mem_flatten.mp member
  obtain ⟨place, known, names, listed, rfl⟩ := exists_of_forall₂ each.flip within
  obtain ⟨name, inside, rfl⟩ := List.mem_map.mp member
  obtain ⟨inside, shown⟩ := List.mem_filter.mp inside
  have isName := isName_of_mem_namesIn regular listed inside
  have isShown : isHidden name = false := by simpa using shown
  have source : IsName "src" := by decide
  -- the sources themselves are spelled by no name
  obtain ⟨parts, rfl, others⟩ : ∃ parts, place = spelled parts ∧ AreShown parts := by
    rcases List.mem_cons.mp known with rfl | deeper
    · exact ⟨[], by decide, by simp [AreShown]⟩
    · rw [joinNonempty_name rooted plain source] at below
      obtain ⟨parts, -, same, others, -⟩ := @present_of_mem_namesBelow tree (root.below ["src"]) true dirs regular
        _ rooted (isPlain_below_name plain source) (by simp) below place deeper
      exact ⟨parts, same, others⟩
  have plainParts : ∀ part ∈ parts, IsName part := fun part member => (others part member).1
  obtain ⟨location, led, present⟩ := located_of_mem_namesIn listed inside
  rw [location_of_locate regular rooted plain plainParts rfl led] at present
  refine ⟨parts ++ [name], by simp, joinText_below plainParts isName, ?_, by simpa using present⟩
  exact List.forall_mem_append.mpr ⟨others, List.forall_mem_singleton.mpr ⟨isName, isShown⟩⟩

/-- Everything below the sources is found where the directory above it can be looked up, unless a name on the
way is hidden. -/
theorem mem_expand (regular : tree.IsRegular) (rooted : root.anchor = .root) (plain : root.IsPlain)
    (told : expand tree root.toString "src/**/*" = .ok found)
    (room : (root.below ["src"]).toString.utf8ByteSize < maxPathBytes) {front : List String} {name : String}
    (shown : AreShown (front ++ [name])) (fits : (root.below ("src" :: front)).Fits) {entry : Entry}
    (present : tree.get? (root.parts ++ "src" :: (front ++ [name])) = some entry) :
    spelled ("src" :: (front ++ [name])) ∈ found := by
  obtain ⟨dirs, below, groups, rfl, each⟩ := expand_everything told
  have source : IsName "src" := by decide
  obtain ⟨shownFront, last⟩ := List.forall_mem_append.mp shown
  obtain ⟨isName, isShown⟩ := last name (List.mem_singleton_self name)
  have plainFront : ∀ part ∈ front, IsName part := fun part member => (shownFront part member).1
  have directory : tree.get? (root.parts ++ "src" :: front) = some .directory :=
    regular.directory_above present ⟨[name], by simp⟩ (by simp)
  have known : spelled front ∈ "" :: dirs := by
    by_cases top : front = []
    · exact top ▸ List.mem_cons_self
    have deep : front.length ≤ depthBound tree := by
      have bound := length_le_entries regular directory
      rw [List.length_append, List.length_cons] at bound
      have more : tree.entries.length ≤ depthBound tree :=
        Nat.le_trans (Nat.le_succ _) (Nat.le_mul_of_pos_right _ (Nat.succ_pos maxLinks))
      omega
    rw [joinNonempty_name rooted plain source] at below
    exact List.mem_cons_of_mem _ (@mem_namesBelow tree (root.below ["src"]) true dirs regular (depthBound tree)
      rooted (isPlain_below_name plain source) (by simp) below front top shownFront deep
      (root.below_cons "src" front ▸ fits) (by simpa using directory))
  obtain ⟨group, within, names, listed, rfl⟩ := exists_of_forall₂ each known
  have here : (tree.get? (root.parts ++ "src" :: front ++ [name])).isSome := by
    rw [List.append_assoc, List.cons_append, present]
    rfl
  have led := locate_below regular rooted plain room plainFront fits directory rfl
  have inside := mem_namesIn listed led directory here (by simp)
  refine List.mem_flatten.mpr ⟨_, within, List.mem_map.mpr ⟨name, List.mem_filter.mpr
    ⟨inside, by simp [isShown]⟩, joinText_below plainFront isName⟩⟩

end

end Glob

end TreeBuild
