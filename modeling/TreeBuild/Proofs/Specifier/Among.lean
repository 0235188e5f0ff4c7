import TreeBuild.Proofs.Specifier.Targets
import TreeBuild.Proofs.Tree.Contents
import TreeBuild.Proofs.Tree.Resolution

/-!
# Specifiers among files

In a regular tree a specifier is resolved by the mere presence of files, and only three paths count: its
target, the module beside the target, and the index of the target. So what is written for a text can be
told from the files that are there, without the directories around them, and it stays the same as long as
no file appears or vanishes at one of these paths.
-/
namespace TreeBuild

/-! ### Paths that can be looked up -/

namespace Path

/-- The body of a path begins with the body of the path above. -/
theorem body_append_singleton (parts : List String) (last : String) : body parts <+: body (parts ++ [last]) := by
  unfold body
  rw [List.map_append, List.map_singleton]
  by_cases empty : parts.map String.toList = []
  · rw [empty]
    exact List.nil_prefix
  · rw [intercalate_concat empty]
    exact List.prefix_append _ _

/-- A path that is written in full can be looked up if one below it can. -/
theorem Fits.front {path : Path} (absolute : path.isAbsolute) {last : String}
    (fits : (Path.mk path.anchor (path.parts ++ [last])).Fits) : path.Fits := by
  have above : path.toString.toList <+: (Path.mk path.anchor (path.parts ++ [last])).toString.toList := by
    have absoluteBelow : (Path.mk path.anchor (path.parts ++ [last])).isAbsolute := absolute
    rw [toList_toString_of_isAbsolute absolute, toList_toString_of_isAbsolute absoluteBelow]
    exact (List.prefix_append_right_inj _).mpr (body_append_singleton _ _)
  obtain ⟨rest, letters⟩ := above
  have nameable := fits.nameable
  have noNull := fits.noNull
  have short := fits.short
  have text : (Path.mk path.anchor (path.parts ++ [last])).toString =
      path.toString ++ String.ofList rest := by
    rw [← String.toList_inj, ← letters]
    simp
  rw [← letters, List.any_append, Bool.or_eq_false_iff] at nameable
  rw [← letters, List.contains_append, Bool.or_eq_false_iff] at noNull
  rw [text, String.utf8ByteSize_append] at short
  exact ⟨nameable.1, noNull.1, by omega,
    fun part member => fits.shortParts part (List.mem_append_left _ member)⟩

instance (path : Path) : Decidable path.Fits :=
  decidable_of_iff (path.toString.toList.any Text.isUnnameable = false ∧
      path.toString.toList.contains '\x00' = false ∧
      path.toString.utf8ByteSize ≤ Tree.maxPathBytes ∧
      ∀ part ∈ path.parts, part.utf8ByteSize ≤ Tree.maxNameBytes)
    ⟨fun ⟨nameable, noNull, short, shortParts⟩ => ⟨nameable, noNull, short, shortParts⟩,
      fun ⟨nameable, noNull, short, shortParts⟩ => ⟨nameable, noNull, short, shortParts⟩⟩

end Path

/-- Whether a file is at a path that can be looked up. -/
def Tree.holdsFile (tree : Tree) (path : Path) : Bool :=
  decide path.Fits && (tree.contentAt? path.parts).isSome

/-- In a regular tree a file is found where the tree holds one. -/
theorem Tree.IsRegular.isFile_eq {tree : Tree} (regular : tree.IsRegular) {path : Path}
    (plain : path.IsPlain) {found : Bool} (told : tree.isFile path = .ok found) :
    tree.holdsFile path = found := by
  have known := regular.isFile_iff plain told
  rw [Bool.eq_iff_iff, known, Tree.holdsFile, Bool.and_eq_true, decide_eq_true_eq]

/-- A file that is held can be found. -/
theorem Tree.IsRegular.status_of_holdsFile {tree : Tree} (regular : tree.IsRegular) {path : Path}
    (plain : path.IsPlain) (held : tree.holdsFile path = true) :
    ∃ content executable, tree.status path = .ok (.file content executable) := by
  rw [Tree.holdsFile, Bool.and_eq_true, decide_eq_true_eq] at held
  obtain ⟨content, here⟩ := Option.isSome_iff_exists.mp held.2
  obtain ⟨executable, present⟩ := Tree.contentAt?_eq_some.mp here
  exact ⟨content, executable, (regular.status_iff plain).mpr ⟨held.1, present⟩⟩

/-- Where it cannot be told whether there is a file, there is none. -/
theorem Tree.IsRegular.holdsFile_of_isFile_error {tree : Tree} (regular : tree.IsRegular) {path : Path}
    (plain : path.IsPlain) {fault : FileFault} (refused : tree.isFile path = .error fault) :
    tree.holdsFile path = false := by
  by_contra held
  obtain ⟨content, executable, present⟩ := regular.status_of_holdsFile plain (by simpa using held)
  rw [Tree.isFile_iff.mpr ⟨content, executable, present⟩] at refused
  cases refused

/-- Where no file can be removed, there is none. -/
theorem Tree.IsRegular.holdsFile_of_unlink_error {tree : Tree} (regular : tree.IsRegular) {path : Path}
    (plain : path.IsPlain) {fault : FileFault} (refused : tree.unlink path = .error fault) :
    tree.holdsFile path = false := by
  by_contra held
  rw [Bool.not_eq_false, Tree.holdsFile, Bool.and_eq_true, decide_eq_true_eq] at held
  obtain ⟨content, here⟩ := Option.isSome_iff_exists.mp held.2
  obtain ⟨executable, present⟩ := Tree.contentAt?_eq_some.mp here
  have located : tree.locatePath .entry path = .ok path.parts :=
    (regular.locatePath_iff plain).mpr ⟨rfl, held.1, regular.reached _ _ present⟩
  rw [Tree.unlink, located] at refused
  simp only [present] at refused
  cases refused

namespace Specifier

open TreeBuild.Path

/-! ### Resolving among files -/

/-- What a specifier resolves to, given at which paths files are. -/
def choose (has : Path → Bool) (base : Path) (specifier : String) : Outcome :=
  let target := target base specifier
  if !namesDirectory specifier && has target then .asIs
  else if Layout.compiledSuffix.toList.isSuffixOf specifier.toList then .unresolved
  else if !namesDirectory specifier && has (sibling target) then
    .replaced (specifier ++ Layout.compiledSuffix)
  else if has (index target) then .replaced (stem specifier ++ "/" ++ indexName)
  else .unresolved

/-- The paths that count when a specifier is resolved. -/
def candidates (base : Path) (specifier : String) : List Path :=
  [target base specifier, sibling (target base specifier), index (target base specifier)]

/-- Only files at the candidates matter. -/
theorem choose_congr {has other : Path → Bool} {base : Path} {specifier : String}
    (same : ∀ path ∈ candidates base specifier, has path = other path) :
    choose has base specifier = choose other base specifier := by
  simp only [candidates, List.mem_cons, List.not_mem_nil, or_false, forall_eq_or_imp, forall_eq]
    at same
  simp only [choose, same.1, same.2.1, same.2.2]

/-- A file has appeared at a path, and there is neither a module beside it nor an index below it. -/
structure Appears (has other : Path → Bool) (place : Path) : Prop where
  missing : has place = false
  present : other place = true
  noModule : has (sibling place) = false
  noIndex : has (index place) = false

/-- A specifier of a file that has appeared is left as it is, now as before: it did not resolve, and now it
names the file. -/
theorem choose_appears {has other : Path → Bool} {base place : Path} {specifier : String}
    (same : ∀ path ∈ candidates base specifier, path ≠ place → has path = other path)
    (notModule : ∀ path, sibling path ≠ place) (notIndex : ∀ path, index path ≠ place)
    (seen : place ∈ candidates base specifier → has place = other place ∨ Appears has other place) :
    choose has base specifier = choose other base specifier ∨
      choose has base specifier = .unresolved ∧ choose other base specifier = .asIs := by
  by_cases named : target base specifier = place
  · have ofIndex : has (index (target base specifier)) = other (index (target base specifier)) :=
      same _ (by simp [candidates]) (notIndex _)
    rcases seen (by simp [candidates, named]) with equal | ⟨missing, present, noModule, noIndex⟩
    · refine .inl (choose_congr fun path member => ?_)
      by_cases here : path = place
      · rw [here, equal]
      · exact same path member here
    · rw [← named] at missing present noModule noIndex
      cases directory : namesDirectory specifier with
      | true => exact .inl (by simp [choose, directory, ofIndex])
      | false => exact .inr (by simp [choose, directory, missing, present, noModule, noIndex])
  · refine .inl (choose_congr fun path member => same path member ?_)
    simp only [candidates, List.mem_cons, List.not_mem_nil, or_false] at member
    rcases member with rfl | rfl | rfl
    · exact named
    · exact notModule _
    · exact notIndex _

section

variable {tree : Tree} {base : Path} {specifier : String}

/-- The target of a specifier is absolute if the directory is. -/
theorem target_isAbsolute (absolute : base.isAbsolute) (relative : isRelativeSpecifier specifier) :
    (target base specifier).isAbsolute := by
  rw [target_eq relative]
  exact absolute

/-- The target of a specifier has no special parts. -/
theorem target_isPlain (absolute : base.isAbsolute) (proper : base.IsProper)
    (relative : isRelativeSpecifier specifier) : (target base specifier).IsPlain := by
  rw [target_eq relative]
  refine tidy_isPlain absolute fun part member => ?_
  rcases List.mem_append.mp member with above | below
  · exact proper part above
  · exact ofString_proper specifier part below

/-- The module beside a path has a path without special parts. -/
theorem sibling_isPlain {path : Path} (plain : path.IsPlain) : (sibling path).IsPlain := by
  intro part member
  rcases List.mem_append.mp member with above | same
  · exact plain part (List.dropLast_subset _ above)
  · rw [List.mem_singleton.mp same]
    have noSlash : '/' ∉ path.name.toList := by
      rcases path.name_cases with ⟨-, empty⟩ | found
      · simp [empty]
      · exact (plain _ found).noSlash
    have ends : ∀ other : String, path.name ++ Layout.compiledSuffix = other →
        other.toList.getLast? = some 's' := by
      rintro _ rfl
      simp [Layout.compiledSuffix]
    refine ⟨⟨fun empty => ?_, fun dot => ?_, by simp [noSlash, Layout.compiledSuffix]⟩, fun back => ?_⟩
    · exact absurd (ends _ empty) (by decide)
    · exact absurd (ends _ dot) (by decide)
    · exact absurd (ends _ back) (by decide)

/-- So has the index of a directory. -/
theorem index_isPlain {path : Path} (plain : path.IsPlain) : (index path).IsPlain := by
  intro part member
  rcases List.mem_append.mp member with above | same
  · exact plain part above
  · rw [List.mem_singleton.mp same]
    exact isName_indexName

/-- The index of what is no directory is no file. -/
theorem holdsFile_index (regular : tree.IsRegular) {path : Path} (absolute : path.isAbsolute)
    (plain : path.IsPlain) (told : tree.isDirectory path = .ok false) :
    tree.holdsFile (index path) = false := by
  have known := regular.isDirectory_iff plain told
  cases found : tree.holdsFile (index path) with
  | false => rfl
  | true =>
    rw [Tree.holdsFile, Bool.and_eq_true, decide_eq_true_eq] at found
    obtain ⟨content, held⟩ := Option.isSome_iff_exists.mp found.2
    obtain ⟨executable, present⟩ := Tree.contentAt?_eq_some.mp held
    have directory := regular.directory_above present (List.prefix_append _ _)
      (by simp [index])
    exact (known.mpr ⟨found.1.front absolute, directory⟩).symm

/-- A specifier is resolved as the files of the tree tell. -/
theorem resolve_eq_choose (regular : tree.IsRegular) (absolute : base.isAbsolute)
    (proper : base.IsProper) (relative : isRelativeSpecifier specifier) {outcome : Outcome}
    (told : resolve tree base specifier = .ok outcome) :
    outcome = choose tree.holdsFile base specifier := by
  have plain := target_isPlain absolute proper relative
  have whole := target_isAbsolute absolute relative
  have asked : ∀ path ∈ candidates base specifier, ∀ found, tree.isFile path = .ok found →
      tree.holdsFile path = found := by
    intro path member found isFile
    refine regular.isFile_eq ?_ isFile
    simp only [candidates, List.mem_cons, List.not_mem_nil, or_false] at member
    rcases member with rfl | rfl | rfl
    · exact plain
    · exact sibling_isPlain plain
    · exact index_isPlain plain
  have ofTarget {found : Bool} := asked (target base specifier) (by simp [candidates]) found
  have ofSibling {found : Bool} := asked (sibling (target base specifier)) (by simp [candidates]) found
  have ofIndex {found : Bool} := asked (index (target base specifier)) (by simp [candidates]) found
  cases resolves_of_resolve told with
  | asIs notDirectory isFile => simp [choose, notDirectory, ofTarget isFile]
  | suffixed suffix noFile =>
    rw [← List.isSuffixOf_iff_suffix] at suffix
    cases directory : namesDirectory specifier with
    | true => simp [choose, directory, suffix]
    | false => simp [choose, directory, suffix, ofTarget (noFile directory)]
  | sibling noSuffix notDirectory noFile isFile =>
    rw [← List.isSuffixOf_iff_suffix] at noSuffix
    simp [choose, notDirectory, noSuffix, ofTarget noFile, ofSibling isFile]
  | index noSuffix noFile isDirectory isFile =>
    rw [← List.isSuffixOf_iff_suffix] at noSuffix
    cases directory : namesDirectory specifier with
    | true => simp [choose, directory, noSuffix, ofIndex isFile]
    | false =>
      simp [choose, noSuffix, ofIndex isFile, ofTarget (noFile directory).1,
        ofSibling (noFile directory).2]
  | nothing noSuffix noFile noIndex =>
    rw [← List.isSuffixOf_iff_suffix] at noSuffix
    have missing : tree.holdsFile (Specifier.index (target base specifier)) = false :=
      noIndex.elim (holdsFile_index regular whole plain) ofIndex
    cases directory : namesDirectory specifier with
    | true => simp [choose, directory, noSuffix, missing]
    | false =>
      simp [choose, noSuffix, missing, ofTarget (noFile directory).1,
        ofSibling (noFile directory).2]

end

/-! ### Texts among files -/

/-- The change of a clause, given at which paths files are. -/
def chooseChange (has : Path → Bool) (base : Path) (label : String) (clause : Clause) : Change :=
  let specifier := String.ofList clause.specifier
  if !isRelativeSpecifier specifier then { text := clause.text }
  else
    match choose has base specifier with
    | .asIs => { text := clause.text }
    | .unresolved => { text := clause.text, unresolved := some ⟨label, specifier⟩ }
    | .replaced other =>
      if other = specifier then { text := clause.text }
      else { text := { clause with specifier := other.toList : Clause }.text, rewritten := true }

/-- The change of a segment, given at which paths files are. -/
def chooseSegment (has : Path → Bool) (base : Path) (label : String) : Text.Segment Clause → Change
  | .char c => { text := [c] }
  | .found clause => chooseChange has base label clause

/-- A text with its specifiers resolved, given at which paths files are. -/
def chooseText (has : Path → Bool) (base : Path) (label text : String) : Normalized :=
  let changes := (Text.segments Clause.pattern text.toList).map (chooseSegment has base label)
  { text := String.ofList (changes.flatMap (·.text))
    rewritten := changes.countP (·.rewritten)
    unresolved := changes.filterMap (·.unresolved) }

/-- The relative specifiers of a text. -/
def relatives (text : String) : List String :=
  (specifiers text).filter fun specifier => isRelativeSpecifier specifier

/-- A relative specifier of a clause is among the relative specifiers of the text. -/
theorem mem_relatives {text : String} {clause : Clause}
    (member : .found clause ∈ Text.segments Clause.pattern text.toList)
    (relative : isRelativeSpecifier (String.ofList clause.specifier)) :
    String.ofList clause.specifier ∈ relatives text := by
  refine List.mem_filter.mpr ⟨List.mem_map.mpr ⟨clause, ?_, rfl⟩, relative⟩
  exact List.mem_filterMap.mpr ⟨_, member, rfl⟩

/-- Nothing is replaced in a text for specifiers that are left as they are, whether they resolve or not. -/
theorem chooseText_keeps {has other : Path → Bool} {base : Path} {label text : String}
    (same : ∀ specifier ∈ relatives text, choose has base specifier = choose other base specifier ∨
      choose has base specifier = .unresolved ∧ choose other base specifier = .asIs) :
    (chooseText has base label text).text = (chooseText other base label text).text ∧
      (chooseText has base label text).rewritten = (chooseText other base label text).rewritten := by
  have each : ∀ segment ∈ Text.segments Clause.pattern text.toList,
      (chooseSegment has base label segment).text = (chooseSegment other base label segment).text ∧
        (chooseSegment has base label segment).rewritten =
          (chooseSegment other base label segment).rewritten := by
    intro segment member
    cases segment with
    | char c => exact ⟨rfl, rfl⟩
    | found clause =>
      change (chooseChange has base label clause).text = (chooseChange other base label clause).text ∧
        (chooseChange has base label clause).rewritten = (chooseChange other base label clause).rewritten
      by_cases relative : isRelativeSpecifier (String.ofList clause.specifier)
      · rcases same _ (mem_relatives member relative) with equal | ⟨unresolved, asIs⟩
        · simp only [chooseChange, relative, equal, and_self]
        · simp [chooseChange, relative, unresolved, asIs]
      · simp [chooseChange, relative]
  constructor
  · change String.ofList (List.flatMap _ (List.map _ _)) = String.ofList (List.flatMap _ (List.map _ _))
    rw [List.flatMap_map, List.flatMap_map]
    exact congrArg String.ofList (List.flatMap_congr fun segment member => (each segment member).1)
  · change List.countP _ (List.map _ _) = List.countP _ (List.map _ _)
    rw [List.countP_map, List.countP_map]
    exact List.countP_congr fun segment member => by simp [(each segment member).2]

/-- A text is changed in the same way if the same files are at the candidates of its specifiers. -/
theorem chooseText_congr {has other : Path → Bool} {base : Path} {label text : String}
    (same : ∀ specifier ∈ relatives text, choose has base specifier = choose other base specifier) :
    chooseText has base label text = chooseText other base label text := by
  have changes : (Text.segments Clause.pattern text.toList).map (chooseSegment has base label) =
      (Text.segments Clause.pattern text.toList).map (chooseSegment other base label) := by
    refine List.map_congr_left fun segment member => ?_
    cases segment with
    | char c => rfl
    | found clause =>
      change chooseChange has base label clause = chooseChange other base label clause
      by_cases relative : isRelativeSpecifier (String.ofList clause.specifier)
      · simp only [chooseChange, relative, same _ (mem_relatives member relative)]
      · simp [chooseChange, relative]
  simp only [chooseText, changes]

/-- The specifiers of a text are resolved as the files of the tree tell. -/
theorem normalizeText_eq_chooseText {tree : Tree} (regular : tree.IsRegular) {base : Path}
    (absolute : base.isAbsolute) (proper : base.IsProper) {label text : String}
    {normalized : Normalized} (told : normalizeText tree base label text = .ok normalized) :
    normalized = chooseText tree.holdsFile base label text := by
  unfold normalizeText at told
  obtain ⟨changes, changed, told⟩ := exists_of_bind_eq_ok told
  have each : ∀ segment change, changeSegment tree base label segment = .ok change →
      change = chooseSegment tree.holdsFile base label segment := by
    intro segment change found
    cases segment with
    | char c => exact (Except.ok.inj found).symm
    | found clause =>
      change changeClause tree base label clause = .ok change at found
      change change = chooseChange tree.holdsFile base label clause
      unfold changeClause at found
      dsimp only at found
      split at found
      · rename_i bare
        rw [chooseChange, if_pos bare]
        exact (Except.ok.inj found).symm
      · rename_i relative
        rw [chooseChange, if_neg relative]
        obtain ⟨outcome, resolved, found⟩ := exists_of_bind_eq_ok found
        rw [← resolve_eq_choose regular absolute proper (by simpa using relative) resolved]
        cases outcome with
        | asIs | unresolved => exact (Except.ok.inj found).symm
        | replaced other =>
          dsimp only at found ⊢
          split at found <;> rename_i same
          · rw [if_pos same]
            exact (Except.ok.inj found).symm
          · rw [if_neg same]
            exact (Except.ok.inj found).symm
  have all : changes =
      (Text.segments Clause.pattern text.toList).map (chooseSegment tree.holdsFile base label) := by
    have pairs := forall₂_of_mapM changed
    generalize Text.segments Clause.pattern text.toList = segments at pairs
    clear told changed
    induction pairs with
    | nil => rfl
    | cons first _ inductionHypothesis => rw [List.map_cons, ← inductionHypothesis, each _ _ first]
  rw [chooseText, ← all]
  exact (Except.ok.inj told).symm

end Specifier

end TreeBuild
