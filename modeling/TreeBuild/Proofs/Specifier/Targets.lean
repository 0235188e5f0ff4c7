import TreeBuild.Proofs.Path.Spelling
import TreeBuild.Proofs.Project.Discovery
import TreeBuild.Specifier.Resolution

/-!
# What resolved specifiers name

A specifier is looked up as a path that has been tidied, but it is changed as a text: the suffix of
compiled modules, or the name of an index, is put behind the specifier as it stands. Both agree if the
last segment of the specifier is a name, and also if the specifier is recognized as one that can only name
a directory. Then what a specifier is replaced by names the file that was found.

A single or double dot behind a slash names a directory too, but is not recognized as one. Such a
specifier is taken for a module, and the suffix is put behind the dots.
-/
namespace TreeBuild

/-- A question answers however its failure is told. -/
theorem ok_of_mapError {First Second Answer : Type} {tell : First → Second}
    {question : Except First Answer} {answer : Answer} (told : question.mapError tell = .ok answer) :
    question = .ok answer := by
  cases question with
  | error failure => cases told
  | ok other => exact congrArg Except.ok (Except.ok.inj told)

namespace Path

/-- A relative path below a base has the parts of both. -/
theorem parts_div (base : Path) {text : String} (relative : (ofString text).isAbsolute = false) :
    base / text = ⟨base.anchor, base.parts ++ partsOf text⟩ := by
  change base.join (ofString text) = _
  rw [join, if_neg (by simp [relative])]
  rfl

/-- A part that does not lead back is put at the end. -/
theorem pushTidy_of_ne {part : String} (notBack : part ≠ "..") (absolute : Bool)
    (before : List String) : pushTidy absolute before part = before ++ [part] := by
  rw [pushTidy, if_neg notBack]

/-- A name at the end of a path stays there when the path is tidied. -/
theorem tidy_append {anchor : Anchor} {front : List String} {last : String} (notBack : last ≠ "..") :
    (Path.mk anchor (front ++ [last])).tidy =
      ⟨anchor, (Path.mk anchor front).tidy.parts ++ [last]⟩ := by
  simp only [tidy, List.foldl_append, List.foldl_cons, List.foldl_nil, isAbsolute]
  rw [pushTidy_of_ne notBack]

/-- Text behind the last piece of a text belongs to that piece. -/
theorem intercalate_append (pieces : List (List Char)) (last back : List Char) :
    ['/'].intercalate (pieces ++ [last]) ++ back = ['/'].intercalate (pieces ++ [last ++ back]) := by
  induction pieces with
  | nil => simp
  | cons first rest inductionHypothesis =>
    have nonempty : ∀ piece : List Char, rest ++ [piece] ≠ [] := by simp
    rw [List.cons_append, List.cons_append,
      List.intercalate_cons_of_ne_nil (nonempty _), List.intercalate_cons_of_ne_nil (nonempty _),
      ← inductionHypothesis]
    simp

/-- A last piece is behind a slash if there are others. -/
theorem intercalate_concat {pieces : List (List Char)} (nonempty : pieces ≠ []) (last : List Char) :
    ['/'].intercalate (pieces ++ [last]) = ['/'].intercalate pieces ++ '/' :: last := by
  induction pieces with
  | nil => exact absurd rfl nonempty
  | cons first rest inductionHypothesis =>
    cases rest with
    | nil => simp
    | cons second others =>
      rw [List.cons_append, List.intercalate_cons_of_ne_nil (by simp),
        List.intercalate_cons_of_ne_nil (by simp), inductionHypothesis (by simp)]
      simp

end Path

namespace Specifier

open TreeBuild.Path

/-- The last segment of a specifier: what stands behind its last slash. -/
def lastSegment (specifier : String) : String :=
  ((Text.split '/' specifier).getLast?).getD ""

/-- Whether a specifier denotes a directory: it ends with a slash, or its last segment is dots. -/
def DenotesDirectory (specifier : String) : Prop :=
  specifier.toList.getLast? = some '/' ∨ lastSegment specifier = "." ∨ lastSegment specifier = ".."

/-- Whether it is recognized what a specifier denotes: one that denotes a directory is a mere dot or two,
or ends with a slash. -/
def IsRecognized (specifier : String) : Prop :=
  DenotesDirectory specifier → namesDirectory specifier = true

/-- The module of the same name beside a path. -/
def sibling (path : Path) : Path :=
  ⟨path.anchor, path.parts.dropLast ++ [path.name ++ Layout.compiledSuffix]⟩

/-- The index of a directory. -/
def index (path : Path) : Path := ⟨path.anchor, path.parts ++ [indexName]⟩

/-- The name of an index is a name. -/
theorem isName_indexName : IsName indexName := by decide

/-- The index of a directory is the file of that name in it. -/
theorem div_indexName (path : Path) : path / indexName = index path :=
  div_of_isPart path isName_indexName.toIsPart

variable {tree : Tree} {base : Path} {specifier : String}

/-- A relative specifier begins with a dot. -/
theorem dot_of_isRelativeSpecifier (relative : isRelativeSpecifier specifier) :
    ∃ rest, specifier.toList = '.' :: rest := by
  simp only [isRelativeSpecifier, Bool.or_eq_true, decide_eq_true_eq, List.isPrefixOf_iff_prefix]
    at relative
  rcases relative with ((rfl | rfl) | ⟨rest, letters⟩) | ⟨rest, letters⟩
  · exact ⟨[], rfl⟩
  · exact ⟨['.'], rfl⟩
  · exact ⟨'/' :: rest, letters.symm⟩
  · exact ⟨'.' :: '/' :: rest, letters.symm⟩

/-- A text that begins with a dot is read from the directory that it occurs in. -/
theorem relative_of_dot {text : String} {rest : List Char} (letters : text.toList = '.' :: rest)
    (back : String) : (ofString (text ++ back)).isAbsolute = false := by
  simp [ofString, Path.isAbsolute, anchorOf, letters]

/-- The target of a specifier is the base with the parts of the specifier, tidied. -/
theorem target_eq (relative : isRelativeSpecifier specifier) :
    target base specifier = (Path.mk base.anchor (base.parts ++ partsOf specifier)).tidy := by
  obtain ⟨rest, letters⟩ := dot_of_isRelativeSpecifier relative
  have given := relative_of_dot letters ""
  rw [String.append_empty] at given
  rw [target, parts_div base given]

/-! ### Suffixes -/

/-- The pieces of a specifier, the last of which is its last segment. -/
theorem exists_pieces (specifier : String) : ∃ front : List (List Char),
    specifier.toList.splitOn '/' = front ++ [(lastSegment specifier).toList] ∧
      ∀ piece ∈ front ++ [(lastSegment specifier).toList], '/' ∉ piece := by
  have split : (specifier.toList.splitOn '/').map String.ofList = Text.split '/' specifier := by
    rw [Text.split, Text.splitAt_eq_splitOn]
  have nonempty : specifier.toList.splitOn '/' ≠ [] := List.splitOn_ne_nil _ _
  obtain ⟨front, last, pieces⟩ := List.eq_nil_or_concat _ |>.resolve_left nonempty
  have same : (lastSegment specifier).toList = last := by
    rw [lastSegment, ← split, pieces]
    simp
  have cut := pieces
  refine ⟨front, by rw [same, pieces, List.concat_eq_append], fun piece member => ?_⟩
  rw [same, ← List.concat_eq_append, ← cut] at member
  have found : String.ofList piece ∈ Text.split '/' specifier := by
    rw [← split]
    exact List.mem_map_of_mem member
  simpa using noSlash_of_mem_split found

/-- A specifier that is not taken for a directory ends with a segment that is not empty. -/
theorem lastSegment_ne_empty (relative : isRelativeSpecifier specifier)
    (notDirectory : namesDirectory specifier = false) : lastSegment specifier ≠ "" := by
  intro empty
  obtain ⟨front, pieces, -⟩ := exists_pieces specifier
  have letters : ['/'].intercalate (specifier.toList.splitOn '/') = specifier.toList :=
    List.intercalate_splitOn '/'
  rw [pieces, empty] at letters
  have notEmpty : specifier.toList ≠ [] := by
    intro none
    have : specifier = "" := by simpa using none
    subst this
    exact absurd relative (by decide)
  rcases List.eq_nil_or_concat front with rfl | ⟨rest, last, rfl⟩
  · exact notEmpty (by simpa using letters.symm)
  · have closing : specifier.toList.getLast? = some '/' := by
      rw [← letters, intercalate_concat (by simp)]
      simp
    simp [namesDirectory, closing] at notDirectory

/-- The parts of a specifier whose last segment is a name, without and with the suffix of modules. -/
theorem partsOf_suffixed (relative : isRelativeSpecifier specifier)
    (notDirectory : namesDirectory specifier = false) (recognized : IsRecognized specifier) :
    ∃ front last, last ≠ ".." ∧ partsOf specifier = front ++ [last] ∧
      partsOf (specifier ++ Layout.compiledSuffix) = front ++ [last ++ Layout.compiledSuffix] := by
  have nonempty := lastSegment_ne_empty relative notDirectory
  have noDots : lastSegment specifier ≠ "." ∧ lastSegment specifier ≠ ".." := by
    refine ⟨fun dot => ?_, fun dots => ?_⟩
    · exact absurd (recognized (.inr (.inl dot))) (by simp [notDirectory])
    · exact absurd (recognized (.inr (.inr dots))) (by simp [notDirectory])
  obtain ⟨front, pieces, noSlash⟩ := exists_pieces specifier
  generalize lastSegment specifier = last at nonempty noDots pieces noSlash
  have suffixed : (specifier ++ Layout.compiledSuffix).toList.splitOn '/' =
      front ++ [(last ++ Layout.compiledSuffix).toList] := by
    have letters : ['/'].intercalate (specifier.toList.splitOn '/') = specifier.toList :=
      List.intercalate_splitOn '/'
    rw [pieces] at letters
    rw [String.toList_append, ← letters, intercalate_append, String.toList_append]
    refine List.splitOn_intercalate '/' (fun piece member => ?_) (by simp)
    rcases List.mem_append.mp member with early | late
    · exact noSlash piece (List.mem_append_left _ early)
    · rw [List.mem_singleton.mp late]
      have clean := noSlash last.toList (by simp)
      simp [clean, Layout.compiledSuffix]
  have longer : last ++ Layout.compiledSuffix ≠ "" ∧ last ++ Layout.compiledSuffix ≠ "." := by
    refine ⟨fun same => ?_, fun same => ?_⟩ <;>
    · have ends := congrArg (fun text : String => text.toList.getLast?) same
      simp [Layout.compiledSuffix] at ends
  refine ⟨(front.map String.ofList).filter fun part => part ≠ "" ∧ part ≠ ".", last, noDots.2, ?_, ?_⟩
  · rw [partsOf, Text.split, Text.splitAt_eq_splitOn, pieces]
    simp [nonempty, noDots.1]
  · rw [partsOf, Text.split, Text.splitAt_eq_splitOn, suffixed]
    simp [longer.1, longer.2]

/-- With the suffix of modules behind it, a specifier names the module beside its target. -/
theorem target_suffixed (relative : isRelativeSpecifier specifier)
    (notDirectory : namesDirectory specifier = false) (recognized : IsRecognized specifier) :
    target base (specifier ++ Layout.compiledSuffix) = sibling (target base specifier) ∧
      (target base specifier).parts ≠ [] := by
  obtain ⟨front, last, notBack, parts, suffixed⟩ :=
    partsOf_suffixed relative notDirectory recognized
  have notBackSuffixed : last ++ Layout.compiledSuffix ≠ ".." := by
    intro same
    have ends := congrArg (fun text : String => text.toList.getLast?) same
    simp [Layout.compiledSuffix] at ends
  obtain ⟨rest, letters⟩ := dot_of_isRelativeSpecifier relative
  have longer := relative_of_dot letters Layout.compiledSuffix
  rw [target_eq relative, target, parts_div base longer, suffixed, parts, ← List.append_assoc,
    ← List.append_assoc, tidy_append notBack, tidy_append notBackSuffixed]
  simp [sibling, Path.name]

/-! ### Indices -/

/-- A specifier without the slashes at its end. -/
def stem (specifier : String) : String :=
  String.ofList (Text.trimEnd (· = '/') specifier.toList)

/-- A specifier is its stem and slashes behind it. -/
theorem stem_append (specifier : String) :
    ∃ count, specifier.toList = (stem specifier).toList ++ List.replicate count '/' := by
  have cut := List.takeWhile_append_dropWhile (p := (· = '/')) (l := specifier.toList.reverse)
  have run : specifier.toList.reverse.takeWhile (· = '/') =
      List.replicate (specifier.toList.reverse.takeWhile (· = '/')).length '/' := by
    refine List.eq_replicate_iff.mpr ⟨rfl, fun c member => ?_⟩
    exact of_decide_eq_true (List.all_eq_true.mp List.all_takeWhile c member)
  refine ⟨(specifier.toList.reverse.takeWhile (· = '/')).length, ?_⟩
  calc specifier.toList
      = (specifier.toList.reverse.takeWhile (· = '/') ++
          specifier.toList.reverse.dropWhile (· = '/')).reverse := by
        rw [cut, List.reverse_reverse]
    _ = (specifier.toList.reverse.dropWhile (· = '/')).reverse ++
          (specifier.toList.reverse.takeWhile (· = '/')).reverse := List.reverse_append
    _ = (stem specifier).toList ++
          List.replicate (specifier.toList.reverse.takeWhile (· = '/')).length '/' := by
        rw [stem, Text.trimEnd, String.toList_ofList, run]
        simp

/-- The slashes at the end of a specifier hold no parts. -/
theorem partsOf_stem (specifier : String) : partsOf (stem specifier) = partsOf specifier := by
  have slashes : ∀ (count : Nat) (front : List Char),
      (((front ++ List.replicate count '/').splitOn '/').map String.ofList).filter
          (fun part => decide (part ≠ "" ∧ part ≠ ".")) =
        ((front.splitOn '/').map String.ofList).filter
          (fun part => decide (part ≠ "" ∧ part ≠ ".")) := by
    intro count
    induction count with
    | zero => simp
    | succ count inductionHypothesis =>
      intro front
      rw [List.replicate_succ', ← List.append_assoc, List.splitOn_append_cons_self,
        List.map_append, List.filter_append, inductionHypothesis]
      simp
  obtain ⟨count, letters⟩ := stem_append specifier
  rw [partsOf, partsOf, Text.split, Text.split, Text.splitAt_eq_splitOn, Text.splitAt_eq_splitOn,
    letters, slashes]

/-- With the name of an index behind it, a specifier names the index of its target. -/
theorem target_indexed (relative : isRelativeSpecifier specifier) :
    target base (stem specifier ++ "/" ++ indexName) = index (target base specifier) := by
  have parts : partsOf (stem specifier ++ "/" ++ indexName) = partsOf specifier ++ [indexName] := by
    have letters : (stem specifier ++ "/" ++ indexName).toList =
        (stem specifier).toList ++ '/' :: indexName.toList := by simp
    rw [← partsOf_stem specifier, partsOf, Text.split, Text.splitAt_eq_splitOn, letters,
      List.splitOn_append_cons_self, List.map_append, List.filter_append, partsOf, Text.split,
      Text.splitAt_eq_splitOn]
    congr 1
  have starts : (ofString (stem specifier ++ "/" ++ indexName)).isAbsolute = false := by
    obtain ⟨rest, letters⟩ := dot_of_isRelativeSpecifier relative
    obtain ⟨count, whole⟩ := stem_append specifier
    rw [letters] at whole
    rw [String.append_assoc]
    cases front : (stem specifier).toList with
    | nil =>
      rw [front] at whole
      cases count with
      | zero => simp at whole
      | succ count => simp [List.replicate_succ] at whole
    | cons c others =>
      rw [front] at whole
      exact relative_of_dot (front.trans (by rw [(List.cons.inj whole).1])) _
  rw [target, parts_div base starts, parts, ← List.append_assoc, tidy_append (by decide),
    target_eq relative, index]
  rfl

/-! ### Resolving -/

/-- How a specifier is resolved: each outcome with all that has been asked for before. A directory is not
asked whether it is a file. -/
inductive Resolves (tree : Tree) (base : Path) (specifier : String) : Outcome → Prop where
  | asIs (notDirectory : namesDirectory specifier = false)
      (isFile : tree.isFile (target base specifier) = .ok true) : Resolves tree base specifier .asIs
  | suffixed (suffix : Layout.compiledSuffix.toList <:+ specifier.toList)
      (noFile : namesDirectory specifier = false → tree.isFile (target base specifier) = .ok false) :
      Resolves tree base specifier .unresolved
  | sibling (noSuffix : ¬ Layout.compiledSuffix.toList <:+ specifier.toList)
      (notDirectory : namesDirectory specifier = false)
      (noFile : tree.isFile (target base specifier) = .ok false)
      (isFile : tree.isFile (sibling (target base specifier)) = .ok true) :
      Resolves tree base specifier (.replaced (specifier ++ Layout.compiledSuffix))
  | index (noSuffix : ¬ Layout.compiledSuffix.toList <:+ specifier.toList)
      (noFile : namesDirectory specifier = false → tree.isFile (target base specifier) = .ok false ∧
        tree.isFile (sibling (target base specifier)) = .ok false)
      (isDirectory : tree.isDirectory (target base specifier) = .ok true)
      (isFile : tree.isFile (index (target base specifier)) = .ok true) :
      Resolves tree base specifier (.replaced (stem specifier ++ "/" ++ indexName))
  | nothing (noSuffix : ¬ Layout.compiledSuffix.toList <:+ specifier.toList)
      (noFile : namesDirectory specifier = false → tree.isFile (target base specifier) = .ok false ∧
        tree.isFile (sibling (target base specifier)) = .ok false)
      (noIndex : tree.isDirectory (target base specifier) = .ok false ∨
        tree.isFile (index (target base specifier)) = .ok false) :
      Resolves tree base specifier .unresolved

/-- That the module of a path exists is told of the file beside it. -/
theorem isFile_of_moduleExists {path : Path} {found : Bool}
    (told : moduleExists tree path = .ok found) : tree.isFile (sibling path) = .ok found := by
  unfold moduleExists Path.withName? at told
  split at told
  · rename_i other named
    split at named
    · cases named
    · cases named
      exact ok_of_mapError told
  · cases told

/-- That the index of a path exists is told of the file in the directory, or there is no directory. -/
theorem isFile_of_indexExists {path : Path} {found : Bool}
    (told : indexExists tree path = .ok found) :
    tree.isDirectory path = .ok true ∧ tree.isFile (index path) = .ok found ∨
      tree.isDirectory path = .ok false ∧ found = false := by
  unfold indexExists at told
  obtain ⟨isDirectory, asked, told⟩ := exists_of_bind_eq_ok told
  have asked := ok_of_mapError asked
  cases isDirectory with
  | true =>
    rw [if_pos rfl, div_indexName] at told
    exact .inl ⟨asked, ok_of_mapError told⟩
  | false => exact .inr ⟨asked, (Except.ok.inj told).symm⟩

/-- The last question is whether the target is a directory with an index. -/
theorem resolves_of_indexExists {outcome : Outcome}
    (noSuffix : ¬ Layout.compiledSuffix.toList <:+ specifier.toList)
    (noFile : namesDirectory specifier = false → tree.isFile (target base specifier) = .ok false ∧
      tree.isFile (sibling (target base specifier)) = .ok false)
    (told : (do
      if ← indexExists tree (target base specifier) then
        pure (.replaced (stem specifier ++ "/" ++ indexName))
      else pure .unresolved) = Except.ok outcome) : Resolves tree base specifier outcome := by
  obtain ⟨found, asked, told⟩ := exists_of_bind_eq_ok told
  have asked := isFile_of_indexExists asked
  cases found with
  | true =>
    cases told
    obtain ⟨isDirectory, isFile⟩ | ⟨-, impossible⟩ := asked
    · exact .index noSuffix noFile isDirectory isFile
    · cases impossible
  | false =>
    cases told
    exact .nothing noSuffix noFile (asked.elim (fun found => .inr found.2) fun found => .inl found.1)

/-- What the resolution of a specifier has asked for. -/
theorem resolves_of_resolve {outcome : Outcome} (told : resolve tree base specifier = .ok outcome) :
    Resolves tree base specifier outcome := by
  unfold resolve at told
  dsimp only at told
  by_cases directory : namesDirectory specifier = true
  · have skipped : (!namesDirectory specifier) = false := by simp [directory]
    have module : ¬ namesDirectory specifier = false := by simp [directory]
    simp only [skipped, Bool.false_eq_true, if_false] at told
    by_cases suffix : Layout.compiledSuffix.toList.isSuffixOf specifier.toList
    · rw [if_pos suffix] at told
      cases told
      exact .suffixed (List.isSuffixOf_iff_suffix.mp suffix) fun other => absurd other module
    · rw [if_neg suffix] at told
      exact resolves_of_indexExists (fun found => suffix (List.isSuffixOf_iff_suffix.mpr found))
        (fun other => absurd other module) told
  · have notDirectory : namesDirectory specifier = false := by simpa using directory
    have module : (!namesDirectory specifier) = true := by simp [notDirectory]
    simp only [module, if_true] at told
    obtain ⟨isFile, asked, told⟩ := exists_of_bind_eq_ok told
    have asked := ok_of_mapError asked
    cases isFile with
    | true =>
      cases told
      exact .asIs notDirectory asked
    | false =>
      rw [if_neg Bool.false_ne_true] at told
      by_cases suffix : Layout.compiledSuffix.toList.isSuffixOf specifier.toList
      · rw [if_pos suffix] at told
        cases told
        exact .suffixed (List.isSuffixOf_iff_suffix.mp suffix) fun _ => asked
      · rw [if_neg suffix] at told
        have noSuffix : ¬ Layout.compiledSuffix.toList <:+ specifier.toList := fun found =>
          suffix (List.isSuffixOf_iff_suffix.mpr found)
        obtain ⟨besides, askedBesides, told⟩ := exists_of_bind_eq_ok told
        have askedBesides := isFile_of_moduleExists askedBesides
        cases besides with
        | true =>
          cases told
          exact .sibling noSuffix notDirectory asked askedBesides
        | false =>
          rw [if_neg Bool.false_ne_true] at told
          exact resolves_of_indexExists noSuffix (fun _ => ⟨asked, askedBesides⟩) told

/-! ### What resolved specifiers name -/

/-- What is known of a specifier that another one resolves to. -/
structure NamesFile (tree : Tree) (base : Path) (specifier resolved : String) : Prop where
  isFile : tree.isFile (target base resolved) = .ok true
  /-- It is the same, or names the module beside the target or the index of the target. -/
  shape : resolved = specifier ∨
    resolved = specifier ++ Layout.compiledSuffix ∧ ¬ DenotesDirectory specifier ∧
      target base resolved = sibling (target base specifier) ∨
    resolved = stem specifier ++ "/" ++ indexName ∧
      target base resolved = index (target base specifier)
  /-- One that denotes a directory resolves to its index and to no module beside it. -/
  directory : DenotesDirectory specifier → target base resolved = index (target base specifier)

/-- What a recognized specifier resolves to names the file that was found. -/
theorem namesFile_of_resolve (relative : isRelativeSpecifier specifier)
    (recognized : IsRecognized specifier) {outcome : Outcome} {resolved : String}
    (told : resolve tree base specifier = .ok outcome)
    (answer : outcome.answer specifier = (resolved, true)) :
    NamesFile tree base specifier resolved := by
  have module : namesDirectory specifier = false → ¬ DenotesDirectory specifier := by
    intro notDirectory denotes
    simp [recognized denotes] at notDirectory
  cases resolves_of_resolve told with
  | asIs notDirectory isFile =>
    cases answer
    exact ⟨isFile, .inl rfl, fun denotes => absurd denotes (module notDirectory)⟩
  | suffixed | nothing => cases answer
  | sibling _ notDirectory _ isFile =>
    cases answer
    have named : target base (specifier ++ Layout.compiledSuffix) = Specifier.sibling (target base specifier) :=
      (target_suffixed relative notDirectory recognized).1
    exact ⟨named ▸ isFile, .inr (.inl ⟨rfl, module notDirectory, named⟩),
      fun denotes => absurd denotes (module notDirectory)⟩
  | index _ _ _ isFile =>
    cases answer
    have named : target base (stem specifier ++ "/" ++ indexName) = Specifier.index (target base specifier) :=
      target_indexed relative
    exact ⟨named ▸ isFile, .inr (.inr ⟨rfl, named⟩), fun _ => named⟩

/-- What may become of a piece of a text: it stays as it is, or the specifier of a clause is replaced by
one that names a file. -/
inductive Becomes (tree : Tree) (base : Path) : Text.Segment Clause → List Char → Prop where
  | char (c : Char) : Becomes tree base (.char c) [c]
  | same (clause : Clause) : Becomes tree base (.found clause) clause.text
  | renamed (clause : Clause) {other : String}
      (relative : isRelativeSpecifier (String.ofList clause.specifier))
      (names : NamesFile tree base (String.ofList clause.specifier) other) :
      Becomes tree base (.found clause) { clause with specifier := other.toList : Clause }.text

/-- A segment whose specifier is recognized becomes one that names a file, or stays as it is. -/
theorem becomes_of_changeSegment {label : String} {segment : Text.Segment Clause} {change : Change}
    (recognized : ∀ clause, segment = .found clause →
      isRelativeSpecifier (String.ofList clause.specifier) →
        IsRecognized (String.ofList clause.specifier))
    (told : changeSegment tree base label segment = .ok change) :
    Becomes tree base segment change.text := by
  cases segment with
  | char c =>
    cases told
    exact .char c
  | found clause =>
    change changeClause tree base label clause = .ok change at told
    unfold changeClause at told
    dsimp only at told
    split at told
    · cases told
      exact .same clause
    · rename_i relative
      have relative : isRelativeSpecifier (String.ofList clause.specifier) = true := by
        simpa using relative
      obtain ⟨outcome, resolved, told⟩ := exists_of_bind_eq_ok told
      cases outcome with
      | asIs | unresolved =>
        cases told
        exact .same clause
      | replaced other =>
        dsimp only at told
        split at told
        · cases told
          exact .same clause
        · cases told
          exact .renamed clause relative
            (namesFile_of_resolve relative (recognized clause rfl relative) resolved rfl)

/-- So do all segments of a text. -/
theorem forall₂_becomes {label : String} {segments : List (Text.Segment Clause)}
    {changes : List Change}
    (recognized : ∀ clause, .found clause ∈ segments →
      isRelativeSpecifier (String.ofList clause.specifier) →
        IsRecognized (String.ofList clause.specifier))
    (each : List.Forall₂
      (fun segment change => changeSegment tree base label segment = .ok change) segments changes) :
    List.Forall₂ (Becomes tree base) segments (changes.map Change.text) := by
  induction each with
  | nil => exact .nil
  | cons first _ inductionHypothesis =>
    refine .cons (becomes_of_changeSegment (fun clause same => ?_) first)
      (inductionHypothesis fun clause member => recognized clause (List.mem_cons_of_mem _ member))
    exact recognized clause (same ▸ List.mem_cons_self)

/-- So does the whole text. -/
theorem pieces_of_normalizeText {label text : String} {normalized : Normalized}
    (recognized : ∀ clause, .found clause ∈ Text.segments Clause.pattern text.toList →
      isRelativeSpecifier (String.ofList clause.specifier) →
        IsRecognized (String.ofList clause.specifier))
    (told : normalizeText tree base label text = .ok normalized) :
    ∃ pieces, List.Forall₂ (Becomes tree base) (Text.segments Clause.pattern text.toList) pieces ∧
      normalized.text = String.ofList pieces.flatten := by
  unfold normalizeText at told
  obtain ⟨changes, changed, told⟩ := exists_of_bind_eq_ok told
  cases told
  exact ⟨changes.map Change.text, forall₂_becomes recognized (forall₂_of_mapM changed),
    by simp [List.flatMap]⟩

/-- Where it is recognized which specifiers denote directories, what a specifier resolves to names an
existing file, and it is the specifier itself, the module beside its target or the index of its target;
a directory resolves to its index only. Therefore no text has a specifier replaced by one that names
no file. -/
theorem resolved_names_file (tree : Tree) (base : Path) :
    (∀ specifier resolved outcome, isRelativeSpecifier specifier → IsRecognized specifier →
      resolve tree base specifier = .ok outcome → outcome.answer specifier = (resolved, true) →
        NamesFile tree base specifier resolved) ∧
    ∀ label text normalized,
      (∀ clause, .found clause ∈ Text.segments Clause.pattern text.toList →
        isRelativeSpecifier (String.ofList clause.specifier) →
          IsRecognized (String.ofList clause.specifier)) →
      normalizeText tree base label text = .ok normalized →
        ∃ pieces,
          List.Forall₂ (Becomes tree base) (Text.segments Clause.pattern text.toList) pieces ∧
            normalized.text = String.ofList pieces.flatten :=
  ⟨fun _ _ _ relative recognized told answer => namesFile_of_resolve relative recognized told answer,
    fun _ _ _ recognized told => pieces_of_normalizeText recognized told⟩

/-! ### A directory beside a module of the same name -/

/-- An output tree with a module two directories deep, an index at its top, and a module beside it. -/
def nestedTree : Tree :=
  ⟨[(["p"], .directory), (["p", "dist"], .directory), (["p", "dist.js"], .file [] false),
    (["p", "dist", "index.js"], .file [] false), (["p", "dist", "a"], .directory),
    (["p", "dist", "a", "b"], .directory), (["p", "dist", "a", "b", "m.js"], .file [] false)]⟩

/-- The directory of the deepest module. -/
def nestedBase : Path := ⟨.root, ["p", "dist", "a", "b"]⟩

instance (specifier : String) : Decidable (DenotesDirectory specifier) :=
  inferInstanceAs (Decidable (_ ∨ _ ∨ _))

instance (specifier : String) : Decidable (IsRecognized specifier) :=
  inferInstanceAs (Decidable (_ → _))

/-- The module two directories up is found by its name, and the index there by the directory. -/
theorem resolved_names_file_of_nested :
    NamesFile nestedTree nestedBase "../../index" "../../index.js" ∧
      NamesFile nestedTree nestedBase "../../" "../../index.js" :=
  ⟨(resolved_names_file nestedTree nestedBase).1 _ _ (.replaced "../../index.js")
      (by decide) (by decide) (ok_of_toOption (by decide +kernel)) rfl,
    (resolved_names_file nestedTree nestedBase).1 _ _ (.replaced "../../index.js")
      (by decide) (by decide) (ok_of_toOption (by decide +kernel)) rfl⟩

/-- Two levels up denotes a directory, and one with an index, but it is resolved as the module beside that
directory, and what it is replaced by names no file. -/
theorem resolve_takes_directory_for_module :
    isRelativeSpecifier "../.." ∧ DenotesDirectory "../.." ∧
      resolve nestedTree nestedBase "../.." = .ok (.replaced "../...js") ∧
      nestedTree.isFile (target nestedBase "../...js") = .ok false ∧
      nestedTree.isFile (index (target nestedBase "../..")) = .ok true := by
  refine ⟨by decide, by decide, ok_of_toOption ?_, ok_of_toOption ?_, ok_of_toOption ?_⟩ <;>
    decide +kernel

end Specifier

end TreeBuild
