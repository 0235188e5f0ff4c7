import TreeBuild.Proofs.Specifier.Among
import TreeBuild.Proofs.Specifier.Rewriting
import TreeBuild.Proofs.Project.Answers

/-!
# Texts that can be rewritten

When a text is rewritten, the system is asked about paths that come from its specifiers, and a refusal mostly
says that nothing is there. Two things are told as faults instead. A path is refused if it is too long, or if a
name is on the way that is. And the module beside a target is looked for by the name of the target, which the
root does not have: a specifier that climbs up to the root and is not recognized as a directory ends the
rewriting. Apart from these every text is rewritten, and what names nothing is left in place and told.
-/
namespace TreeBuild

namespace Tree

variable {tree : Tree}

/-- A path that is not refused for being too long. -/
def CanFollow (tree : Tree) (path : Path) : Prop := tree.status path ≠ .error .nameTooLong

instance (path : Path) : Decidable (tree.CanFollow path) := inferInstanceAs (Decidable (_ ≠ _))

/-- A refusal that only says that nothing is there, or one of something too long. -/
def IsPlainRefusal (refusal : Refusal) : Prop := isAbsence refusal ∨ refusal = .nameTooLong

/-- On the way to what a path leads to, a refusal is a plain one. -/
theorem isPlainRefusal_of_advance {location : Location} {parts : List String} {refusal : Refusal}
    (refused : tree.advance .target location parts = .error refusal) : IsPlainRefusal refusal := by
  rcases refusal_of_advance refused with rfl | rfl | rfl | ⟨-, creates⟩
  · exact .inl rfl
  · exact .inl rfl
  · exact .inr rfl
  · cases creates

/-- So it is on the way through links. -/
theorem isPlainRefusal_of_walk {links : Nat} {location : Location} {parts : List String} {refusal : Refusal}
    (refused : tree.walk .target links location parts = .error refusal) : IsPlainRefusal refusal := by
  induction links generalizing location parts with
  | zero =>
    rw [walk] at refused
    split at refused
    · rename_i stopped
      cases refused
      exact isPlainRefusal_of_advance stopped
    · cases refused
    · cases refused
      exact .inl rfl
  | succ links inductionHypothesis =>
    rw [walk] at refused
    split at refused
    · rename_i stopped
      cases refused
      exact isPlainRefusal_of_advance stopped
    · cases refused
    · exact inductionHypothesis refused

/-- So it is when the state of a path is asked for. -/
theorem isPlainRefusal_of_status {path : Path} {refusal : Refusal}
    (refused : tree.status path = .error refusal) : IsPlainRefusal refusal := by
  unfold status locatePath locate at refused
  split at refused
  · rename_i stopped
    cases refused
    split at stopped
    · cases stopped
      exact .inl rfl
    split at stopped
    · cases stopped
      exact .inl rfl
    split at stopped
    · cases stopped
      exact .inr rfl
    · exact isPlainRefusal_of_walk stopped
  · split at refused
    · cases refused
    · cases refused
      exact .inl rfl

/-- It can be told what is at a path exactly if the path is not too long. -/
theorem answered_probe_iff {path : Path} {test : Entry → Bool} :
    Answered (tree.probe test path) ↔ tree.CanFollow path := by
  unfold Tree.probe CanFollow
  split
  · rename_i found
    exact ⟨fun _ => by simp [found], fun _ => .ok⟩
  · rename_i refusal refused
    rw [refused]
    constructor
    · rintro ⟨answer, told⟩ ⟨long⟩
      cases told
    · intro short
      rcases isPlainRefusal_of_status refused with absence | long
      · rw [if_pos absence]
        exact .ok
      · exact absurd (long ▸ rfl) short

/-- No directory is a file. -/
theorem not_isFile_of_isDirectory {path : Path} (isDirectory : tree.isDirectory path = .ok true) :
    tree.isFile path ≠ .ok true := by
  intro isFile
  unfold Tree.isDirectory probe at isDirectory
  unfold Tree.isFile probe at isFile
  split at isDirectory
  · rename_i entry found
    rw [found] at isFile
    cases entry with
    | directory => simp [Entry.isFile] at isFile
    | file | link => simp [Entry.isDirectory] at isDirectory
  · split at isDirectory <;> cases isDirectory

end Tree

namespace Specifier

section

variable (tree : Tree) (base : Path) (specifier : String)

/-- A specifier whose candidates can be looked up as far as it takes to resolve it. What it names is looked up
in any case. The module beside that is looked up if the specifier is not taken for a directory, has no suffix and
names no file; there has to be a name to put the suffix to. The index is looked up in a directory, if nothing
before it is there. -/
structure IsWithinReach : Prop where
  target : tree.CanFollow (target base specifier)
  sibling (notDirectory : namesDirectory specifier = false)
    (noSuffix : ¬ Layout.compiledSuffix.toList <:+ specifier.toList)
    (noFile : tree.isFile (Specifier.target base specifier) ≠ .ok true) :
    (Specifier.target base specifier).parts ≠ [] ∧
      tree.CanFollow (Specifier.sibling (Specifier.target base specifier))
  index (noSuffix : ¬ Layout.compiledSuffix.toList <:+ specifier.toList)
    (noSibling : namesDirectory specifier = false →
      tree.isFile (Specifier.sibling (Specifier.target base specifier)) ≠ .ok true)
    (isDirectory : tree.isDirectory (Specifier.target base specifier) = .ok true) :
    tree.CanFollow (Specifier.index (Specifier.target base specifier))

/-- No candidate of a specifier is there. -/
structure NamesNothing : Prop where
  noModule : namesDirectory specifier = false → tree.isFile (target base specifier) ≠ .ok true ∧
    tree.isFile (sibling (target base specifier)) ≠ .ok true
  noIndex : tree.isDirectory (target base specifier) ≠ .ok true ∨
    tree.isFile (index (target base specifier)) ≠ .ok true

end

variable {tree : Tree} {base : Path} {specifier : String}

/-! ### Answers -/

/-- Whether the module beside a path exists is told if the path has a name to put the suffix to, and that of the
module is not too long. -/
theorem answered_moduleExists_iff {path : Path} :
    Answered (moduleExists tree path) ↔ path.parts ≠ [] ∧ tree.CanFollow (sibling path) := by
  unfold moduleExists
  by_cases nameless : path.parts = []
  · rw [Path.withName?, if_pos (by simpa using nameless)]
    refine ⟨?_, fun named => absurd nameless named.1⟩
    rintro ⟨_, told⟩
    cases told
  · have other : path.withName? (path.name ++ Layout.compiledSuffix) = some (sibling path) := by
      rw [Path.withName?, if_neg (by simpa using nameless)]
      rfl
    rw [other]
    dsimp only
    rw [Answered.mapError_iff, Tree.isFile, Tree.answered_probe_iff]
    exact ⟨fun followed => ⟨nameless, followed⟩, And.right⟩

/-- Whether the index of a directory exists is told if the path is not too long, and neither is that of the
index where there is a directory. -/
theorem answered_indexExists_iff {path : Path} :
    Answered (indexExists tree path) ↔
      tree.CanFollow path ∧ (tree.isDirectory path = .ok true → tree.CanFollow (index path)) := by
  constructor
  · rintro ⟨found, told⟩
    obtain ⟨isDirectory, asked, told⟩ := exists_of_bind_eq_ok told
    have asked := ok_of_mapError asked
    refine ⟨Tree.answered_probe_iff.mp ⟨_, asked⟩, fun here => ?_⟩
    cases asked.symm.trans here
    rw [if_pos rfl, div_indexName] at told
    exact Tree.answered_probe_iff.mp ⟨_, ok_of_mapError told⟩
  · rintro ⟨here, below⟩
    obtain ⟨isDirectory, told⟩ : Answered (tree.isDirectory path) := Tree.answered_probe_iff.mpr here
    unfold indexExists
    rw [told]
    cases isDirectory with
    | false => exact .ok
    | true =>
      obtain ⟨isFile, toldBelow⟩ : Answered (tree.isFile (index path)) :=
        Tree.answered_probe_iff.mpr (below told)
      rw [← div_indexName] at toldBelow
      exact ⟨isFile, by rw [toldBelow]; rfl⟩

/-- What is taken for a directory has no suffix. -/
theorem noSuffix_of_namesDirectory (directory : namesDirectory specifier = true) :
    ¬ Layout.compiledSuffix.toList <:+ specifier.toList := by
  rintro ⟨front, same⟩
  have last : specifier.toList.getLast? = some 's' := by
    rw [← same]
    simp [Layout.compiledSuffix]
  have other : ∀ text : String, text.toList.getLast? ≠ some 's' → specifier ≠ text := by
    rintro text different rfl
    exact different last
  simp [namesDirectory, last, other "." (by decide), other ".." (by decide)] at directory

/-- The last question about a specifier is whether the index is there. -/
theorem answered_last_iff {path : Path} (replacement : String) :
    Answered (do
      if ← indexExists tree path then pure (.replaced replacement) else pure .unresolved : Except Fault Outcome) ↔
        Answered (indexExists tree path) := by
  rw [Answered.bind_iff]
  constructor
  · rintro ⟨found, told, -⟩
    exact ⟨found, told⟩
  · rintro ⟨found, told⟩
    refine ⟨found, told, ?_⟩
    cases found <;> exact .ok

/-- A specifier that is taken for a directory is resolved, be it to nothing, exactly if it is within reach. -/
theorem answered_resolve_iff_of_directory (directory : namesDirectory specifier = true) :
    Answered (resolve tree base specifier) ↔ IsWithinReach tree base specifier := by
  have noSuffix := noSuffix_of_namesDirectory directory
  have notSuffixed : Layout.compiledSuffix.toList.isSuffixOf specifier.toList = false := by
    simpa [← List.isSuffixOf_iff_suffix] using noSuffix
  have never {property : Prop} (module : namesDirectory specifier = false) : property := by
    cases directory.symm.trans module
  unfold resolve
  simp only [directory, Bool.not_true, Bool.false_eq_true, if_false, notSuffixed]
  rw [answered_last_iff, answered_indexExists_iff]
  constructor
  · rintro ⟨here, below⟩
    exact ⟨here, fun module => never module, fun _ _ => below⟩
  · intro within
    exact ⟨within.target, within.index noSuffix fun module => never module⟩

/-- If a specifier that is taken for a module is resolved, it is within reach. -/
theorem isWithinReach_of_answered (module : namesDirectory specifier = false)
    (answered : Answered (resolve tree base specifier)) : IsWithinReach tree base specifier := by
  unfold resolve at answered
  simp only [module, Bool.not_false, if_true] at answered
  obtain ⟨isFile, asked, told⟩ := Answered.bind_iff.mp answered
  have asked := ok_of_mapError asked
  have here : tree.CanFollow (target base specifier) := Tree.answered_probe_iff.mp ⟨_, asked⟩
  cases isFile with
  | true =>
    exact ⟨here, fun _ _ noFile => absurd asked noFile,
      fun _ _ isDirectory => absurd asked (Tree.not_isFile_of_isDirectory isDirectory)⟩
  | false =>
    rw [if_neg Bool.false_ne_true] at told
    split at told
    · rename_i suffix
      have suffix := List.isSuffixOf_iff_suffix.mp suffix
      exact ⟨here, fun _ noSuffix => absurd suffix noSuffix, fun noSuffix => absurd suffix noSuffix⟩
    · obtain ⟨besides, askedBesides, told⟩ := Answered.bind_iff.mp told
      have beside := answered_moduleExists_iff.mp ⟨_, askedBesides⟩
      refine ⟨here, fun _ _ _ => beside, fun _ noSibling isDirectory => ?_⟩
      cases besides with
      | true => exact absurd (isFile_of_moduleExists askedBesides) (noSibling module)
      | false => exact (answered_indexExists_iff.mp ((answered_last_iff _).mp told)).2 isDirectory

/-- If a specifier that is taken for a module is within reach, it is resolved, be it to nothing. -/
theorem answered_of_isWithinReach (module : namesDirectory specifier = false)
    (within : IsWithinReach tree base specifier) : Answered (resolve tree base specifier) := by
  obtain ⟨isFile, told⟩ : Answered (tree.isFile (target base specifier)) :=
    Tree.answered_probe_iff.mpr within.target
  unfold resolve
  simp only [module, Bool.not_false, if_true]
  refine Answered.bind_iff.mpr ⟨isFile, by rw [told]; rfl, ?_⟩
  cases isFile with
  | true => exact .ok
  | false =>
    rw [if_neg Bool.false_ne_true]
    split
    · exact .ok
    · rename_i noSuffix
      have noSuffix : ¬ Layout.compiledSuffix.toList <:+ specifier.toList :=
        fun suffix => noSuffix (List.isSuffixOf_iff_suffix.mpr suffix)
      obtain ⟨besides, asked⟩ := answered_moduleExists_iff.mpr
        (within.sibling module noSuffix (by simp [told]))
      refine Answered.bind_iff.mpr ⟨besides, asked, ?_⟩
      cases besides with
      | true => exact .ok
      | false =>
        exact (answered_last_iff _).mpr (answered_indexExists_iff.mpr ⟨within.target,
          within.index noSuffix fun _ => by simp [isFile_of_moduleExists asked]⟩)

/-- A specifier is resolved, be it to nothing, exactly if it is within reach. -/
theorem answered_resolve_iff : Answered (resolve tree base specifier) ↔ IsWithinReach tree base specifier := by
  cases directory : namesDirectory specifier with
  | true => exact answered_resolve_iff_of_directory directory
  | false => exact ⟨isWithinReach_of_answered directory, answered_of_isWithinReach directory⟩

/-- A piece of a text is rewritten exactly if it is no clause with a relative specifier out of reach. -/
theorem answered_changeSegment_iff {label : String} {piece : Text.Segment Clause} :
    Answered (changeSegment tree base label piece) ↔ ∀ clause, piece = .found clause →
      isRelativeSpecifier (String.ofList clause.specifier) →
        IsWithinReach tree base (String.ofList clause.specifier) := by
  cases piece with
  | char c => exact ⟨fun _ _ impossible => (by cases impossible), fun _ => .ok⟩
  | found clause =>
    have kept : Answered (changeSegment tree base label (.found clause)) ↔
        (isRelativeSpecifier (String.ofList clause.specifier) →
          Answered (resolve tree base (String.ofList clause.specifier))) := by
      change Answered (changeClause tree base label clause) ↔ _
      unfold changeClause
      dsimp only
      cases isRelativeSpecifier (String.ofList clause.specifier) with
      | false => exact ⟨fun _ impossible => (by cases impossible), fun _ => .ok⟩
      | true =>
        simp only [Bool.not_true, Bool.false_eq_true, if_false, true_implies]
        rw [Answered.bind_iff]
        refine ⟨fun ⟨outcome, told, _⟩ => ⟨outcome, told⟩, fun ⟨outcome, told⟩ => ⟨outcome, told, ?_⟩⟩
        cases outcome with
        | asIs | unresolved => exact .ok
        | replaced other =>
          dsimp only
          split <;> exact .ok
    rw [kept, answered_resolve_iff]
    exact ⟨fun within other same relative => by cases same; exact within relative,
      fun within => within clause rfl⟩

/-- A text is rewritten exactly if all its relative specifiers are within reach. -/
theorem answered_normalizeText_iff {label text : String} :
    Answered (normalizeText tree base label text) ↔ ∀ specifier ∈ specifiers text,
      isRelativeSpecifier specifier → IsWithinReach tree base specifier := by
  have changed : Answered (normalizeText tree base label text) ↔
      Answered ((Text.segments Clause.pattern text.toList).mapM (changeSegment tree base label)) := by
    rw [normalizeText, Answered.bind_iff]
    constructor
    · rintro ⟨changes, told, -⟩
      exact ⟨changes, told⟩
    · rintro ⟨changes, told⟩
      exact ⟨changes, told, .ok⟩
  rw [changed, Answered.mapM_iff, specifiers_eq]
  constructor
  · intro each specifier listed
    obtain ⟨clause, found, rfl⟩ := List.mem_map.mp listed
    obtain ⟨piece, member, same⟩ := List.mem_filterMap.mp found
    refine answered_changeSegment_iff.mp (each piece member) clause ?_
    cases piece with
    | char c => cases same
    | found other => rw [Option.some.inj same]
  · intro within piece member
    apply answered_changeSegment_iff.mpr
    rintro clause rfl
    apply within
    apply List.mem_map_of_mem
    exact List.mem_filterMap.mpr ⟨_, member, rfl⟩

/-! ### What names nothing -/

/-- Where a specifier that names nothing can be looked up, it does not resolve. -/
theorem NamesNothing.outcome {outcome : Outcome} (nothing : NamesNothing tree base specifier)
    (told : resolve tree base specifier = .ok outcome) : outcome = .unresolved := by
  cases resolves_of_resolve told with
  | asIs notDirectory isFile => exact absurd isFile (nothing.noModule notDirectory).1
  | suffixed => rfl
  | sibling _ notDirectory _ isFile => exact absurd isFile (nothing.noModule notDirectory).2
  | index _ _ isDirectory isFile =>
    rcases nothing.noIndex with no | no
    · exact absurd isDirectory no
    · exact absurd isFile no
  | nothing => rfl

/-- What is left in place and told when a text is rewritten. -/
structure Leaves (tree : Tree) (base : Path) (label text : String) (normalized : Normalized) : Prop where
  /-- The text is kept but for the specifiers of its clauses. -/
  kept : normalized.text.toList = Text.render (fun clause => (settle tree base clause).text)
    (Text.segments Clause.pattern text.toList)
  /-- A relative specifier that names nothing stays as it is, and it is told. -/
  nothing : ∀ specifier ∈ specifiers text, isRelativeSpecifier specifier →
    NamesNothing tree base specifier →
      settled tree base specifier = specifier ∧ ⟨label, specifier⟩ ∈ normalized.unresolved

/-- A text is rewritten if its relative specifiers are within reach, and those of them that name nothing are
left in place and told. -/
theorem normalize_answers (tree : Tree) (base : Path) (label text : String)
    (within : ∀ specifier ∈ specifiers text, isRelativeSpecifier specifier →
      IsWithinReach tree base specifier) :
    ∃ normalized, normalizeText tree base label text = .ok normalized ∧
      Leaves tree base label text normalized := by
  obtain ⟨normalized, told⟩ := answered_normalizeText_iff.mpr within
  obtain ⟨-, same, -, unresolved⟩ := tells_of_normalizeText told
  refine ⟨normalized, told, ?_⟩
  constructor
  · exact same
  · intro specifier listed relative nothing
    obtain ⟨outcome, resolved⟩ := answered_resolve_iff.mpr (within specifier listed relative)
    cases nothing.outcome resolved
    constructor
    · simp [settled, relative, resolved, Outcome.answer]
    · rw [unresolved]
      apply List.mem_map_of_mem
      apply List.mem_filter.mpr
      exact ⟨listed, by simp [isLost, relative, resolved]⟩

/-- A missing module is left in place and told. -/
theorem normalize_answers_of_missing :
    ∃ normalized, normalizeText nestedTree nestedBase "m.js" "import '../none'" = .ok normalized ∧
      Leaves nestedTree nestedBase "m.js" "import '../none'" normalized := by
  apply normalize_answers
  have listed : specifiers "import '../none'" = ["../none"] := by decide +kernel
  rw [listed]
  intro specifier member _
  rw [List.mem_singleton.mp member]
  refine ⟨by decide +kernel, fun _ _ _ => by decide +kernel, fun _ _ _ => by decide +kernel⟩

/-- A specifier whose target has no name, and that is not taken for a directory, cannot be resolved. -/
theorem resolve_fails_of_nameless (module : namesDirectory specifier = false)
    (noSuffix : ¬ Layout.compiledSuffix.toList <:+ specifier.toList)
    (noFile : tree.isFile (target base specifier) = .ok false) (nameless : (target base specifier).parts = []) :
    resolve tree base specifier = .error (.emptyName (target base specifier)) := by
  have noSibling : moduleExists tree (target base specifier) = .error (.emptyName (target base specifier)) := by
    simp [moduleExists, Path.withName?, nameless]
  have notSuffixed : Layout.compiledSuffix.toList.isSuffixOf specifier.toList = false := by
    simpa [← List.isSuffixOf_iff_suffix] using noSuffix
  simp only [resolve, module, noFile, notSuffixed, noSibling]
  rfl

/-- Four levels up from a directory that is four levels deep is the root. It is there, and nothing that the
specifier could stand for is; but a text with the specifier cannot be rewritten. -/
theorem normalize_fails_at_root :
    nestedTree.isDirectory nestedBase = .ok true ∧ isRelativeSpecifier "../../../.." ∧
      NamesNothing nestedTree nestedBase "../../../.." ∧
      resolve nestedTree nestedBase "../../../.." = .error (.emptyName ⟨.root, []⟩) ∧
      ¬ Answered (normalizeText nestedTree nestedBase "m.js" "import '../../../..'") := by
  have top : target nestedBase "../../../.." = ⟨.root, []⟩ := by decide +kernel
  have noFile : nestedTree.isFile ⟨.root, []⟩ = .ok false := ok_of_toOption (by decide +kernel)
  have noModule : nestedTree.isFile (sibling ⟨.root, []⟩) = .ok false := ok_of_toOption (by decide +kernel)
  have noIndex : nestedTree.isFile (index ⟨.root, []⟩) = .ok false := ok_of_toOption (by decide +kernel)
  refine ⟨ok_of_toOption (by decide +kernel), by decide, ⟨?_, .inr ?_⟩, ?_, ?_⟩
  · intro _
    rw [top, noFile, noModule]
    simp
  · rw [top, noIndex]
    simp
  · rw [resolve_fails_of_nameless (by decide) (by decide) (by rw [top, noFile]) (by rw [top]), top]
  · rintro ⟨normalized, told⟩
    have none : (normalizeText nestedTree nestedBase "m.js" "import '../../../..'").toOption.isNone := by
      decide +kernel
    rw [told] at none
    cases none

end Specifier

end TreeBuild
