import TreeBuild.Proofs.Specifier.Targets

/-!
# The order of the candidates

What a specifier may stand for is said of the files that are there: its target, the module beside the target,
or the index of the target. The first of them that is a file is taken, and a specifier stays unresolved only
when there is none. One that denotes a directory has the last candidate only, and one that is written with the
suffix of modules is not taken for a module whose name has the suffix twice.
-/
namespace TreeBuild

namespace Specifier

section

variable (tree : Tree) (base : Path) (specifier : String)

/-- The specifier names a file as it stands. -/
structure Stands : Prop where
  module : ¬ DenotesDirectory specifier
  isFile : tree.isFile (target base specifier) = .ok true

/-- The specifier names a module whose suffix it leaves out. -/
structure HasModule : Prop where
  module : ¬ DenotesDirectory specifier
  isFile : tree.isFile (sibling (target base specifier)) = .ok true

/-- The specifier names a directory with an index. -/
structure HasIndex : Prop where
  isDirectory : tree.isDirectory (target base specifier) = .ok true
  isFile : tree.isFile (index (target base specifier)) = .ok true

/-- The specifier is written with the suffix of modules. -/
def IsSuffixed : Prop := Layout.compiledSuffix.toList <:+ specifier.toList

/-- The outcome is the first candidate that is there. It is left open what becomes of a specifier that is
written with the suffix of modules and names a directory with an index. -/
structure Preferred (outcome : Outcome) : Prop where
  asIs : Stands tree base specifier → outcome = .asIs
  module : ¬ Stands tree base specifier → ¬ IsSuffixed specifier → HasModule tree base specifier →
    outcome = .replaced (specifier ++ Layout.compiledSuffix)
  index : ¬ Stands tree base specifier → ¬ IsSuffixed specifier → ¬ HasModule tree base specifier →
    HasIndex tree base specifier → outcome = .replaced (stem specifier ++ "/" ++ indexName)
  nothing : ¬ Stands tree base specifier → (¬ IsSuffixed specifier → ¬ HasModule tree base specifier) →
    ¬ HasIndex tree base specifier → outcome = .unresolved

end

variable {tree : Tree} {base : Path} {specifier : String}

/-- What can only name a directory denotes one. -/
theorem namesDirectory_of_module (module : ¬ DenotesDirectory specifier) :
    namesDirectory specifier = false := by
  by_contra directory
  simp only [namesDirectory, Bool.not_eq_false, Bool.or_eq_true, decide_eq_true_eq] at directory
  rcases directory with (rfl | rfl) | slash
  · exact module (.inr (.inl (by decide)))
  · exact module (.inr (.inr (by decide)))
  · exact module (.inl slash)

/-- A specifier whose target is no file does not stand. -/
theorem not_stands (noFile : namesDirectory specifier = false → tree.isFile (target base specifier) = .ok false) :
    ¬ Stands tree base specifier := by
  intro stands
  have told := stands.isFile
  rw [noFile (namesDirectory_of_module stands.module)] at told
  cases told

/-- A specifier whose sibling is no file has no module. -/
theorem not_hasModule
    (noFile : namesDirectory specifier = false → tree.isFile (sibling (target base specifier)) = .ok false) :
    ¬ HasModule tree base specifier := by
  intro has
  have told := has.isFile
  rw [noFile (namesDirectory_of_module has.module)] at told
  cases told

/-- A specifier whose target is no directory, or has no index in it, has no index. -/
theorem not_hasIndex (noIndex : tree.isDirectory (target base specifier) = .ok false ∨
    tree.isFile (index (target base specifier)) = .ok false) : ¬ HasIndex tree base specifier := by
  rintro ⟨isDirectory, isFile⟩
  rcases noIndex with other | other
  · rw [isDirectory] at other
    cases other
  · rw [isFile] at other
    cases other

/-- What is not taken for a directory denotes none, where it is recognized what does. -/
theorem not_denotes_of_recognized (recognized : IsRecognized specifier)
    (module : namesDirectory specifier = false) : ¬ DenotesDirectory specifier := by
  intro denotes
  rw [recognized denotes] at module
  cases module

/-- What stays unresolved names no file as it stands and, unless it is written with the suffix of modules,
neither a module nor a directory with an index. -/
theorem names_nothing_of_unresolved (told : resolve tree base specifier = .ok .unresolved) :
    ¬ Stands tree base specifier ∧
      (¬ IsSuffixed specifier → ¬ HasModule tree base specifier ∧ ¬ HasIndex tree base specifier) := by
  cases resolves_of_resolve told with
  | suffixed suffix noFile =>
    constructor
    · exact not_stands noFile
    · intro noSuffix
      exact absurd suffix noSuffix
  | nothing noSuffix noFile noIndex =>
    constructor
    · exact not_stands fun module => (noFile module).1
    · intro _
      constructor
      · exact not_hasModule fun module => (noFile module).2
      · exact not_hasIndex noIndex

/-- The first candidate that is there is taken, where it is recognized which specifiers denote directories. -/
theorem preferred_of_resolve {outcome : Outcome} (recognized : IsRecognized specifier)
    (told : resolve tree base specifier = .ok outcome) : Preferred tree base specifier outcome := by
  cases resolves_of_resolve told with
  | asIs notDirectory isFile =>
    have stands : Stands tree base specifier := ⟨not_denotes_of_recognized recognized notDirectory, isFile⟩
    constructor
    · exact fun _ => rfl
    · exact fun no => absurd stands no
    · exact fun no => absurd stands no
    · exact fun no => absurd stands no
  | suffixed suffix noFile =>
    have noStands := not_stands noFile
    constructor
    · exact fun stands => absurd stands noStands
    · exact fun _ noSuffix => absurd suffix noSuffix
    · exact fun _ noSuffix => absurd suffix noSuffix
    · exact fun _ _ _ => rfl
  | sibling noSuffix notDirectory noFile isFile =>
    have noStands := not_stands fun _ => noFile
    have has : HasModule tree base specifier := ⟨not_denotes_of_recognized recognized notDirectory, isFile⟩
    constructor
    · exact fun stands => absurd stands noStands
    · exact fun _ _ _ => rfl
    · exact fun _ _ no => absurd has no
    · exact fun _ no => absurd has (no noSuffix)
  | index noSuffix noFile isDirectory isFile =>
    have noStands := not_stands fun module => (noFile module).1
    have noModule := not_hasModule fun module => (noFile module).2
    constructor
    · exact fun stands => absurd stands noStands
    · exact fun _ _ has => absurd has noModule
    · exact fun _ _ _ _ => rfl
    · exact fun _ _ no => absurd ⟨isDirectory, isFile⟩ no
  | nothing noSuffix noFile noIndex =>
    have noStands := not_stands fun module => (noFile module).1
    have noModule := not_hasModule fun module => (noFile module).2
    constructor
    · exact fun stands => absurd stands noStands
    · exact fun _ _ has => absurd has noModule
    · exact fun _ _ _ has => absurd has (not_hasIndex noIndex)
    · exact fun _ _ _ => rfl

/-- A specifier stays unresolved only if it names no file as it stands and, unless it is written with the
suffix of modules, neither a module nor a directory with an index. Where it is recognized which specifiers
denote directories, the first candidate that is there is taken. -/
theorem resolve_prefers (tree : Tree) (base : Path) (specifier : String) (outcome : Outcome)
    (told : resolve tree base specifier = .ok outcome) :
    (outcome = .unresolved → ¬ Stands tree base specifier ∧
      (¬ IsSuffixed specifier → ¬ HasModule tree base specifier ∧ ¬ HasIndex tree base specifier)) ∧
    (IsRecognized specifier → Preferred tree base specifier outcome) := by
  constructor
  · rintro rfl
    exact names_nothing_of_unresolved told
  · intro recognized
    exact preferred_of_resolve recognized told

/-- A directory with an index beside a module of the same name: without a slash the module is preferred, and
with a slash there is the index only. -/
theorem resolve_prefers_of_nested :
    Preferred nestedTree ⟨.root, ["p"]⟩ "./dist" (.replaced "./dist.js") ∧
      Preferred nestedTree ⟨.root, ["p"]⟩ "./dist/" (.replaced "./dist/index.js") :=
  ⟨(resolve_prefers nestedTree ⟨.root, ["p"]⟩ "./dist" _ (ok_of_toOption (by decide +kernel))).2 (by decide),
    (resolve_prefers nestedTree ⟨.root, ["p"]⟩ "./dist/" _ (ok_of_toOption (by decide +kernel))).2
      (by decide)⟩

/-- A directory with an index and a module beside it, both with the suffix of modules in the name of the
directory. -/
def suffixedTree : Tree :=
  ⟨[(["p"], .directory), (["p", "x.js"], .directory), (["p", "x.js", "index.js"], .file [] false),
    (["p", "x.js.js"], .file [] false)]⟩

/-- With the suffix of modules written, neither the module beside the directory nor its index is looked for. -/
theorem resolve_ignores_suffixed_directory :
    isRelativeSpecifier "./x.js" ∧ ¬ DenotesDirectory "./x.js" ∧
      resolve suffixedTree ⟨.root, ["p"]⟩ "./x.js" = .ok .unresolved ∧
      HasModule suffixedTree ⟨.root, ["p"]⟩ "./x.js" ∧ HasIndex suffixedTree ⟨.root, ["p"]⟩ "./x.js" := by
  refine ⟨by decide, by decide, ok_of_toOption ?_, ⟨by decide, ok_of_toOption ?_⟩, ok_of_toOption ?_,
    ok_of_toOption ?_⟩ <;>
    decide +kernel

end Specifier

end TreeBuild
