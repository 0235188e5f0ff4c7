import TreeBuild.Proofs.Project.Everything

/-!
# When the search for sources answers

The system refuses to look up a path only if it cannot take the path at all: the path is too long, or has a
character that no path has. The search for sources passes over a directory whose path is refused, but it is
asked about every match whether that is a file, and there a refusal is a fault. Each match leads to something
in the tree. So the search answers where the system takes the path of everything that is not hidden below the
sources; and only there, since above the first path that is refused everything is found.
-/
namespace TreeBuild

open TreeBuild.Tree TreeBuild.Path

/-- A tree in which the system takes the path of everything that is there. -/
def Tree.Addressable (tree : Tree) : Prop :=
  ∀ location entry, tree.get? location = some entry → (Path.mk .root location).Fits

/-- The system takes the path of everything in a tree if it takes that of each of its entries. -/
theorem Tree.addressable_of_entries {tree : Tree} (top : (Path.mk .root []).Fits)
    (each : ∀ item ∈ tree.entries, (Path.mk .root item.1).Fits) : tree.Addressable := by
  intro location entry present
  by_cases inside : location = []
  · exact inside ▸ top
  · exact each _ (mem_entries_of_get? present inside)

/-- A question that has an answer. -/
def Answered {Answer Failure : Type} (question : Except Failure Answer) : Prop :=
  ∃ answer, question = .ok answer

namespace Answered

variable {Item Answer Result Failure : Type}

/-- What is answered already has an answer. -/
theorem ok {answer : Answer} : Answered (.ok answer : Except Failure Answer) := ⟨answer, rfl⟩

/-- A question that follows another one has an answer if it has one for what the first one tells. -/
theorem bind {question : Except Failure Answer} {next : Answer → Except Failure Result}
    (first : Answered question) (second : ∀ answer, question = .ok answer → Answered (next answer)) :
    Answered (question >>= next) := by
  obtain ⟨answer, told⟩ := first
  obtain ⟨result, further⟩ := second answer told
  exact ⟨result, by rw [told]; exact further⟩

/-- Two questions are answered one behind the other exactly if the first is, and then the second. -/
theorem bind_iff {question : Except Failure Answer} {next : Answer → Except Failure Result} :
    Answered (question >>= next) ↔ ∃ answer, question = .ok answer ∧ Answered (next answer) := by
  constructor
  · rintro ⟨result, told⟩
    obtain ⟨answer, first, second⟩ := exists_of_bind_eq_ok told
    exact ⟨answer, first, result, second⟩
  · rintro ⟨answer, first, second⟩
    exact bind ⟨answer, first⟩ fun other same => by cases first.symm.trans same; exact second

/-- How a failure is told does not matter. -/
theorem mapError_iff {Told : Type} {tell : Failure → Told} {question : Except Failure Answer} :
    Answered (question.mapError tell) ↔ Answered question := by
  cases question with
  | ok answer => exact ⟨fun _ => .ok, fun _ => .ok⟩
  | error failure =>
    constructor <;> rintro ⟨_, told⟩ <;> cases told

/-- Questions to the items of a list have answers together if each of them has one. -/
theorem mapM {question : Item → Except Failure Answer} {items : List Item}
    (each : ∀ item ∈ items, Answered (question item)) : Answered (items.mapM question) := by
  induction items with
  | nil => exact ok
  | cons item rest inductionHypothesis =>
    rw [List.mapM_cons]
    exact (each item List.mem_cons_self).bind fun _ _ =>
      (inductionHypothesis fun other member => each other (List.mem_cons_of_mem _ member)).bind
        fun _ _ => ok

/-- They have answers together only if each of them has one. -/
theorem mapM_iff {question : Item → Except Failure Answer} {items : List Item} :
    Answered (items.mapM question) ↔ ∀ item ∈ items, Answered (question item) := by
  refine ⟨fun ⟨answers, told⟩ item member => ?_, mapM⟩
  obtain ⟨answer, -, same⟩ := exists_of_forall₂ (forall₂_of_mapM told) member
  exact ⟨answer, same⟩

/-- So have steps that are taken with the items of a list one after another. -/
theorem foldlM {step : Answer → Item → Except Failure Answer} {items : List Item}
    (each : ∀ item ∈ items, ∀ state, Answered (step state item)) (start : Answer) :
    Answered (items.foldlM step start) := by
  induction items generalizing start with
  | nil => exact ok
  | cons item rest inductionHypothesis =>
    rw [List.foldlM_cons]
    exact (each item List.mem_cons_self start).bind fun next _ =>
      inductionHypothesis (fun other member => each other (List.mem_cons_of_mem _ member)) next

end Answered

namespace Tree

variable {tree : Tree}

/-- No name on the way through a tree is refused for a null character. -/
theorem advance_ne_nullCharacter (tree : Tree) (goal : Goal) (location : Location) (parts : List String) :
    tree.advance goal location parts ≠ .error .nullCharacter := by
  intro refused
  simpa using refusal_of_advance refused

/-- Neither is the way through links refused for a null character. -/
theorem walk_ne_nullCharacter (tree : Tree) (goal : Goal) (links : Nat) (location : Location)
    (parts : List String) : tree.walk goal links location parts ≠ .error .nullCharacter := by
  induction links generalizing location parts with
  | zero =>
    rw [walk]
    split
    · rename_i refusal told
      rintro ⟨⟩
      exact tree.advance_ne_nullCharacter goal location parts told
    · simp
    · simp
  | succ links inductionHypothesis =>
    rw [walk]
    split
    · rename_i refusal told
      rintro ⟨⟩
      exact tree.advance_ne_nullCharacter goal location parts told
    · simp
    · exact inductionHypothesis _ _

/-- A text is refused for a null character only if it has one. -/
theorem locate_ne_nullCharacter {text : String} (noNull : '\x00' ∉ text.toList) (goal : Goal)
    (parts : List String) : tree.locate goal text parts ≠ .error .nullCharacter := by
  unfold locate
  split
  · simp
  split
  · rename_i contains
    exact absurd (by simpa using contains) noNull
  split
  · simp
  · exact tree.walk_ne_nullCharacter goal maxLinks [] parts

end Tree

namespace Glob

variable {tree : Tree} {text : String} {names : List String} {onlyDirectories : Bool}

/-- A text that is put together has no null character if neither part has. -/
theorem noNull_joinText {first second : String} (before : '\x00' ∉ first.toList)
    (behind : '\x00' ∉ second.toList) : '\x00' ∉ (joinText first second).toList := by
  unfold joinText
  split
  · exact behind
  split
  · simp [before, behind]
  · simp [before, behind]

/-- Neither has one that leaves an empty part out. -/
theorem noNull_joinNonempty {first second : String} (before : '\x00' ∉ first.toList)
    (behind : '\x00' ∉ second.toList) : '\x00' ∉ (joinNonempty first second).toList := by
  unfold joinNonempty
  split
  · exact behind
  split
  · exact before
  · exact noNull_joinText before behind

/-- The names in a directory are told, even where there is no directory. -/
theorem namesIn_answers (tree : Tree) (noNull : '\x00' ∉ text.toList) (onlyDirectories : Bool) :
    Answered (namesIn tree text onlyDirectories) := by
  unfold namesIn
  split
  · rename_i refused
    exact absurd refused (locate_ne_nullCharacter noNull _ _)
  · exact .ok
  · split <;> exact .ok

/-- The system takes the path of everything below a place to which no hidden name leads. -/
def TakesBelow (tree : Tree) (path : Path) : Prop :=
  ∀ parts, parts ≠ [] → (∀ part ∈ parts, isHidden part = false) →
    (tree.get? (path.parts ++ parts)).isSome → (path.below parts).Fits

/-- It takes them if it takes the path of everything. -/
theorem takesBelow_of_addressable (addressable : tree.Addressable) {path : Path} (rooted : path.anchor = .root) :
    TakesBelow tree path := by
  intro parts nonempty shown present
  obtain ⟨entry, present⟩ := Option.isSome_iff_exists.mp present
  have fits := addressable _ _ present
  rwa [← rooted] at fits

section

variable {path : Path}

/-- What a walk answers has no null character. -/
theorem noNull_of_mem_namesBelow (regular : tree.IsRegular) {fuel : Nat} (rooted : path.anchor = .root)
    (plain : path.IsPlain) (nonempty : path.parts ≠ []) (takes : TakesBelow tree path)
    (told : namesBelow tree onlyDirectories fuel path.toString = .ok names) :
    ∀ name ∈ names, '\x00' ∉ name.toList := by
  intro name member
  obtain ⟨dirs, some, rfl, shown, present⟩ :=
    present_of_mem_namesBelow regular rooted plain nonempty told name member
  have noNull := (takes dirs some (fun part inside => (shown part inside).2) present).noNull
  rw [toString_below rooted plain nonempty (fun part inside => (shown part inside).1.toIsPart) some,
    String.toList_append, List.contains_append, Bool.or_eq_false_iff] at noNull
  simpa using noNull.2

/-- The walk through the directories below a place answers. -/
theorem namesBelow_answers (regular : tree.IsRegular) (onlyDirectories : Bool) (fuel : Nat)
    (rooted : path.anchor = .root) (plain : path.IsPlain) (nonempty : path.parts ≠ [])
    (noNull : '\x00' ∉ path.toString.toList) (takes : TakesBelow tree path) :
    Answered (namesBelow tree onlyDirectories fuel path.toString) := by
  induction fuel generalizing path with
  | zero => exact .ok
  | succ fuel inductionHypothesis =>
    rw [namesBelow]
    refine (namesIn_answers tree noNull onlyDirectories).bind fun listed first =>
      Answered.bind (.mapM fun name member => ?_) fun _ _ => .ok
    obtain ⟨inside, shown⟩ := List.mem_filter.mp member
    have isShown : isHidden name = false := by simpa using shown
    obtain ⟨isName, present, joined⟩ := present_of_mem_namesIn regular rooted plain nonempty first inside
    have fits : (path.below [name]).Fits :=
      takes [name] (by simp) (fun part found => List.mem_singleton.mp found ▸ isShown) present
    have further : TakesBelow tree (path.below [name]) := by
      intro parts _ shownParts there
      rw [below_below]
      refine takes ([name] ++ parts) (by simp) (fun part found => ?_) (by simpa using there)
      rcases List.mem_append.mp found with first | later
      · exact List.mem_singleton.mp first ▸ isShown
      · exact shownParts part later
    rw [joined]
    exact (@inductionHypothesis (path.below [name]) rooted (isPlain_below_name plain isName) (by simp)
      (by simpa using fits.noNull) further).bind fun _ _ => .ok

end

/-- The search below the sources answers. -/
theorem expand_answers (regular : tree.IsRegular) {root : Path} (rooted : root.anchor = .root)
    (plain : root.IsPlain) (noNull : '\x00' ∉ root.toString.toList)
    (takes : TakesBelow tree (root.below ["src"])) :
    Answered (expand tree root.toString "src/**/*") := by
  have source : IsName "src" := by decide
  have plainSource := isPlain_below_name plain source
  have text := joinNonempty_name rooted plain source
  have top : '\x00' ∉ (root.below ["src"]).toString.toList := text ▸ noNull_joinNonempty noNull (by decide)
  rw [expand_eq, text]
  refine (@namesBelow_answers tree (root.below ["src"]) regular true _ rooted plainSource (by simp) top
    takes).bind fun dirs told => Answered.bind (.mapM fun place member => ?_) fun _ _ => .ok
  -- the empty name stands for the sources themselves
  have noNullPlace : '\x00' ∉ place.toList := by
    rcases List.mem_cons.mp member with rfl | below
    · decide
    · exact @noNull_of_mem_namesBelow tree dirs true (root.below ["src"]) regular _ rooted plainSource (by simp)
        takes told place below
  exact (namesIn_answers tree (noNull_joinNonempty noNull (noNull_joinText (by decide) noNullPlace)) false).bind
    fun _ _ => .ok

end Glob

namespace Sources

variable {tree : Tree} {root : Path}

/-- A path that the system takes is resolved, and can be asked whether it is a file. -/
theorem addMatch_answers (regular : tree.IsRegular) {path : Path} (rooted : path.anchor = .root)
    (plain : path.IsPlain) (fits : path.Fits) (present : (tree.get? path.parts).isSome)
    (listed : List Path) : Answered (addMatch tree listed path.toString) := by
  obtain ⟨entry, present⟩ := Option.isSome_iff_exists.mp present
  have absolute : path.isAbsolute := by simp [isAbsolute, rooted]
  have status := (regular.status_iff plain).mpr ⟨fits, present⟩
  have told : tree.isFile path = .ok entry.isFile := by
    rw [Tree.isFile, probe, status]
  unfold addMatch
  rw [ofString_toString absolute plain.proper, resolvePath_of_fits regular.linkless rooted plain fits]
  refine Answered.bind .ok fun _ same => ?_
  cases same
  split
  · exact .ok
  · rw [told]
    refine Answered.bind .ok fun _ _ => ?_
    split <;> exact .ok

/-- The search for all sources answers if the system takes the path of everything that is not hidden below
them. -/
theorem discover_answers (regular : tree.IsRegular) (rooted : root.anchor = .root) (plain : root.IsPlain)
    (fits : root.Fits) (takes : Glob.TakesBelow tree (Layout.ofRoot root).sources) :
    Answered (discover tree (Layout.ofRoot root) "src/**/*") := by
  rw [sources_eq] at takes
  have relative : (ofString "src/**/*").isAbsolute = false := by decide
  have noNull : '\x00' ∉ root.toString.toList := by simpa using fits.noNull
  obtain ⟨found, expanded⟩ := Glob.expand_answers regular rooted plain noNull takes
  have matched : matchesOf tree (Layout.ofRoot root) "src/**/*" =
      .ok (found.map fun text : String => (root / text).toString) := by
    rw [matchesOf, if_neg (by simp [relative])]
    change (Except.mapError Fault.file (Glob.expand tree root.toString "src/**/*") >>= _) = _
    rw [expanded]
    rfl
  unfold discover
  rw [matched]
  refine Answered.bind .ok fun texts same => ?_
  cases same
  refine Answered.bind (.foldlM (fun text member listed => ?_) []) fun paths _ => ?_
  · obtain ⟨spelling, inside, rfl⟩ := List.mem_map.mp (Glob.mem_sorted.mp member)
    obtain ⟨parts, nonempty, rfl, shown, present⟩ :=
      Glob.present_of_mem_expand regular rooted plain expanded inside
    obtain ⟨plainBelow, text, -⟩ := ofString_match rooted plain shown
    have taken := takes parts nonempty (fun part found => (shown part found).2) (by simpa using present)
    rw [below_below] at taken
    rw [text]
    exact @addMatch_answers tree regular (root.below ("src" :: parts)) rooted plainBelow taken present listed
  · split <;> exact .ok

end Sources

end TreeBuild
