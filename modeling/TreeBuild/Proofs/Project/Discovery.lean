import Mathlib.Data.List.Forall2
import TreeBuild.Proofs.Tree.Named
import TreeBuild.Proofs.Tree.Resolution

/-!
# The sources that are found

What a pattern matches is resolved before it is listed, so its path has no two dots in it. The one
exception is an absolute path that matches nothing: it is listed as it was given.

A path without links and without special characters matches the one file that it leads to.
-/
namespace TreeBuild

/-- What answers after a question has answered the question too. -/
theorem exists_of_bind_eq_ok {Failure Answer Result : Type} {question : Except Failure Answer}
    {next : Answer → Except Failure Result} {result : Result}
    (told : (question >>= next) = .ok result) :
    ∃ answer, question = .ok answer ∧ next answer = .ok result := by
  cases question with
  | error failure => cases told
  | ok answer => exact ⟨answer, rfl, told⟩

/-- A question has the answer that is left when faults are forgotten. -/
theorem ok_of_toOption {Failure Answer : Type} {question : Except Failure Answer} {answer : Answer}
    (told : question.toOption = some answer) : question = .ok answer := by
  cases question with
  | error failure => cases told
  | ok other => exact congrArg Except.ok (Option.some.inj told)

/-- Questions to the items of a list that are all answered are answered one by one. -/
theorem forall₂_of_mapM {Item Answer Failure : Type} {question : Item → Except Failure Answer}
    {items : List Item} {answers : List Answer} (told : items.mapM question = .ok answers) :
    List.Forall₂ (fun item answer => question item = .ok answer) items answers := by
  induction items generalizing answers with
  | nil =>
    cases told
    exact .nil
  | cons item rest inductionHypothesis =>
    rw [List.mapM_cons] at told
    obtain ⟨first, firstTold, told⟩ := exists_of_bind_eq_ok told
    obtain ⟨others, othersTold, told⟩ := exists_of_bind_eq_ok told
    cases told
    exact .cons firstTold (inductionHypothesis othersTold)

/-- Where items are related to others one by one, each has its counterpart. -/
theorem exists_of_forall₂ {Item Other : Type} {relation : Item → Other → Prop} {items : List Item}
    {others : List Other} (each : List.Forall₂ relation items others) {item : Item}
    (member : item ∈ items) : ∃ other ∈ others, relation item other := by
  induction each with
  | nil => cases member
  | cons first _ inductionHypothesis =>
    rcases List.mem_cons.mp member with rfl | later
    · exact ⟨_, List.mem_cons_self, first⟩
    · obtain ⟨other, found, related⟩ := inductionHypothesis later
      exact ⟨other, List.mem_cons_of_mem _ found, related⟩

/-- A path that has been resolved. -/
structure Path.IsResolved (path : Path) : Prop where
  absolute : path.isAbsolute
  plain : path.IsPlain

/-- The source file at a path has this path. -/
@[simp]
theorem SourceFile.path_ofPath (layout : Layout) (path : Path) : (ofPath layout path).path = path :=
  rfl

/-- The dialect of the source file at a path is told by the path. -/
@[simp]
theorem SourceFile.dialect_ofPath (layout : Layout) (path : Path) :
    (ofPath layout path).dialect = Dialect.ofPath path :=
  rfl

namespace Sources

open SourceFile

/-- What resolving a path gives has been resolved. -/
theorem isResolved_of_resolvePath {tree : Tree} {path resolved : Path} (proper : path.IsProper)
    (told : resolvePath tree path = .ok resolved) : resolved.IsResolved := by
  unfold resolvePath at told
  dsimp only at told
  split at told
  · cases told
  split at told
  · cases told
  split at told
  · cases told
  · cases told
    exact ⟨rfl, tree.realPath_isPlain proper⟩

/-- Every path that is listed has been resolved. -/
theorem isResolved_of_addMatch {tree : Tree} {listed more : List Path} {text : String}
    (resolved : ∀ path ∈ listed, path.IsResolved) (added : addMatch tree listed text = .ok more) :
    ∀ path ∈ more, path.IsResolved := by
  obtain ⟨new, found, added⟩ := exists_of_bind_eq_ok added
  have isResolved := isResolved_of_resolvePath (Path.ofString_proper text) found
  split at added
  · cases added
    exact resolved
  · obtain ⟨isFile, -, added⟩ := exists_of_bind_eq_ok added
    cases isFile with
    | false =>
      cases added
      exact resolved
    | true =>
      cases added
      intro path member
      rcases List.mem_append.mp member with old | last
      · exact resolved path old
      · exact List.mem_singleton.mp last ▸ isResolved

/-- Every match that is listed has been resolved. -/
theorem isResolved_of_foldlM {tree : Tree} {texts : List String} {listed more : List Path}
    (resolved : ∀ path ∈ listed, path.IsResolved)
    (added : texts.foldlM (addMatch tree) listed = .ok more) : ∀ path ∈ more, path.IsResolved := by
  induction texts generalizing listed with
  | nil =>
    cases added
    exact resolved
  | cons text rest inductionHypothesis =>
    rw [List.foldlM_cons] at added
    obtain ⟨next, first, others⟩ := exists_of_bind_eq_ok added
    exact inductionHypothesis (isResolved_of_addMatch resolved first) others

/-- A source that is found has a resolved path, or the absolute one that was given. -/
theorem isResolved_of_discover {tree : Tree} {layout : Layout} {pattern : String}
    {files : List SourceFile} (found : discover tree layout pattern = .ok files) :
    ∀ file ∈ files, file.dialect = Dialect.ofPath file.path ∧
      (file.path.IsResolved ∨
        file.path = Path.ofString pattern ∧ (Path.ofString pattern).isAbsolute) := by
  obtain ⟨texts, -, found⟩ := exists_of_bind_eq_ok found
  obtain ⟨paths, listed, found⟩ := exists_of_bind_eq_ok found
  have resolved := isResolved_of_foldlM (by simp) listed
  split at found
  · rename_i given
    cases found
    intro file member
    rw [List.mem_singleton.mp member]
    have absolute : (Path.ofString pattern).isAbsolute := by
      simp only [Bool.and_eq_true] at given
      exact given.1.2
    rw [dialect_ofPath, path_ofPath]
    exact ⟨rfl, .inr ⟨rfl, absolute⟩⟩
  · cases found
    intro file member
    obtain ⟨path, listed, rfl⟩ := List.mem_map.mp member
    rw [dialect_ofPath, path_ofPath]
    exact ⟨rfl, .inl (resolved path listed)⟩

/-! ### A single file -/

section

variable {tree : Tree} {layout : Layout} {path : Path}

/-- Where there are no links, a path by names is resolved as it stands. -/
theorem eq_of_resolvePath {resolved : Path} (linkless : tree.Linkless) (rooted : path.anchor = .root)
    (plain : path.IsPlain) (told : resolvePath tree path = .ok resolved) : resolved = path := by
  have same : tree.realPath path = path := by
    rw [tree.realPath_of_unlinked plain (linkless.unlinked [] path.parts), ← rooted]
  unfold resolvePath at told
  dsimp only at told
  rw [same] at told
  split at told
  · cases told
  split at told
  · cases told
  split at told
  · cases told
  · exact (Except.ok.inj told).symm

/-- Where there are no links, a path by names that is short enough has been resolved already. -/
theorem resolvePath_of_fits (linkless : tree.Linkless) (rooted : path.anchor = .root)
    (plain : path.IsPlain) (fits : path.Fits) : resolvePath tree path = .ok path := by
  have same : tree.realPath path = path := by
    rw [tree.realPath_of_unlinked plain (linkless.unlinked [] path.parts), ← rooted]
  have noLoop := (linkless.unlinked [] path.parts).status_ne_tooManyLinks
  unfold resolvePath
  simp only [fits.nameable, fits.noNull, same, Bool.false_eq_true, if_false]

/-- What is at a path by names is resolved as it stands where no link is met on the way to it. -/
theorem resolvePath_of_unlinked (unlinked : tree.Unlinked [] path.parts) (rooted : path.anchor = .root)
    (plain : path.IsPlain) {entry : Entry} (present : tree.status path = .ok entry) :
    resolvePath tree path = .ok path := by
  have same : tree.realPath path = path := by
    rw [tree.realPath_of_unlinked plain unlinked, ← rooted]
  obtain ⟨fits, -, -⟩ := (Tree.status_iff plain unlinked).mp present
  unfold resolvePath
  simp only [fits.nameable, fits.noNull, same, present, Bool.false_eq_true, if_false]

/-- What is at a path by names has been resolved already. -/
theorem resolvePath_of_status (linkless : tree.Linkless) (rooted : path.anchor = .root)
    (plain : path.IsPlain) {entry : Entry} (present : tree.status path = .ok entry) :
    resolvePath tree path = .ok path :=
  resolvePath_of_unlinked (linkless.unlinked [] path.parts) rooted plain present

/-- The text of a path by names leads to the location of these names, if it leads anywhere. -/
theorem entryOfText?_toString (unlinked : tree.Unlinked [] path.parts) (rooted : path.anchor = .root)
    (plain : path.IsPlain) (nonempty : path.parts ≠ []) :
    tree.entryOfText? path.toString =
      match tree.locatePath .entry path with
      | .error _ => none
      | .ok _ => tree.get? path.parts := by
  have absolute : path.isAbsolute := by simp [Path.isAbsolute, rooted]
  have same : tree.locate .entry path.toString (Tree.systemParts path.toString) =
      tree.locatePath .entry path := by
    rw [Tree.systemParts_toString absolute plain.proper nonempty]
    rfl
  unfold Tree.entryOfText?
  rw [same]
  cases found : tree.locatePath .entry path with
  | error refusal => rfl
  | ok location => rw [((Tree.locatePath_iff plain unlinked).mp found).1]

/-- A path in which every character stands for itself matches what is there and nothing else. -/
theorem matchesOf_of_literal (rooted : path.anchor = .root) (plain : path.IsPlain)
    (nonempty : path.parts ≠ []) (literal : Glob.hasMagic path.toString = false) :
    matchesOf tree layout path.toString =
      .ok (if (tree.entryOfText? path.toString).isSome then [path.toString] else []) := by
  have absolute : path.isAbsolute := by simp [Path.isAbsolute, rooted]
  obtain ⟨c, last, noSlash⟩ := Path.getLast?_toString absolute plain.proper nonempty
  have named : (Glob.splitLast path.toString).2 ≠ "" := by
    obtain ⟨front, letters⟩ := List.getLast?_eq_some_iff.mp last
    simp [Glob.splitLast, letters, noSlash]
  have alone : Glob.joinNonempty "" path.toString = path.toString := by simp [Glob.joinNonempty]
  have expanded : Glob.expandFrom tree "" (path.toString.length + 1) false path.toString =
      .ok (if (tree.entryOfText? path.toString).isSome then [path.toString] else []) := by
    rw [Glob.expandFrom]
    simp only [literal, named, alone, Bool.not_false, if_true, if_false]
  have notDeep : ¬ (path.toString = "" ∨ Glob.anyDepth.toList <+: path.toString.toList) := by
    rw [← String.toList_eq_nil_iff, Path.toList_toString_of_isAbsolute absolute, rooted]
    simp [Path.anchorText, Glob.anyDepth]
  have given : Path.ofString path.toString = path := Path.ofString_toString absolute plain.proper
  unfold matchesOf Glob.expand
  rw [given, if_pos absolute, expanded]
  simp [notDeep, bind, Except.bind, pure, Except.pure, Except.mapError]

/-- A file that is named by its path is the source that is found, wherever links lead elsewhere. -/
theorem discover_of_unlinked (unlinked : tree.Unlinked [] path.parts) (rooted : path.anchor = .root)
    (plain : path.IsPlain) (nonempty : path.parts ≠ []) (literal : Glob.hasMagic path.toString = false)
    (isFile : tree.isFile path = .ok true) :
    discover tree layout path.toString = .ok [ofPath layout path] := by
  obtain ⟨content, executable, present⟩ := Tree.isFile_iff.mp isFile
  have absolute : path.isAbsolute := by simp [Path.isAbsolute, rooted]
  have given : Path.ofString path.toString = path := Path.ofString_toString absolute plain.proper
  have found : (tree.entryOfText? path.toString).isSome := by
    obtain ⟨fits, reaches, here⟩ := (Tree.status_iff plain unlinked).mp present
    rw [entryOfText?_toString unlinked rooted plain nonempty,
      (Tree.locatePath_iff plain unlinked).mpr ⟨rfl, fits, reaches⟩, here]
    rfl
  have added : addMatch tree [] path.toString = .ok [path] := by
    unfold addMatch
    rw [given, resolvePath_of_unlinked unlinked rooted plain present]
    simp [bind, Except.bind, pure, Except.pure, isFile, Except.mapError]
  unfold discover
  rw [matchesOf_of_literal rooted plain nonempty literal, found]
  simp [bind, Except.bind, pure, Except.pure, Text.sorted, Text.insertSorted, added]

/-- A path that is written out is kept as a source even if nothing is there. -/
theorem discover_of_absent (unlinked : tree.Unlinked [] path.parts) (rooted : path.anchor = .root)
    (plain : path.IsPlain) (nonempty : path.parts ≠ []) (literal : Glob.hasMagic path.toString = false)
    (absent : tree.get? path.parts = none) :
    discover tree layout path.toString = .ok [ofPath layout path] := by
  have absolute : path.isAbsolute := by simp [Path.isAbsolute, rooted]
  have given : Path.ofString path.toString = path := Path.ofString_toString absolute plain.proper
  have lost : tree.entryOfText? path.toString = none := by
    rw [entryOfText?_toString unlinked rooted plain nonempty, absent]
    split <;> rfl
  unfold discover
  rw [matchesOf_of_literal rooted plain nonempty literal, lost]
  simp [bind, Except.bind, pure, Except.pure, Text.sorted, given, absolute, literal]

/-- A file that is named by its path is the source that is found. -/
theorem discover_of_isFile (linkless : tree.Linkless) (rooted : path.anchor = .root)
    (plain : path.IsPlain) (nonempty : path.parts ≠ []) (literal : Glob.hasMagic path.toString = false)
    (isFile : tree.isFile path = .ok true) :
    discover tree layout path.toString = .ok [ofPath layout path] :=
  discover_of_unlinked (linkless.unlinked [] path.parts) rooted plain nonempty literal isFile

end

end Sources

end TreeBuild
