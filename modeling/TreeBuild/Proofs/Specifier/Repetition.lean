import TreeBuild.Proofs.Session.Ends
import TreeBuild.Proofs.Session.Reading
import TreeBuild.Proofs.Specifier.Scanning
import TreeBuild.Proofs.Specifier.Targets
import TreeBuild.Proofs.Text.Encoding
import TreeBuild.Proofs.Tree.Kinds
import TreeBuild.Specifier.Files

/-!
# Rewriting specifiers twice

Whatever a specifier is replaced by ends with the suffix of compiled modules, and a specifier with this
suffix is either left alone or not resolved. The clauses of the new text are those of the old one, with
other specifiers. So a second pass over a text finds the same clauses and changes none of them, as long as
the same files and directories are there; and a second pass over a file does not write it, because the
file holds, line ends included, what the first pass has written or left.
-/
namespace TreeBuild

/-- Two trees have files and directories at the same paths. -/
def Tree.SameKinds (tree other : Tree) : Prop :=
  ∀ path, other.isFile path = tree.isFile path ∧ other.isDirectory path = tree.isDirectory path

/-- A tree has the same kinds as itself. -/
theorem Tree.SameKinds.refl (tree : Tree) : tree.SameKinds tree := fun _ => ⟨rfl, rfl⟩

/-- Trees that have the same kinds as a third one between them have the same kinds. -/
theorem Tree.SameKinds.trans {tree other another : Tree} (first : tree.SameKinds other)
    (second : other.SameKinds another) : tree.SameKinds another := fun path =>
  ⟨(second path).1.trans (first path).1, (second path).2.trans (first path).2⟩

/-- Trees that are alike have the same kinds. -/
theorem Tree.Alike.sameKinds {tree other : Tree} (alike : tree.Alike other) :
    tree.SameKinds other := fun path => ⟨alike.isFile path, alike.isDirectory path⟩

namespace Specifier

variable {tree other : Tree} {base : Path} {specifier : String}

/-! ### Specifiers -/

/-- Only which files and directories there are counts for the resolution of specifiers. -/
theorem resolve_congr (same : tree.SameKinds other) (base : Path) (specifier : String) :
    resolve other base specifier = resolve tree base specifier := by
  simp only [resolve, moduleExists, indexExists, (same _).1, (same _).2]

/-- The change of a segment depends on the kinds in a tree alone. -/
theorem changeSegment_congr (same : tree.SameKinds other) (base : Path) (label : String)
    (segment : Text.Segment Clause) :
    changeSegment other base label segment = changeSegment tree base label segment := by
  cases segment with
  | char => rfl
  | found clause => simp only [changeSegment, changeClause, resolve_congr same]

/-- So does the rewriting of a text. -/
theorem normalizeText_congr (same : tree.SameKinds other) (base : Path) (label text : String) :
    normalizeText other base label text = normalizeText tree base label text := by
  have each : changeSegment other base label = changeSegment tree base label :=
    funext (changeSegment_congr same base label)
  simp only [normalizeText, each]

/-- What a specifier is replaced by ends with the suffix of compiled modules. -/
theorem suffix_of_replaced {replacement : String}
    (resolves : Resolves tree base specifier (.replaced replacement)) :
    Layout.compiledSuffix.toList <:+ replacement.toList := by
  cases resolves with
  | sibling => exact ⟨specifier.toList, (String.toList_append ..).symm⟩
  | index =>
    refine ⟨((stem specifier).toList ++ ['/']) ++ "index".toList, ?_⟩
    simp [indexName, Layout.compiledSuffix]

/-- What a specifier is replaced by is free of quotes and line ends if the specifier is. -/
theorem clean_of_replaced {replacement : String}
    (resolves : Resolves tree base specifier (.replaced replacement))
    (clean : ∀ c ∈ specifier.toList, Clause.endsSpecifier c = false) :
    ∀ c ∈ replacement.toList, Clause.endsSpecifier c = false := by
  cases resolves with
  | sibling =>
    rw [String.toList_append]
    exact List.forall_mem_append.mpr ⟨clean, by decide⟩
  | index =>
    obtain ⟨count, whole⟩ := stem_append specifier
    rw [whole] at clean
    rw [String.toList_append, String.toList_append]
    refine List.forall_mem_append.mpr ⟨List.forall_mem_append.mpr ⟨?_, by decide⟩, by decide⟩
    exact (List.forall_mem_append.mp clean).1

/-- A specifier with the suffix of compiled modules is left as it is. -/
theorem not_replaced_of_suffix (suffix : Layout.compiledSuffix.toList <:+ specifier.toList)
    {replacement : String} : ¬ Resolves tree base specifier (.replaced replacement) := by
  intro resolves
  cases resolves with
  | sibling noSuffix => exact noSuffix suffix
  | index noSuffix => exact noSuffix suffix

/-- A clause stays as it is, or its specifier is replaced by what it resolves to. -/
theorem changeClause_cases {label : String} {clause : Clause} {change : Change}
    (told : changeClause tree base label clause = .ok change) :
    change.text = clause.text ∧ change.rewritten = false ∨
      ∃ replacement, Resolves tree base (String.ofList clause.specifier) (.replaced replacement) ∧
        change.text = { clause with specifier := replacement.toList : Clause }.text := by
  unfold changeClause at told
  dsimp only at told
  split at told
  · cases told
    exact .inl ⟨rfl, rfl⟩
  · obtain ⟨outcome, resolved, told⟩ := exists_of_bind_eq_ok told
    cases outcome with
    | asIs | unresolved =>
      cases told
      exact .inl ⟨rfl, rfl⟩
    | replaced replacement =>
      dsimp only at told
      split at told
      · cases told
        exact .inl ⟨rfl, rfl⟩
      · cases told
        exact .inr ⟨replacement, resolves_of_resolve resolved, rfl⟩

/-- The label of a file only tells where a specifier does not resolve. -/
theorem changeClause_label {label another : String} {clause : Clause} {change again : Change}
    (told : changeClause tree base label clause = .ok change)
    (toldAgain : changeClause tree base another clause = .ok again) :
    again.text = change.text ∧ again.rewritten = change.rewritten := by
  unfold changeClause at told toldAgain
  dsimp only at told toldAgain
  split at told
  · rename_i absolute
    rw [if_pos absolute] at toldAgain
    cases told
    cases toldAgain
    exact ⟨rfl, rfl⟩
  · rename_i relative
    rw [if_neg relative] at toldAgain
    obtain ⟨outcome, resolved, told⟩ := exists_of_bind_eq_ok told
    obtain ⟨same, resolvedAgain, toldAgain⟩ := exists_of_bind_eq_ok toldAgain
    obtain rfl : outcome = same := Except.ok.inj (resolved.symm.trans resolvedAgain)
    cases outcome with
    | asIs | unresolved =>
      cases told
      cases toldAgain
      exact ⟨rfl, rfl⟩
    | replaced replacement =>
      dsimp only at told toldAgain
      split at told
      · rename_i equal
        rw [if_pos equal] at toldAgain
        cases told
        cases toldAgain
        exact ⟨rfl, rfl⟩
      · rename_i different
        rw [if_neg different] at toldAgain
        cases told
        cases toldAgain
        exact ⟨rfl, rfl⟩

/-- What comes of a segment: the same segment, perhaps with another specifier, which another pass leaves
alone. -/
structure Settles (tree : Tree) (base : Path) (segment : Text.Segment Clause)
    (change : Change) (settled : Text.Segment Clause) : Prop where
  respecified : Clause.Respecified segment settled
  text : change.text = Clause.textOf [settled]
  again : ∀ label another, changeSegment tree base label settled = .ok another →
    another.text = change.text ∧ another.rewritten = false

/-- A clause alone is spelled as its own text. -/
theorem textOf_found (clause : Clause) : Clause.textOf [.found clause] = clause.text := by
  simp [Clause.textOf, Text.render]

/-- The change of a segment settles it. -/
theorem exists_settles {label : String} {segment : Text.Segment Clause} {change : Change}
    (written : ∀ clause, segment = .found clause → clause.IsWritten)
    (told : changeSegment tree base label segment = .ok change) :
    ∃ settled, Settles tree base segment change settled := by
  cases segment with
  | char c =>
    cases told
    refine ⟨.char c, .char c, rfl, fun _ another same => ?_⟩
    cases same
    exact ⟨rfl, rfl⟩
  | found clause =>
    have written := written clause rfl
    rcases changeClause_cases told with ⟨text, unchanged⟩ | ⟨replacement, resolves, text⟩
    · refine ⟨.found clause, .found clause written.nonempty written.specifier,
        text.trans (textOf_found clause).symm, fun _ another again => ?_⟩
      obtain ⟨sameText, sameCount⟩ := changeClause_label told again
      exact ⟨sameText, sameCount.trans unchanged⟩
    · have suffix := suffix_of_replaced resolves
      have nonempty : replacement.toList ≠ [] := by
        intro none
        rw [none] at suffix
        exact absurd (List.suffix_nil.mp suffix) (by decide)
      have clean := clean_of_replaced resolves
        (by simpa using written.specifier)
      refine ⟨.found { clause with specifier := replacement.toList }, .found clause nonempty clean,
        text.trans (textOf_found _).symm, fun _ another again => ?_⟩
      rcases changeClause_cases again with ⟨textAgain, unchanged⟩ | ⟨more, resolvesMore, -⟩
      · exact ⟨textAgain.trans text.symm, unchanged⟩
      · refine absurd resolvesMore (not_replaced_of_suffix ?_)
        rw [String.toList_ofList]
        exact suffix

/-! ### Texts -/

/-- What comes of the segments of a text, with the account of what another pass does to them. -/
theorem exists_settled {label : String} {segments : List (Text.Segment Clause)}
    {changes : List Change} (written : ∀ clause, .found clause ∈ segments → clause.IsWritten)
    (each : List.Forall₂
      (fun segment change => changeSegment tree base label segment = .ok change) segments changes) :
    ∃ settled, List.Forall₂ Clause.Respecified segments settled ∧
      changes.flatMap (·.text) = Clause.textOf settled ∧
      ∀ another others, List.Forall₂
          (fun segment change => changeSegment tree base another segment = .ok change) settled others →
        others.flatMap (·.text) = changes.flatMap (·.text) ∧ others.countP (·.rewritten) = 0 := by
  induction each with
  | nil =>
    refine ⟨[], .nil, rfl, fun _ others again => ?_⟩
    cases again
    exact ⟨rfl, rfl⟩
  | cons told _ inductionHypothesis =>
    obtain ⟨settled, respecified, text, again⟩ :=
      inductionHypothesis fun clause member => written clause (List.mem_cons_of_mem _ member)
    obtain ⟨first, settles⟩ := exists_settles
      (fun clause same => written clause (same ▸ List.mem_cons_self)) told
    refine ⟨first :: settled, .cons settles.respecified respecified, ?_, fun _ others toldAgain => ?_⟩
    · rw [List.flatMap_cons, text, settles.text]
      simp [Clause.textOf, Text.render]
    · cases toldAgain with
      | cons firstAgain othersAgain =>
        obtain ⟨textFirst, unchanged⟩ := settles.again _ _ firstAgain
        obtain ⟨textOthers, none⟩ := again _ _ othersAgain
        refine ⟨?_, ?_⟩
        · rw [List.flatMap_cons, List.flatMap_cons, textFirst, textOthers]
        · simp [none, unchanged]

/-- What is known of a text whose specifiers have been rewritten. -/
structure Rewrites (tree : Tree) (base : Path) (text : String) (normalized : Normalized) : Prop where
  /-- Its clauses are those of the text, with other specifiers. -/
  respecified : ∃ settled,
    List.Forall₂ Clause.Respecified (Text.segments Clause.pattern text.toList) settled ∧
      normalized.text.toList = Clause.textOf settled
  /-- Another pass leaves it as it is and rewrites nothing. -/
  again : ∀ label another, normalizeText tree base label normalized.text = .ok another →
    another.text = normalized.text ∧ another.rewritten = 0

/-- The rewriting of a text rewrites its clauses. -/
theorem rewrites_of_normalizeText {label text : String} {normalized : Normalized}
    (told : normalizeText tree base label text = .ok normalized) :
    Rewrites tree base text normalized := by
  unfold normalizeText at told
  obtain ⟨changes, changed, told⟩ := exists_of_bind_eq_ok told
  cases told
  have scanned := Clause.scanned_segmentsFrom none text.toList
  obtain ⟨settled, respecified, same, again⟩ :=
    exists_settled (fun _ member => scanned.isWritten member) (forall₂_of_mapM changed)
  refine ⟨⟨settled, respecified, by simp [same]⟩, fun _ another toldAgain => ?_⟩
  unfold normalizeText at toldAgain
  obtain ⟨others, changedAgain, toldAgain⟩ := exists_of_bind_eq_ok toldAgain
  cases toldAgain
  rw [String.toList_ofList, same, Clause.segments_textOf respecified] at changedAgain
  obtain ⟨texts, none⟩ := again _ others (forall₂_of_mapM changedAgain)
  exact ⟨congrArg String.ofList texts, none⟩

/-- Rewriting brings in no carriage return. -/
theorem Rewrites.notMem {text : String} {normalized : Normalized}
    (rewrites : Rewrites tree base text normalized) (none : '\r' ∉ text.toList) :
    '\r' ∉ normalized.text.toList := by
  obtain ⟨settled, respecified, same⟩ := rewrites.respecified
  intro member
  rw [same] at member
  refine none ?_
  rw [← (Clause.scanned_segmentsFrom Option.none text.toList).textOf_eq]
  exact Clause.mem_textOf_respecified respecified (by decide) member

/-- Once the specifiers of a text have been rewritten, rewriting them again leaves the text as it is and
counts no rewrite. -/
theorem normalizeText_again (same : tree.SameKinds other) {label another text : String}
    {first second : Normalized} (told : normalizeText tree base label text = .ok first)
    (again : normalizeText other base another first.text = .ok second) :
    second.text = first.text ∧ second.rewritten = 0 := by
  rw [normalizeText_congr same] at again
  exact (rewrites_of_normalizeText told).again another second again

/-! ### Files -/

/-- What rewriting the specifiers of a file does apart from writing the file. -/
def inspectFile (path : Path) (source : Option SourceFile) : Action FileResult := do
  let text ← Action.readText path
  let normalized ← Action.ask fun tree => normalizeText tree path.parent path.toString text
  for unresolved in normalized.unresolved do
    Action.record logSource .warning unresolved.message
  return {
    path, source
    specifiers := specifiers normalized.text
    rewritten := normalized.rewritten
    unresolved := normalized.unresolved }

/-- Looking into a file leaves the tree alone. -/
theorem inspectFile_keeps (path : Path) (source : Option SourceFile) (held : Tree) :
    Keeps (fun session => session.tree = held) (inspectFile path source) := by
  unfold inspectFile
  refine (Keeps.readText path).bind fun text => (Keeps.ask _).bind fun normalized => ?_
  refine Keeps.bind (Keeps.forIn fun unresolved _ => ?_) fun _ => Keeps.pure
  exact Keeps.record (fun _ _ holds => holds) _ _ _

/-- The tree is the same after a file has been looked into. -/
theorem inspectFile_apply_tree (path : Path) (source : Option SourceFile) (session : Session) :
    (inspectFile path source session).2.tree = session.tree := by
  have kept := (inspectFile_keeps path source session.tree).outcome session rfl
  rcases run : inspectFile path source session with ⟨answer | answer, final⟩ <;>
    simpa [run] using kept

/-- A file in which no specifier is replaced is not written. -/
theorem normalizeFile_apply_of_untouched {path : Path} (source : Option SourceFile) {session : Session}
    (untouched : ∀ text normalized, Session.textAt session.tree path = .ok text →
      normalizeText session.tree path.parent path.toString text = .ok normalized →
      normalized.rewritten = 0) :
    normalizeFile path source session = inspectFile path source session := by
  unfold normalizeFile inspectFile
  rw [bind_apply, bind_apply, Action.readText_apply]
  cases read : Session.textAt session.tree path with
  | error fault => rfl
  | ok text =>
    dsimp only
    rw [bind_apply, bind_apply, Action.ask_apply]
    cases told : normalizeText session.tree path.parent path.toString text with
    | error fault => rfl
    | ok normalized =>
      dsimp only
      rw [if_neg (by simp [untouched text normalized read told])]

/-- A file whose specifiers have been rewritten was read, and written if one of them was replaced.
Nothing else has happened to the tree. -/
theorem normalizeFile_ends (path : Path) (source : Option SourceFile) (start : Session) :
    Ends (· = start) (normalizeFile path source)
      (fun _ final => ∃ text normalized,
        Session.textAt start.tree path = .ok text ∧
        normalizeText start.tree path.parent path.toString text = .ok normalized ∧
        if normalized.rewritten = 0 then final.tree = start.tree
        else start.tree.write path (Text.Utf8.encode normalized.text) = .ok final.tree)
      (fun _ => True) := by
  have warns (normalized : Normalized) (property : Tree → Prop) :
      Ends (fun session => property session.tree)
        (do
          for unresolved in normalized.unresolved do
            Action.record logSource .warning unresolved.message
          return {
            path, source
            specifiers := specifiers normalized.text
            rewritten := normalized.rewritten
            unresolved := normalized.unresolved : FileResult })
        (fun _ session => property session.tree) fun _ => True := by
    refine Ends.mono (Keeps.bind (Keeps.forIn fun _ _ => ?_) fun _ => Keeps.pure)
      (fun _ holds => holds) (fun _ _ holds => holds) fun _ _ => trivial
    exact Keeps.record (fun _ _ holds => holds) _ _ _
  unfold normalizeFile
  refine ((Ends.readText_textAt path).mono (fun _ holds => holds) (fun _ _ holds => holds)
    fun _ _ => trivial).bind fun text => ?_
  refine ((Ends.ask _).mono (fun _ holds => holds) (fun _ _ holds => holds)
    fun _ _ => trivial).bind fun normalized => ?_
  refine Ends.of_forall fun session ⟨told, read, begun⟩ => ?_
  subst begun
  dsimp only
  split
  · rename_i rewritten
    rw [ne_eq] at rewritten
    refine Ends.bind (.changeFiles (fun state tree begun written => ?_) fun _ _ _ _ => trivial)
      fun _ => (warns normalized fun tree =>
        session.tree.write path (Text.Utf8.encode normalized.text) = .ok tree).mono
          (fun _ holds => holds) (fun _ final holds => ?_) fun _ _ => trivial
    · subst begun
      exact written
    · exact ⟨text, normalized, read, told, by rw [if_neg rewritten]; exact holds⟩
  · rename_i untouched
    rw [ne_eq, not_not] at untouched
    refine (warns normalized (· = session.tree)).mono (fun _ begun => congrArg Session.tree begun)
      (fun _ final holds => ?_) fun _ _ => trivial
    exact ⟨text, normalized, read, told, by rw [if_pos untouched]; exact holds⟩

/-- The text of a file depends on its bytes alone. -/
theorem textAt_congr {path : Path} (same : other.read path = tree.read path) :
    Session.textAt other path = Session.textAt tree path := by
  simp only [Session.textAt, same]

/-- The text of a file can be read only if the file can, and has no carriage returns. -/
theorem exists_read_of_textAt {path : Path} {text : String} (told : Session.textAt tree path = .ok text) :
    (∃ bytes, tree.read path = .ok bytes) ∧ '\r' ∉ text.toList := by
  unfold Session.textAt at told
  split at told
  · cases told
  · rename_i bytes held
    split at told
    · cases told
      rw [String.toList_ofList]
      exact ⟨⟨bytes, held⟩, Text.notMem_unifyLineEnds _⟩
    · cases told

/-- Once the specifiers of a file have been rewritten, the file is not written when they are rewritten
again, as long as it holds the same bytes and there are the same files and directories. -/
theorem normalizeFile_again {path : Path} {source another : Option SourceFile}
    {start between later : Session} {result : FileResult}
    (told : normalizeFile path source start = (.ok result, between))
    (same : between.tree.SameKinds later.tree)
    (held : later.tree.read path = between.tree.read path) :
    normalizeFile path another later = inspectFile path another later := by
  have ended := (normalizeFile_ends path source start).outcome start rfl
  rw [told] at ended
  obtain ⟨text, normalized, read, rewritten, becomes⟩ := ended
  refine normalizeFile_apply_of_untouched another fun textAgain normalizedAgain readAgain toldAgain => ?_
  rw [textAt_congr held] at readAgain
  by_cases untouched : normalized.rewritten = 0
  · rw [if_pos untouched] at becomes
    rw [becomes] at same readAgain
    obtain rfl : text = textAgain := Except.ok.inj (read.symm.trans readAgain)
    rw [normalizeText_congr same] at toldAgain
    obtain rfl : normalized = normalizedAgain := Except.ok.inj (rewritten.symm.trans toldAgain)
    exact untouched
  · rw [if_neg untouched] at becomes
    obtain ⟨⟨bytes, before⟩, noReturn⟩ := exists_read_of_textAt read
    obtain ⟨alike, after⟩ := Tree.write_alike before becomes
    have written := Session.textAt_encode after ((rewrites_of_normalizeText rewritten).notMem noReturn)
    obtain rfl : normalized.text = textAgain := Except.ok.inj (written.symm.trans readAgain)
    exact (normalizeText_again (alike.sameKinds.trans same) rewritten toldAgain).2

/-- Rewriting specifiers is idempotent. A second pass over a text that has been rewritten leaves the text
as it is and counts no rewrite, and a second pass over a file does not write it, as long as there are the
same files and directories. -/
theorem normalize_twice :
    (∀ (tree other : Tree) (base : Path) (label another text : String) (first second : Normalized),
      tree.SameKinds other → normalizeText tree base label text = .ok first →
      normalizeText other base another first.text = .ok second →
      second.text = first.text ∧ second.rewritten = 0) ∧
    ∀ (path : Path) (source another : Option SourceFile) (start between later : Session)
      (result : FileResult),
      normalizeFile path source start = (.ok result, between) →
      between.tree.SameKinds later.tree → later.tree.read path = between.tree.read path →
      normalizeFile path another later = inspectFile path another later ∧
        (normalizeFile path another later).2.tree = later.tree := by
  refine ⟨fun _ _ _ _ _ _ _ _ same told again => normalizeText_again same told again,
    fun path _ another _ _ later _ told same held => ?_⟩
  have inspected : normalizeFile path another later = inspectFile path another later :=
    normalizeFile_again told same held
  exact ⟨inspected, inspected ▸ inspectFile_apply_tree path another later⟩

/-- A project whose output has two modules, one of which imports the other without its suffix. -/
def pairSession : Session where
  tree := ⟨[(["p"], .directory), (["p", "dist"], .directory),
    (["p", "dist", "a.js"], .file (Text.Utf8.encode "import './b'\r\n") false),
    (["p", "dist", "b.js"], .file [] false)]⟩
  environment := []
  directory := ⟨.root, ["p"]⟩
  temporary := ⟨.root, ["t"]⟩
  clock := 1

/-- The module that imports the other. -/
def pairModule : Path := ⟨.root, ["p", "dist", "a.js"]⟩

/-- A computation that ends well has an answer. -/
theorem exists_of_isOk {Answer : Type} {action : Action Answer} {session : Session}
    (ends : (action session).1.isOk) : ∃ answer final, action session = (.ok answer, final) := by
  rcases ran : action session with ⟨fault | answer, final⟩
  · rw [ran] at ends
    cases ends
  · exact ⟨answer, final, rfl⟩

/-- What is told of an answer is told of one that was given. -/
theorem exists_of_map {Failure Answer Aspect : Type} {told : Except Failure Answer}
    {aspect : Answer → Aspect} {value : Aspect} (some : (told.map aspect).toOption = .some value) :
    ∃ answer, told = .ok answer ∧ aspect answer = value := by
  cases told with
  | error failure => cases some
  | ok answer => exact ⟨answer, rfl, Option.some.inj some⟩

/-- The text of the module, and the file that holds it, are rewritten once. -/
theorem normalize_twice_of_pair :
    (∃ first second,
      normalizeText pairSession.tree ⟨.root, ["p", "dist"]⟩ "a" "import './b'\r\n" = .ok first ∧
      normalizeText pairSession.tree ⟨.root, ["p", "dist"]⟩ "a" first.text = .ok second ∧
      first.rewritten = 1 ∧ second.text = first.text ∧ second.rewritten = 0) ∧
    ∃ result between,
      normalizeFile pairModule none pairSession = (.ok result, between) ∧
      between.tree.read pairModule = .ok (Text.Utf8.encode "import './b.js'\n") ∧
      normalizeFile pairModule none between = inspectFile pairModule none between ∧
      (normalizeFile pairModule none between).2.tree = between.tree := by
  refine ⟨?_, ?_⟩
  · have once : ((normalizeText pairSession.tree ⟨.root, ["p", "dist"]⟩ "a" "import './b'\r\n").map
        fun normalized => (normalized.text, normalized.rewritten)).toOption =
        some ("import './b.js'\r\n", 1) := by decide +kernel
    have again : ((normalizeText pairSession.tree ⟨.root, ["p", "dist"]⟩ "a" "import './b.js'\r\n").map
        fun normalized => normalized.text).toOption = some "import './b.js'\r\n" := by decide +kernel
    obtain ⟨first, told, same⟩ := exists_of_map once
    obtain ⟨text, count⟩ := Prod.mk.inj same
    obtain ⟨second, toldAgain, -⟩ := exists_of_map again
    rw [← text] at toldAgain
    exact ⟨first, second, told, toldAgain, count,
      normalize_twice.1 _ _ _ _ _ _ _ _ (.refl _) told toldAgain⟩
  · have written : ((normalizeFile pairModule none pairSession).2.tree.read pairModule).toOption =
        some (Text.Utf8.encode "import './b.js'\n") := by decide +kernel
    obtain ⟨result, between, told⟩ := exists_of_isOk
      (by decide +kernel : (normalizeFile pairModule none pairSession).1.isOk)
    rw [told] at written
    exact ⟨result, between, told, ok_of_toOption written,
      normalize_twice.2 _ _ _ _ _ _ _ told (.refl _) rfl⟩

end Specifier

end TreeBuild
