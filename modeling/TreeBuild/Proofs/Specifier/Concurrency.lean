import TreeBuild.Proofs.Session.Jobs
import TreeBuild.Proofs.Specifier.Preservation

/-!
# Files whose specifiers are rewritten side by side

Rewriting the specifiers of a file is a job: it reads the file, asks for each specifier which files and
directories are there, and writes the file. What is there does not change while files are rewritten, and
no job reads or writes the file of another. However the jobs for several files take turns, each file ends up
as if it had been rewritten alone, and so they may also be rewritten one after the other in any order.
-/
namespace TreeBuild

/-- Actions that all succeed one after the other succeed as well when none waits for the others. -/
theorem Action.all_of_mapM {Item Answer : Type} {action : Item → Action Answer} {items : List Item}
    {session after : Session} {answers : List Answer}
    (succeed : items.mapM action session = (.ok answers, after)) :
    Action.all (items.map action) session = (.ok answers, after) := by
  have settled : Action.settle (items.map action) session = (.ok (answers.map .ok), after) := by
    induction items generalizing session answers with
    | nil =>
      cases succeed
      rfl
    | cons item rest inductionHypothesis =>
      rw [List.mapM_cons, bind_apply] at succeed
      rw [List.map_cons, Action.settle, bind_apply, Action.attempt]
      rcases first : action item session with ⟨fault | answer, middle⟩
      · rw [first] at succeed
        cases succeed
      · simp only [first] at succeed ⊢
        rw [bind_apply] at succeed ⊢
        rcases later : rest.mapM action middle with ⟨fault | others, final⟩
        · rw [later] at succeed
          cases succeed
        · rw [later] at succeed
          cases succeed
          rw [inductionHypothesis later]
          rfl
  have none : Action.allOrFirst (answers.map Except.ok) = .ok answers := by
    clear succeed settled
    induction answers with
    | nil => rfl
    | cons answer others inductionHypothesis =>
      rw [List.map_cons, Action.allOrFirst, inductionHypothesis]
      rfl
  rw [Action.all, bind_apply, settled]
  dsimp only
  rw [none]
  rfl

namespace Specifier

open Job

/-! ### The job for a file -/

/-- Asks whether the compiled module of a target exists. -/
def askModule (target : Path) : Job Bool :=
  match target.withName? (target.name ++ Layout.compiledSuffix) with
  | some sibling => once (.isFile sibling)
  | none => ended (.error (.emptyName target))

/-- Asks whether a target is a directory with an index. -/
def askIndex (target : Path) : Job Bool := do
  if ← once (.isDirectory target) then once (.isFile (target / indexName)) else return false

/-- Asks what a relative specifier resolves to in a file of the directory `base`. -/
def askOutcome (base : Path) (specifier : String) : Job Outcome := do
  let target := target base specifier
  if !namesDirectory specifier then
    if ← once (.isFile target) then return .asIs
  if Layout.compiledSuffix.toList.isSuffixOf specifier.toList then return .unresolved
  if !namesDirectory specifier then
    if ← askModule target then return .replaced (specifier ++ Layout.compiledSuffix)
  if ← askIndex target then
    let stem := String.ofList (Text.trimEnd (· = '/') specifier.toList)
    return .replaced (stem ++ "/" ++ indexName)
  return .unresolved

/-- Asks what becomes of a clause in a file of the directory `base`. -/
def askClause (base : Path) (label : String) (clause : Clause) : Job Change := do
  let specifier := String.ofList clause.specifier
  if !isRelativeSpecifier specifier then return { text := clause.text }
  else
    match ← askOutcome base specifier with
    | .asIs => return { text := clause.text }
    | .unresolved => return { text := clause.text, unresolved := some ⟨label, specifier⟩ }
    | .replaced other =>
      if other = specifier then return { text := clause.text }
      else
        return { text := { clause with specifier := other.toList : Clause }.text, rewritten := true }

/-- Asks what becomes of one segment of a text. -/
def askSegment (base : Path) (label : String) : Text.Segment Clause → Job Change
  | .char c => pure { text := [c] }
  | .found clause => askClause base label clause

/-- Asks what becomes of a text that belongs into the directory `base`. -/
def askText (base : Path) (label text : String) : Job Normalized := do
  let changes ← (Text.segments Clause.pattern text.toList).mapM (askSegment base label)
  return {
    text := String.ofList (changes.flatMap (·.text))
    rewritten := changes.countP (·.rewritten)
    unresolved := changes.filterMap (·.unresolved) }

/-- Rewrites the specifiers of one file, operation by operation. -/
def fileJob (source : Path → Option SourceFile) (path : Path) : Job FileResult := do
  let text ← once (.read path)
  let normalized ← askText path.parent path.toString text
  if normalized.rewritten ≠ 0 then once (.write path normalized.text)
  for unresolved in normalized.unresolved do
    once (.warn logSource unresolved.message)
  return .ofNormalized path (source path) normalized

/-- The job that looks for a module asks whether it exists. -/
theorem asks_askModule (target : Path) : (askModule target).Asks (moduleExists · target) := by
  unfold askModule moduleExists
  cases target.withName? (target.name ++ Layout.compiledSuffix) with
  | some sibling => exact asks_isFile sibling
  | none => exact asks_fail _

/-- The job that looks for an index asks whether it exists. -/
theorem asks_askIndex (target : Path) : (askIndex target).Asks (indexExists · target) :=
  (asks_isDirectory target).bind fun _ => .ite (asks_isFile _) (asks_pure false)

/-- The job that resolves a specifier asks for its resolution. -/
theorem asks_askOutcome (base : Path) (specifier : String) :
    (askOutcome base specifier).Asks (resolve · base specifier) :=
  have index := (asks_askIndex (target base specifier)).bind fun _ => .ite (asks_pure _) (asks_pure _)
  have sibling := (asks_askModule (target base specifier)).bind fun _ => .ite (asks_pure _) index
  have unnamed := Asks.ite (asks_pure _) (.ite sibling index)
  .ite ((asks_isFile _).bind fun _ => .ite (asks_pure _) unnamed) unnamed

/-- The job for a clause asks for its change. -/
theorem asks_askClause (base : Path) (label : String) (clause : Clause) :
    (askClause base label clause).Asks (changeClause · base label clause) :=
  .ite (asks_pure _) ((asks_askOutcome base _).bind fun outcome => by
    cases outcome with
    | asIs => exact asks_pure _
    | unresolved => exact asks_pure _
    | replaced other => exact .ite (asks_pure _) (asks_pure _))

/-- The job for a text asks for its rewriting. -/
theorem asks_askText (base : Path) (label text : String) :
    (askText base label text).Asks (normalizeText · base label text) :=
  (Asks.mapM fun segment => by
    cases segment with
    | char c => exact asks_pure _
    | found clause => exact asks_askClause base label clause).bind fun _ => asks_pure _

/-- The job for a file, done in one go, is the rewriting of the file. -/
theorem run_fileJob (source : Path → Option SourceFile) (path : Path) :
    (fileJob source path).run = normalizeFile path (source path) := by
  have tells (normalized : Normalized) : (do
      for unresolved in normalized.unresolved do
        once (.warn logSource unresolved.message)
      return .ofNormalized path (source path) normalized : Job FileResult).run = (do
      for unresolved in normalized.unresolved do
        Action.record logSource .warning unresolved.message
      return .ofNormalized path (source path) normalized : Action FileResult) := by
    rw [run_bind, run_forIn]
    simp only [run_once]
    rfl
  unfold fileJob normalizeFile
  rw [run_bind, run_once]
  refine bind_congr fun text => ?_
  rw [run_bind, (asks_askText _ _ _).run_eq]
  refine bind_congr fun normalized => ?_
  dsimp only
  split
  · rw [run_bind, run_once]
    exact bind_congr fun _ => tells normalized
  · exact tells normalized

/-- The job for a file reads and writes no other one. -/
theorem isConfined_fileJob (source : Path → Option SourceFile) (path : Path) :
    (fileJob source path).IsConfined path := by
  have tells (normalized : Normalized) : (do
      for unresolved in normalized.unresolved do
        once (.warn logSource unresolved.message)
      return .ofNormalized path (source path) normalized : Job FileResult).IsConfined path :=
    have warns (one : Unresolved) : (once (.warn logSource one.message)).IsConfined path :=
      ⟨trivial, fun _ => trivial⟩
    (IsConfined.forIn warns).bind fun _ => trivial
  refine ⟨rfl, fun text => ((asks_askText _ _ _).confined path).bind fun normalized => ?_⟩
  dsimp only
  split
  · exact ⟨rfl, fun _ => tells normalized⟩
  · exact tells normalized

/-! ### Several files -/

/-- Where a path leads. -/
def placeOf (tree : Tree) (path : Path) : Location := (tree.locatePath .target path).toOption.getD []

/-- Looking for those files that exist finds all of some that do. -/
theorem filterM_of_all {Item : Type} {test : Item → Except FileFault Bool} {items : List Item}
    (all : ∀ item ∈ items, test item = .ok true) : items.filterM test = .ok items := by
  have gathered (kept : List Item) : items.filterAuxM test kept = .ok (items.reverse ++ kept) := by
    induction items generalizing kept with
    | nil => rfl
    | cons item rest inductionHypothesis =>
      rw [List.filterAuxM, all item List.mem_cons_self, List.reverse_cons, List.append_assoc]
      exact inductionHypothesis (fun other member => all other (List.mem_cons_of_mem _ member)) _
  rw [List.filterM, gathered, List.append_nil]
  exact congrArg Except.ok items.reverse_reverse

/-- A file can be rewritten only if it can be read. Its job finds it in the tree. -/
theorem finds_of_normalizeFile {path : Path} {source : Option SourceFile} {start after : Session}
    {result : FileResult} (ran : normalizeFile path source start = (.ok result, after)) :
    start.tree.isFile path = .ok true ∧
      Finds path (placeOf start.tree path) start.tree start.tree := by
  have readable : ∃ content, start.tree.read path = .ok content := by
    rw [normalizeFile_apply, normalizedAt, Session.textAt] at ran
    cases held : start.tree.read path with
    | ok content => exact ⟨content, rfl⟩
    | error fault =>
      rw [held] at ran
      cases ran
  obtain ⟨content, held⟩ := readable
  obtain ⟨location, executable, led, here⟩ := Tree.get?_of_read held
  have same : placeOf start.tree path = location := by rw [placeOf, led]; rfl
  rw [same]
  refine ⟨?_, .refl _, rfl, led, content, executable, here⟩
  simp only [Tree.isFile, Tree.probe, Tree.status, led, here]
  rfl

/-- Where the rewriting of several files side by side begins: there is a job for each of those that exist. -/
def Begins (paths : List Path) (source : Path → Option SourceFile) (start : Session)
    (first : Pool FileResult) : Prop :=
  ∃ existing, paths.filterM (fun path => start.tree.isFile path) = .ok existing ∧
    first = ⟨start, existing.map (fileJob source)⟩

/-- Different files of which each could be rewritten alone are all rewritten side by side, whichever job has its
turn after each operation. No order keeps the jobs from coming to an end, and then they have the results, and the
files the contents, that they have when the files are rewritten one after the other in whatever order. -/
theorem normalizeFiles_concurrent (paths : List Path) (source : Path → Option SourceFile) (start : Session)
    (apart : (paths.map (start.tree.locatePath .target)).Nodup)
    (handled : ∀ path ∈ paths, ∃ result after, normalizeFile path (source path) start = (.ok result, after)) :
    ∃ (results : Path → FileResult) (first : Pool FileResult) (final : Session),
      normalizeFiles paths source start = (.ok (paths.map results), final) ∧
      Begins paths source start first ∧
      (∀ path ∈ paths, (fileJob source path).run = normalizeFile path (source path)) ∧
      Acc (fun later earlier => Pool.Step earlier later) first ∧
      (∀ pool, Pool.Runs first pool → (∃ next, Pool.Step pool next) ∨
        pool.jobs = paths.map (fun path => .ended (.ok (results path))) ∧
          pool.session.tree.get? = final.tree.get?) ∧
      ∀ order : List Path, order.Perm paths → ∃ after : Session,
        (order.mapM fun path => normalizeFile path (source path)) start = (.ok (order.map results), after) ∧
          after.tree.get? = final.tree.get? := by
  have finds : ∀ path ∈ paths, start.tree.isFile path = .ok true ∧
      Finds path (placeOf start.tree path) start.tree start.tree := fun path member =>
    have ⟨_, _, ran⟩ := handled path member
    finds_of_normalizeFile ran
  have places : (paths.map (placeOf start.tree)).Nodup := by
    have same : paths.map (start.tree.locatePath .target) = (paths.map (placeOf start.tree)).map .ok := by
      rw [List.map_map]
      exact List.map_congr_left fun path member => (finds path member).2.leads
    exact List.Nodup.of_map _ (same ▸ apart)
  have begun : ∀ order : List Path, order.Perm paths →
      Follows start (fileJob source) (placeOf start.tree) order ⟨start, order.map (fileJob source)⟩ :=
    fun order same => .begin fun path member =>
      ⟨isConfined_fileJob source path, (finds path (same.mem_iff.mp member)).2⟩
  -- the result of a file is the one that it has when it is rewritten alone
  have answered : ∃ results : Path → FileResult,
      ∀ path ∈ paths, ((fileJob source path).run start).1 = .ok (results path) := by
    have each : ∀ path : Path, ∃ result, path ∈ paths → ((fileJob source path).run start).1 = .ok result := by
      intro path
      by_cases member : path ∈ paths
      · obtain ⟨result, after, ran⟩ := handled path member
        exact ⟨result, fun _ => by rw [run_fileJob, ran]⟩
      · exact ⟨.ofNormalized path none ⟨"", 0, []⟩, fun inside => absurd inside member⟩
    exact ⟨fun path => (each path).choose, fun path => (each path).choose_spec⟩
  obtain ⟨results, succeeds⟩ := answered
  obtain ⟨final, inOrder, gathers⟩ := mapM_gathers places (begun paths (.refl paths)) succeeds
  have existing : paths.filterM (fun path => start.tree.isFile path) = .ok paths :=
    filterM_of_all fun path member => (finds path member).1
  refine ⟨results, _, final, ?_, ⟨paths, existing, rfl⟩, fun path _ => run_fileJob source path, Pool.acc_step _,
    fun pool ran => ?_, fun order same => ?_⟩
  · simp only [run_fileJob] at inOrder
    rw [normalizeFiles, Action.askFiles, bind_apply, Action.ask_apply, existing]
    exact Action.all_of_mapM inOrder
  · rcases Pool.Runs.gathers places (begun paths (.refl paths)) succeeds ran with goesOn | ⟨halted, gathered⟩
    · exact .inl goesOn
    · exact .inr ⟨halted, gathers.get?_eq (.refl paths) gathered⟩
  · obtain ⟨after, ranOn, gathered⟩ := mapM_gathers ((same.map _).nodup_iff.mpr places) (begun order same)
      fun path member => succeeds path (same.mem_iff.mp member)
    simp only [run_fileJob] at ranOn
    exact ⟨after, ranOn, gathers.get?_eq same gathered⟩

/-- A project whose output has two modules that import each other. -/
def mutualSession : Session where
  tree := ⟨[(["p"], .directory), (["p", "dist"], .directory),
    (["p", "dist", "a.js"], .file (Text.Utf8.encode "import './b'\n") false),
    (["p", "dist", "b.js"], .file (Text.Utf8.encode "import './a'\nimport './c'\n") false)]⟩
  environment := []
  directory := ⟨.root, ["p"]⟩
  temporary := ⟨.root, ["t"]⟩
  clock := 1

/-- The modules that import each other. -/
def mutualModules : List Path := [⟨.root, ["p", "dist", "a.js"]⟩, ⟨.root, ["p", "dist", "b.js"]⟩]

/-- Two modules that import each other can be rewritten side by side, although each is looked for while the other
is written. -/
theorem normalizeFiles_concurrent_of_mutual :
    ∃ (results : Path → FileResult) (first : Pool FileResult) (final : Session),
      normalizeFiles mutualModules (fun _ => none) mutualSession = (.ok (mutualModules.map results), final) ∧
      Begins mutualModules (fun _ => none) mutualSession first ∧
      Acc (fun later earlier => Pool.Step earlier later) first ∧
      (∀ pool, Pool.Runs first pool → (∃ next, Pool.Step pool next) ∨
        pool.jobs = mutualModules.map (fun path => .ended (.ok (results path))) ∧
          pool.session.tree.get? = final.tree.get?) ∧
      (∃ after : Session, (mutualModules.reverse.mapM fun path => normalizeFile path none) mutualSession =
          (.ok (mutualModules.reverse.map results), after) ∧ after.tree.get? = final.tree.get?) ∧
      final.tree.read ⟨.root, ["p", "dist", "a.js"]⟩ = .ok (Text.Utf8.encode "import './b.js'\n") ∧
      final.tree.read ⟨.root, ["p", "dist", "b.js"]⟩ =
        .ok (Text.Utf8.encode "import './a.js'\nimport './c'\n") := by
  have handled : ∀ path ∈ mutualModules,
      ∃ result after, normalizeFile path none mutualSession = (.ok result, after) := by
    intro path member
    obtain rfl | rfl : path = ⟨.root, ["p", "dist", "a.js"]⟩ ∨ path = ⟨.root, ["p", "dist", "b.js"]⟩ := by
      simpa [mutualModules] using member
    · exact exists_of_isOk (by decide +kernel)
    · exact exists_of_isOk (by decide +kernel)
  have contents : (fun tree : Tree => ((tree.read ⟨.root, ["p", "dist", "a.js"]⟩).toOption,
        (tree.read ⟨.root, ["p", "dist", "b.js"]⟩).toOption))
      (normalizeFiles mutualModules (fun _ => none) mutualSession).2.tree =
        (some (Text.Utf8.encode "import './b.js'\n"),
          some (Text.Utf8.encode "import './a.js'\nimport './c'\n")) := by
    decide +kernel
  obtain ⟨results, first, final, ran, begins, -, halted, confluent, sequential⟩ :=
    normalizeFiles_concurrent mutualModules (fun _ => none) mutualSession (by decide +kernel) handled
  rw [ran, Prod.mk.injEq] at contents
  exact ⟨results, first, final, ran, begins, halted, confluent, sequential _ mutualModules.reverse_perm,
    ok_of_toOption contents.1, ok_of_toOption contents.2⟩

end Specifier

end TreeBuild
