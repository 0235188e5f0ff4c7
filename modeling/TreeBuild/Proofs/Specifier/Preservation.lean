import TreeBuild.Proofs.Specifier.Rewriting

/-!
# What is left of a file whose specifiers are rewritten

The bytes of a file are those of its characters, one after the other, so a text that falls into clauses
and the characters between them cuts the bytes in the same way. If the text comes through the reading of
line ends unchanged, the file holds afterwards the same bytes with other specifiers in some of the clauses.
A carriage return does not come through: where a specifier is rewritten, all line ends of the file become
line feeds. A file in which no specifier is rewritten is not written at all.
-/
namespace TreeBuild

namespace Specifier

/-! ### One file -/

/-- What is told of a file whose text has been rewritten. -/
def FileResult.ofNormalized (path : Path) (source : Option SourceFile) (normalized : Normalized) : FileResult where
  path := path
  source := source
  specifiers := TreeBuild.specifiers normalized.text
  rewritten := normalized.rewritten
  unresolved := normalized.unresolved

/-- The warning about a specifier that names nothing, as it is logged. -/
def warning (unresolved : Unresolved) : Record where
  source := logSource
  level := .warning
  message := unresolved.message

/-- Warnings go to the log and are never refused. -/
theorem record_warnings (unresolved : List Unresolved) (session : Session) :
    (forIn unresolved PUnit.unit fun one _ => do
      Action.record logSource .warning one.message
      pure (ForInStep.yield PUnit.unit) : Action PUnit) session =
        (.ok PUnit.unit, { session with journal := session.journal ++ unresolved.map warning }) := by
  induction unresolved generalizing session with
  | nil =>
    rw [List.map_nil, List.append_nil]
    rfl
  | cons first rest inductionHypothesis =>
    have later := inductionHypothesis { session with journal := session.journal ++ [warning first] }
    rw [List.append_assoc, List.singleton_append] at later
    rw [List.forIn_cons]
    exact later

/-- A file with its specifiers rewritten, and the tree that holds it then: the text is read, and written only if a
specifier is replaced. -/
def normalizedAt (tree : Tree) (path : Path) : Except Fault (Normalized × Tree) := do
  let text ← Session.textAt tree path
  let normalized ← normalizeText tree path.parent path.toString text
  if normalized.rewritten = 0 then return (normalized, tree)
  else
    match tree.write path (Text.Utf8.encode normalized.text) with
    | .ok after => return (normalized, after)
    | .error fault => throw (.file fault)

/-- Rewriting the specifiers of a file changes the tree and tells those that do not resolve, or it fails and
nothing has happened. -/
theorem normalizeFile_apply (path : Path) (source : Option SourceFile) (session : Session) :
    normalizeFile path source session =
      match normalizedAt session.tree path with
      | .ok (normalized, tree) => (.ok (.ofNormalized path source normalized),
          { session with tree, journal := session.journal ++ normalized.unresolved.map warning })
      | .error fault => (.error fault, session) := by
  unfold normalizeFile normalizedAt
  rw [bind_apply, Action.readText_apply]
  cases Session.textAt session.tree path with
  | error fault => rfl
  | ok text =>
    dsimp only [bind, Except.bind]
    change (Action.ask (fun tree => normalizeText tree path.parent path.toString text) >>= _) session = _
    rw [bind_apply, Action.ask_apply]
    cases normalizeText session.tree path.parent path.toString text with
    | error fault => rfl
    | ok normalized =>
      have tells (session : Session) : (do
          for unresolved in normalized.unresolved do
            Action.record logSource .warning unresolved.message
          return {
            path, source
            specifiers := specifiers normalized.text
            rewritten := normalized.rewritten
            unresolved := normalized.unresolved : FileResult } : Action FileResult) session =
          (.ok (.ofNormalized path source normalized),
            { session with journal := session.journal ++ normalized.unresolved.map warning }) := by
        rw [bind_apply, record_warnings]
        rfl
      dsimp only
      by_cases untouched : normalized.rewritten = 0
      · rw [if_neg (by simpa using untouched), if_pos untouched]
        exact tells session
      · rw [if_pos untouched, if_neg untouched]
        change (Action.writeText path normalized.text >>= _) session = _
        rw [bind_apply, Action.writeText_apply]
        cases session.tree.write path (Text.Utf8.encode normalized.text) with
        | error fault => rfl
        | ok tree => exact tells { session with tree }

/-- A file that has been normalized was rewritten by the text that it held, and was written only if a specifier
changed. -/
theorem exists_of_normalizedAt {tree after : Tree} {path : Path} {text : String} {normalized : Normalized}
    (read : Session.textAt tree path = .ok text) (made : normalizedAt tree path = .ok (normalized, after)) :
    normalizeText tree path.parent path.toString text = .ok normalized ∧
      (normalized.rewritten = 0 ∧ after = tree ∨
        normalized.rewritten ≠ 0 ∧ tree.write path (Text.Utf8.encode normalized.text) = .ok after) := by
  unfold normalizedAt at made
  obtain ⟨held, known, made⟩ := exists_of_bind_eq_ok made
  obtain rfl : text = held := Except.ok.inj (read.symm.trans known)
  obtain ⟨resolved, told, made⟩ := exists_of_bind_eq_ok made
  by_cases untouched : resolved.rewritten = 0
  · rw [if_pos untouched] at made
    cases made
    exact ⟨told, .inl ⟨untouched, rfl⟩⟩
  · rw [if_neg untouched] at made
    cases written : tree.write path (Text.Utf8.encode resolved.text) with
    | error fault => rw [written] at made; cases made
    | ok tree =>
      rw [written] at made
      cases made
      exact ⟨told, .inr ⟨untouched, written⟩⟩

/-! ### Its bytes -/

/-- The bytes of a piece of a text, with the specifier of a clause written anew. -/
def pieceBytes (write : String → String) : Text.Segment Clause → Text.Bytes
  | .char c => String.utf8EncodeChar c
  | .found clause =>
    Text.Utf8.encode (String.ofList clause.head) ++ String.utf8EncodeChar clause.quote ++
      Text.Utf8.encode (write (String.ofList clause.specifier)) ++ String.utf8EncodeChar clause.quote

/-- The bytes of a text, piece by piece, with the specifiers of its clauses written anew. -/
def spelled (write : String → String) (text : String) : Text.Bytes :=
  (Text.segments Clause.pattern text.toList).flatMap (pieceBytes write)

/-- The bytes of the pieces are those of the text that the pieces make. -/
theorem spelled_eq_encode {write : String → String} {text other : String}
    (same : Text.render (fun clause =>
        { clause with specifier := (write (String.ofList clause.specifier)).toList : Clause }.text)
      (Text.segments Clause.pattern text.toList) = other.toList) :
    spelled write text = Text.Utf8.encode other := by
  rw [spelled, Text.Utf8.encode, ← same, Text.render, List.flatMap_assoc]
  refine List.flatMap_congr fun piece _ => ?_
  cases piece with
  | char c => simp [pieceBytes]
  | found clause => simp [pieceBytes, Clause.text, Text.Utf8.encode]

/-- A text is spelled as it is if its specifiers are left alone. -/
theorem spelled_id (text : String) : spelled id text = Text.Utf8.encode text := by
  refine spelled_eq_encode ?_
  simp only [id_eq, String.toList_ofList]
  exact (Clause.scanned_segmentsFrom none text.toList).textOf_eq

/-- A text is spelled alike by what its specifiers do not tell apart. -/
theorem spelled_congr {write other : String → String} {text : String}
    (same : ∀ specifier ∈ specifiers text, write specifier = other specifier) :
    spelled write text = spelled other text := by
  refine List.flatMap_congr fun piece member => ?_
  cases piece with
  | char c => rfl
  | found clause =>
    have inside : String.ofList clause.specifier ∈ specifiers text := by
      rw [specifiers_eq]
      exact List.mem_map.mpr ⟨clause, List.mem_filterMap.mpr ⟨_, member, rfl⟩, rfl⟩
    simp only [pieceBytes, same _ inside]

/-- The bytes of a text that has been rewritten are those of the pieces of the old one with their specifiers
settled. Where none is rewritten they are settled already. -/
theorem spelled_settled {tree : Tree} {base : Path} {label text : String} {normalized : Normalized}
    (told : normalizeText tree base label text = .ok normalized) :
    spelled (settled tree base) text = Text.Utf8.encode normalized.text ∧
      (normalized.rewritten = 0 → spelled (settled tree base) text = spelled id text) := by
  obtain ⟨-, same, rewritten, -⟩ := tells_of_normalizeText told
  refine ⟨spelled_eq_encode same.symm, fun untouched => spelled_congr fun specifier member => ?_⟩
  have none := List.countP_eq_zero.mp (rewritten.symm.trans untouched) specifier member
  rw [decide_eq_true_eq, ne_eq, not_not] at none
  exact none.symm

/-- Rewriting the specifiers of a file that is a text leaves its bytes as they are, but for the specifiers that
are replaced, as long as the text has no carriage return. A file in which none is replaced is not written,
whatever it holds, and no other file is touched. -/
theorem normalizeFile_preserves_bytes (path : Path) (source : Option SourceFile) (before after : Session)
    (told : Except Fault FileResult) (bytes : Text.Bytes) (text : String)
    (held : before.tree.read path = .ok bytes) (valid : Text.Utf8.decode bytes = .ok text)
    (ran : normalizeFile path source before = (told, after)) :
    bytes = spelled id text ∧
      match told with
      | .error _ => after.tree = before.tree
      | .ok result =>
        (result.rewritten = 0 → after.tree = before.tree) ∧
        ('\r' ∉ text.toList →
          after.tree.read path = .ok (spelled (settled before.tree path.parent) text)) ∧
        ∃ location, before.tree.locatePath .target path = .ok location ∧
          ∀ other, other ≠ location → after.tree.get? other = before.tree.get? other := by
  have whole : bytes = spelled id text := by rw [spelled_id, Text.Utf8.encode_of_decode valid]
  refine ⟨whole, ?_⟩
  have read : Session.textAt before.tree path = .ok (String.ofList (Text.unifyLineEnds text.toList)) := by
    simp only [Session.textAt, held, valid]
  obtain ⟨location, executable, led, -⟩ := Tree.get?_of_read held
  rw [normalizeFile_apply] at ran
  cases comes : normalizedAt before.tree path with
  | error fault =>
    rw [comes] at ran
    cases ran
    rfl
  | ok made =>
    rw [comes] at ran
    cases ran
    obtain ⟨normalized, tree⟩ := made
    obtain ⟨resolved, stored⟩ := exists_of_normalizedAt read comes
    refine ⟨fun untouched => ?_, fun plain => ?_, location, led, fun other different => ?_⟩
    · rcases stored with ⟨-, rfl⟩ | ⟨rewritten, -⟩
      · rfl
      · exact absurd untouched rewritten
    · rw [Text.unifyLineEnds_of_notMem plain, String.ofList_toList] at resolved
      obtain ⟨bytesOfText, settledAlready⟩ := spelled_settled resolved
      rcases stored with ⟨untouched, rfl⟩ | ⟨-, written⟩
      · rw [settledAlready untouched, ← whole]
        exact held
      · rw [bytesOfText]
        exact (Tree.write_alike held written).2
    · rcases stored with ⟨-, rfl⟩ | ⟨-, written⟩
      · rfl
      · obtain ⟨place, _, found, -, -, rfl⟩ := Tree.write_eq_put held written
        obtain rfl : location = place := Except.ok.inj (led.symm.trans found)
        exact Tree.get?_put_of_ne _ different _

/-- A project whose output has a module with a comment in Latin letters, which imports two modules of which
one is missing. -/
def accentedSession : Session where
  tree := ⟨[(["p"], .directory), (["p", "dist"], .directory),
    (["p", "dist", "a.js"], .file (Text.Utf8.encode "/*é*/import './b'\nimport\t'./c'") false),
    (["p", "dist", "b.js"], .file [] false)]⟩
  environment := []
  directory := ⟨.root, ["p"]⟩
  temporary := ⟨.root, ["t"]⟩
  clock := 1

/-- The bytes of the module stay as they are, but for the specifier of the module that is there. -/
theorem normalizeFile_preserves_bytes_of_accented :
    ∃ result after, normalizeFile pairModule none accentedSession = (.ok result, after) ∧
      accentedSession.tree.read pairModule =
        .ok (Text.Utf8.encode "/*é*/import './b'\nimport\t'./c'") ∧
      after.tree.read pairModule =
        .ok (spelled (settled accentedSession.tree pairModule.parent) "/*é*/import './b'\nimport\t'./c'") ∧
      spelled (settled accentedSession.tree pairModule.parent) "/*é*/import './b'\nimport\t'./c'" =
        Text.Utf8.encode "/*é*/import './b.js'\nimport\t'./c'" := by
  have held : accentedSession.tree.read pairModule =
      .ok (Text.Utf8.encode "/*é*/import './b'\nimport\t'./c'") := by rfl
  obtain ⟨result, after, ran⟩ := exists_of_isOk
    (by decide +kernel : (normalizeFile pairModule none accentedSession).1.isOk)
  have preserved := normalizeFile_preserves_bytes pairModule none accentedSession after (.ok result) _ _ held
    (Text.Utf8.decode_encode _) ran
  exact ⟨result, after, ran, held, preserved.2.2.1 (by decide +kernel), by decide +kernel⟩

/-- A carriage return is lost where a specifier is rewritten: the bytes of the module are a text, and what is left
of them is not this text with another specifier. -/
theorem normalizeFile_unifies_line_ends :
    ∃ result after, normalizeFile pairModule none pairSession = (.ok result, after) ∧
      pairSession.tree.read pairModule = .ok (Text.Utf8.encode "import './b'\r\n") ∧
      after.tree.read pairModule = .ok (Text.Utf8.encode "import './b.js'\n") ∧
      spelled (settled pairSession.tree pairModule.parent) "import './b'\r\n" =
        Text.Utf8.encode "import './b.js'\r\n" ∧
      Text.Utf8.encode "import './b.js'\n" ≠ Text.Utf8.encode "import './b.js'\r\n" := by
  have written : ((normalizeFile pairModule none pairSession).2.tree.read pairModule).toOption =
      some (Text.Utf8.encode "import './b.js'\n") := by decide +kernel
  obtain ⟨result, after, ran⟩ := exists_of_isOk
    (by decide +kernel : (normalizeFile pairModule none pairSession).1.isOk)
  rw [ran] at written
  exact ⟨result, after, ran, rfl, ok_of_toOption written, by decide +kernel, by decide +kernel⟩

end Specifier

end TreeBuild
