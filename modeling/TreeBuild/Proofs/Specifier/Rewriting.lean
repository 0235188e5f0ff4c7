import TreeBuild.Proofs.Specifier.Repetition

/-!
# What rewriting does to a text

Rewriting cuts a text into clauses and the characters between them, and puts other specifiers into some of
the clauses. Which clauses are found in the new text does not depend on these specifiers, so a scan of the
new text gives the specifiers that were put in, one for each clause of the old text and in the same order.
The counts that are returned can therefore be read off the two scans.
-/
namespace TreeBuild

namespace Specifier

variable {tree : Tree} {base : Path} {label : String}

/-- What a specifier becomes: a relative one that resolves becomes what it resolves to, and any other one
stays as it is. -/
def settled (tree : Tree) (base : Path) (specifier : String) : String :=
  if isRelativeSpecifier specifier then
    match resolve tree base specifier with
    | .ok outcome => (outcome.answer specifier).1
    | .error _ => specifier
  else specifier

/-- Whether a specifier is relative and does not resolve. -/
def isLost (tree : Tree) (base : Path) (specifier : String) : Bool :=
  isRelativeSpecifier specifier &&
    match resolve tree base specifier with
    | .ok .unresolved => true
    | _ => false

/-- A clause with what becomes of its specifier. -/
def settle (tree : Tree) (base : Path) (clause : Clause) : Clause :=
  { clause with specifier := (settled tree base (String.ofList clause.specifier)).toList }

/-- What becomes of a text when its specifiers are resolved. -/
structure Settled (tree : Tree) (base : Path) (label text : String) (normalized : Normalized) : Prop where
  /-- All relative specifiers could be looked up. -/
  answered : ∀ specifier ∈ specifiers text, isRelativeSpecifier specifier →
    ∃ outcome, resolve tree base specifier = .ok outcome
  /-- The text consists of clauses and of the characters between them. -/
  cut : Text.render Clause.text (Text.segments Clause.pattern text.toList) = text.toList
  /-- These characters are kept, and the clauses differ in their specifiers only. -/
  kept : Text.render (fun clause => (settle tree base clause).text)
    (Text.segments Clause.pattern text.toList) = normalized.text.toList
  /-- A scan of the new text finds the same clauses with their new specifiers. -/
  segments : Text.segments Clause.pattern normalized.text.toList =
    (Text.segments Clause.pattern text.toList).map (.map (settle tree base))
  scanned : specifiers normalized.text = (specifiers text).map (settled tree base)
  /-- The clauses are counted whose specifiers are others than before. -/
  rewritten : normalized.rewritten =
    ((specifiers text).zip (specifiers normalized.text)).countP fun pair => pair.1 ≠ pair.2
  /-- The relative specifiers that do not resolve are told in their order. -/
  unresolved : normalized.unresolved =
    ((specifiers text).filter (isLost tree base)).map (⟨label, ·⟩)

/-! ### One clause -/

/-- What is told of a clause is told of its specifier. -/
structure Tells (tree : Tree) (base : Path) (label : String) (clause : Clause) (change : Change) : Prop where
  answered : isRelativeSpecifier (String.ofList clause.specifier) →
    ∃ outcome, resolve tree base (String.ofList clause.specifier) = .ok outcome
  text : change.text = (settle tree base clause).text
  rewritten : change.rewritten =
    decide (String.ofList clause.specifier ≠ settled tree base (String.ofList clause.specifier))
  unresolved : change.unresolved =
    if isLost tree base (String.ofList clause.specifier) then some ⟨label, String.ofList clause.specifier⟩
    else none

/-- A clause whose specifier stays is not changed. -/
theorem settle_eq_self {clause : Clause}
    (same : settled tree base (String.ofList clause.specifier) = String.ofList clause.specifier) :
    settle tree base clause = clause := by
  rw [settle, same, String.toList_ofList]

/-- What a clause is changed to is told by its specifier. -/
theorem tells_of_changeClause {clause : Clause} {change : Change}
    (told : changeClause tree base label clause = .ok change) : Tells tree base label clause change := by
  unfold changeClause at told
  dsimp only at told
  split at told
  · rename_i bare
    have bare : isRelativeSpecifier (String.ofList clause.specifier) = false := by simpa using bare
    have same : settled tree base (String.ofList clause.specifier) = String.ofList clause.specifier := by
      simp [settled, bare]
    cases told
    constructor
    · intro relative
      rw [bare] at relative
      cases relative
    · rw [settle_eq_self same]
    · simp [same]
    · simp [isLost, bare]
  · rename_i relative
    have relative : isRelativeSpecifier (String.ofList clause.specifier) = true := by simpa using relative
    obtain ⟨outcome, resolved, told⟩ := exists_of_bind_eq_ok told
    have becomes : settled tree base (String.ofList clause.specifier) =
        (outcome.answer (String.ofList clause.specifier)).1 := by
      simp [settled, relative, resolved]
    have answered : isRelativeSpecifier (String.ofList clause.specifier) →
        ∃ outcome, resolve tree base (String.ofList clause.specifier) = .ok outcome :=
      fun _ => ⟨outcome, resolved⟩
    cases outcome with
    | asIs =>
      cases told
      exact ⟨answered, by rw [settle_eq_self becomes], by simp [becomes, Outcome.answer],
        by simp [isLost, resolved]⟩
    | unresolved =>
      cases told
      exact ⟨answered, by rw [settle_eq_self becomes], by simp [becomes, Outcome.answer],
        by simp [isLost, relative, resolved]⟩
    | replaced replacement =>
      change settled tree base _ = replacement at becomes
      dsimp only at told
      split at told
      · rename_i same
        cases told
        have stays := becomes.trans same
        exact ⟨answered, by rw [settle_eq_self stays], by simp [stays], by simp [isLost, resolved]⟩
      · rename_i other
        cases told
        refine ⟨answered, by rw [settle, becomes], ?_, by simp [isLost, resolved]⟩
        rw [becomes]
        exact (decide_eq_true (Ne.symm other)).symm

/-- What becomes of a written clause is written, too. -/
theorem respecified_settle {clause : Clause} (written : clause.IsWritten) :
    Clause.Respecified (.found clause) (.found (settle tree base clause)) := by
  have clean : ∀ c ∈ (String.ofList clause.specifier).toList, Clause.endsSpecifier c = false := by
    rw [String.toList_ofList]
    exact written.specifier
  have becomes : settled tree base (String.ofList clause.specifier) = String.ofList clause.specifier ∨
      ∃ replacement, Resolves tree base (String.ofList clause.specifier) (.replaced replacement) ∧
        settled tree base (String.ofList clause.specifier) = replacement := by
    unfold settled
    split
    · split
      · rename_i outcome resolved
        cases outcome with
        | asIs | unresolved => exact .inl rfl
        | replaced replacement => exact .inr ⟨replacement, resolves_of_resolve resolved, rfl⟩
      · exact .inl rfl
    · exact .inl rfl
  rcases becomes with same | ⟨replacement, resolves, same⟩
  · rw [settle_eq_self same]
    exact .found clause written.nonempty written.specifier
  · rw [settle, same]
    apply Clause.Respecified.found clause
    · intro none
      have suffix := suffix_of_replaced resolves
      rw [none] at suffix
      exact absurd (List.suffix_nil.mp suffix) (by decide)
    · exact clean_of_replaced resolves clean

/-! ### A whole text -/

/-- The specifiers of the clauses among the pieces of a text. -/
def specifiersOf (pieces : List (Text.Segment Clause)) : List String :=
  (pieces.filterMap Text.Segment.value?).map fun clause => String.ofList clause.specifier

/-- The specifiers of a text are those of its pieces. -/
theorem specifiers_eq (text : String) :
    specifiers text = specifiersOf (Text.segments Clause.pattern text.toList) := by
  rw [specifiers, Text.findings_eq]
  rfl

/-- Settling the specifiers of pieces settles each of them. -/
theorem specifiersOf_map_settle (pieces : List (Text.Segment Clause)) :
    specifiersOf (pieces.map (.map (settle tree base))) = (specifiersOf pieces).map (settled tree base) := by
  simp only [specifiersOf, List.filterMap_map, Function.comp_def, Text.Segment.value?_map, List.map_filterMap,
    Option.map_map]
  congr 1
  funext piece
  congr 1
  funext clause
  rw [settle, String.ofList_toList]

/-- What is told of the pieces of a text is told of their specifiers. -/
theorem tells_of_pieces {pieces : List (Text.Segment Clause)} {changes : List Change}
    (each : List.Forall₂
      (fun piece change => changeSegment tree base label piece = .ok change) pieces changes) :
    (∀ specifier ∈ specifiersOf pieces, isRelativeSpecifier specifier →
      ∃ outcome, resolve tree base specifier = .ok outcome) ∧
    changes.flatMap (·.text) = Text.render (fun clause => (settle tree base clause).text) pieces ∧
    changes.countP (·.rewritten) =
      (specifiersOf pieces).countP (fun specifier => specifier ≠ settled tree base specifier) ∧
    changes.filterMap (·.unresolved) =
      ((specifiersOf pieces).filter (isLost tree base)).map (⟨label, ·⟩) := by
  induction each with
  | nil => simp [specifiersOf, Text.render]
  | @cons piece change pieces changes told _ inductionHypothesis =>
    obtain ⟨answered, text, rewritten, unresolved⟩ := inductionHypothesis
    cases piece with
    | char c =>
      cases told
      refine ⟨answered, ?_, ?_, ?_⟩
      · rw [List.flatMap_cons, text]
        rfl
      · rw [List.countP_cons_of_neg (by simp), rewritten]
        rfl
      · rw [List.filterMap_cons_none rfl, unresolved]
        rfl
    | found clause =>
      have tells := tells_of_changeClause told
      have first : specifiersOf (.found clause :: pieces) =
          String.ofList clause.specifier :: specifiersOf pieces := rfl
      rw [first]
      refine ⟨?_, ?_, ?_, ?_⟩
      · intro specifier member
        rcases List.mem_cons.mp member with rfl | later
        · exact tells.answered
        · exact answered specifier later
      · rw [List.flatMap_cons, text, tells.text]
        rfl
      · rw [List.countP_cons, List.countP_cons, rewritten, tells.rewritten]
      · rw [List.filter_cons]
        cases lost : isLost tree base (String.ofList clause.specifier) with
        | true =>
          rw [List.filterMap_cons_some (by rw [tells.unresolved, lost, if_pos rfl]), unresolved]
          rfl
        | false =>
          rw [List.filterMap_cons_none (by rw [tells.unresolved, lost]; rfl), unresolved]
          rfl

/-- The clauses of a text are those of the text with their specifiers settled. -/
theorem segments_settled (text : List Char) :
    Text.segments Clause.pattern
        (Text.render (fun clause => (settle tree base clause).text) (Text.segments Clause.pattern text)) =
      (Text.segments Clause.pattern text).map (.map (settle tree base)) := by
  have each : ∀ pieces : List (Text.Segment Clause),
      (∀ clause, .found clause ∈ pieces → clause.IsWritten) →
      List.Forall₂ Clause.Respecified pieces (pieces.map (.map (settle tree base))) := by
    intro pieces written
    induction pieces with
    | nil => exact .nil
    | cons piece rest inductionHypothesis =>
      constructor
      · cases piece with
        | char c => exact .char c
        | found clause => exact respecified_settle (written clause List.mem_cons_self)
      · exact inductionHypothesis fun clause member => written clause (List.mem_cons_of_mem _ member)
  have scanned := Clause.scanned_segmentsFrom none text
  have same := Clause.segments_textOf (each (Text.segments Clause.pattern text)
    fun _ member => scanned.isWritten member)
  rw [Clause.textOf, Text.render_map] at same
  exact same

/-- What a text is rewritten to is told by its specifiers. -/
theorem tells_of_normalizeText {text : String} {normalized : Normalized}
    (told : normalizeText tree base label text = .ok normalized) :
    (∀ specifier ∈ specifiers text, isRelativeSpecifier specifier →
      ∃ outcome, resolve tree base specifier = .ok outcome) ∧
    normalized.text.toList = Text.render (fun clause => (settle tree base clause).text)
      (Text.segments Clause.pattern text.toList) ∧
    normalized.rewritten =
      (specifiers text).countP (fun specifier => specifier ≠ settled tree base specifier) ∧
    normalized.unresolved = ((specifiers text).filter (isLost tree base)).map (⟨label, ·⟩) := by
  obtain ⟨changes, changed, told⟩ := exists_of_bind_eq_ok told
  obtain ⟨answered, same, rewritten, unresolved⟩ := tells_of_pieces (forall₂_of_mapM changed)
  rw [← specifiers_eq] at answered rewritten unresolved
  cases told
  exact ⟨answered, by rw [String.toList_ofList, same], rewritten, unresolved⟩

/-- Counting what differs from what it becomes is counting pairs that differ. -/
theorem countP_zip_map (change : String → String) (texts : List String) :
    (texts.zip (texts.map change)).countP (fun pair => pair.1 ≠ pair.2) =
      texts.countP fun text => text ≠ change text := by
  induction texts with
  | nil => rfl
  | cons first rest inductionHypothesis =>
    rw [List.map_cons, List.zip_cons_cons, List.countP_cons, List.countP_cons, inductionHypothesis]

/-- Rewriting the specifiers of a text changes specifiers only. The new text is the old one with the
specifier of each clause replaced by what it resolves to, or left alone, and every other character kept; so
the clauses of the new text are those of the old one. The number of rewrites is that of the clauses whose
specifiers changed, and the relative specifiers that do not resolve are told in their order. -/
theorem normalize_respecifies (tree : Tree) (base : Path) (label text : String) (normalized : Normalized)
    (told : normalizeText tree base label text = .ok normalized) :
    Settled tree base label text normalized := by
  obtain ⟨answered, same, rewritten, unresolved⟩ := tells_of_normalizeText told
  have segments := @segments_settled tree base text.toList
  have scanned : specifiers normalized.text = (specifiers text).map (settled tree base) := by
    rw [specifiers_eq, specifiers_eq, same, segments, specifiersOf_map_settle]
  constructor
  · exact answered
  · exact (Clause.scanned_segmentsFrom none text.toList).textOf_eq
  · exact same.symm
  · rw [same, segments]
  · exact scanned
  · rw [scanned, countP_zip_map, rewritten]
  · exact unresolved

/-- A text with a bare specifier, one that names a module by its name alone, one that names nothing, and one
that names a module in full. -/
def mixedText : String :=
  "import'fs';import{x}from\"../../index\";export*from'./none';import './m.js'"

/-- Only the second specifier changes, and only the third one is told. -/
theorem normalize_respecifies_of_mixed :
    ∃ normalized, normalizeText nestedTree nestedBase "m.js" mixedText = .ok normalized ∧
      normalized.text =
        "import'fs';import{x}from\"../../index.js\";export*from'./none';import './m.js'" ∧
      normalized.rewritten = 1 ∧ normalized.unresolved = [⟨"m.js", "./none"⟩] ∧
      Settled nestedTree nestedBase "m.js" mixedText normalized := by
  have answer : ((normalizeText nestedTree nestedBase "m.js" mixedText).toOption.map
      fun normalized => (normalized.text, normalized.rewritten, normalized.unresolved)) =
        some ("import'fs';import{x}from\"../../index.js\";export*from'./none';import './m.js'", 1,
          [⟨"m.js", "./none"⟩]) := by
    decide +kernel
  obtain ⟨normalized, told, same⟩ := Option.map_eq_some_iff.mp answer
  have told := ok_of_toOption told
  simp only [Prod.mk.injEq] at same
  obtain ⟨text, rewritten, unresolved⟩ := same
  exact ⟨normalized, told, text, rewritten, unresolved,
    normalize_respecifies nestedTree nestedBase "m.js" mixedText normalized told⟩

end Specifier

end TreeBuild
