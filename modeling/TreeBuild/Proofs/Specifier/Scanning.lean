import Mathlib.Data.List.Forall2
import Mathlib.Tactic.Tauto
import TreeBuild.Proofs.Text.Segments
import TreeBuild.Specifier.Clause

/-!
# Clauses in a text whose specifiers change

Whether a clause begins at some place of a text depends on two things: the characters up to the next
semicolon or quote, which are the whole head of the clause, and whether a quoted specifier follows them.
What stands in the quotes does not matter, as long as something does and it is free of quotes and line
ends. So when the specifiers of all clauses of a text are replaced by others, the clauses of the new text
are those of the old one with the other specifiers: none is lost, none comes up elsewhere, neither between
the clauses nor across one of them.
-/
namespace TreeBuild

namespace Clause

/-- The characters up to the first that ends the head of a clause. -/
def gap (text : List Char) : List Char := text.takeWhile (!endsHead ·)

/-- The text from the first character on that ends the head of a clause. -/
def behind (text : List Char) : List Char := text.dropWhile (!endsHead ·)

/-- A text is the gap at its front and what is behind the gap. -/
theorem gap_append_behind (text : List Char) : gap text ++ behind text = text :=
  List.takeWhile_append_dropWhile

/-- Whether characters are the head of a clause, given the character before: a keyword with the word
`from` at the end of what follows, or the keyword `import` with nothing but blanks behind it. -/
def isHead (before : Option Char) (head : List Char) : Bool :=
  Text.isBoundary before head.head? &&
    match head with
    | 'i' :: 'm' :: 'p' :: 'o' :: 'r' :: 't' :: after =>
      Text.isBoundary (some 't') after.head? && endsWithFrom after || after.all Text.isBlank
    | 'e' :: 'x' :: 'p' :: 'o' :: 'r' :: 't' :: after =>
      Text.isBoundary (some 't') after.head? && endsWithFrom after
    | _ => false

/-- A clause as it can stand in a text. -/
structure IsWritten (clause : Clause) : Prop where
  head : ∀ c ∈ clause.head, endsHead c = false
  quote : isQuote clause.quote
  nonempty : clause.specifier ≠ []
  specifier : ∀ c ∈ clause.specifier, endsSpecifier c = false

/-- A quote ends the head of a clause. -/
theorem endsHead_of_isQuote {c : Char} (quote : isQuote c) : endsHead c := by
  simp only [isQuote, Bool.or_eq_true, decide_eq_true_eq] at quote
  rcases quote with rfl | rfl <;> rfl

/-- A quote ends a specifier. -/
theorem endsSpecifier_of_isQuote {c : Char} (quote : isQuote c) : endsSpecifier c := by
  simp [endsSpecifier, quote]

/-- White space does not end the head of a clause. -/
theorem endsHead_of_isBlank {c : Char} (blank : Text.isBlank c) : endsHead c = false := by
  have apart : ∀ other ∈ [';', '\'', '"', '\x60'], Text.isBlank other = false := by decide
  rw [Bool.eq_false_iff]
  intro ends
  simp only [endsHead, Bool.or_eq_true, decide_eq_true_eq] at ends
  have member : c ∈ [';', '\'', '"', '\x60'] := by simpa [or_assoc] using ends
  simp [apart c member] at blank

/-! ### What is quoted -/

/-- A quoted specifier is told by its characters and the quote behind them. -/
theorem quotedAt?_eq_some {text : List Char} {quote : Char} {specifier : List Char} :
    quotedAt? text = some (quote, specifier) ↔
      isQuote quote ∧ specifier ≠ [] ∧ (∀ c ∈ specifier, endsSpecifier c = false) ∧
        ∃ rest, text = quote :: specifier ++ quote :: rest := by
  cases text with
  | nil => simp [quotedAt?]
  | cons first rest =>
    unfold quotedAt?
    dsimp only
    constructor
    · intro found
      split at found
      · rename_i shape
        cases found
        simp only [Bool.and_eq_true, Bool.not_eq_true', List.isEmpty_eq_false_iff,
          decide_eq_true_eq] at shape
        obtain ⟨⟨isQuote, nonempty⟩, closed⟩ := shape
        refine ⟨isQuote, nonempty, fun c member => ?_, ?_⟩
        · simpa using List.all_eq_true.mp List.all_takeWhile c member
        · obtain ⟨tail, closing⟩ := List.head?_eq_some_iff.mp closed
          refine ⟨tail, ?_⟩
          rw [← closing, List.cons_append, List.takeWhile_append_dropWhile]
      · cases found
    · rintro ⟨isQuote, nonempty, clean, tail, same⟩
      obtain ⟨rfl, rfl⟩ := List.cons.inj same
      have passes : ∀ c ∈ specifier, (!endsSpecifier c) = true := by simpa using clean
      have stops : (!endsSpecifier first) = false := by simp [endsSpecifier_of_isQuote isQuote]
      have taken : (specifier ++ first :: tail).takeWhile (!endsSpecifier ·) = specifier := by
        rw [List.takeWhile_append_of_pos passes, List.takeWhile_cons, stops]
        simp
      have dropped : (specifier ++ first :: tail).dropWhile (!endsSpecifier ·) = first :: tail := by
        rw [List.dropWhile_append_of_pos passes, List.dropWhile_cons, stops]
        simp
      simp [taken, dropped, isQuote, nonempty]

/-- Nothing is quoted at a character that is no quote. -/
theorem quotedAt?_eq_none {c : Char} {rest : List Char} (plain : isQuote c = false) :
    quotedAt? (c :: rest) = none := by
  simp [quotedAt?, plain]

/-! ### Where clauses are found -/

/-- Blanks are passed over to the end of the head, if nothing else stands there. -/
theorem quotedAt?_dropWhile_isBlank (text : List Char) :
    quotedAt? (text.dropWhile Text.isBlank) =
      if (gap text).all Text.isBlank then quotedAt? (behind text) else none := by
  induction text with
  | nil => rfl
  | cons c rest inductionHypothesis =>
    by_cases blank : Text.isBlank c
    · simpa [gap, behind, blank, endsHead_of_isBlank blank] using inductionHypothesis
    · rw [List.dropWhile_cons_of_neg (by simpa using blank)]
      by_cases ends : endsHead c
      · simp [gap, behind, ends]
      · have plain : isQuote c = false := by
          rw [Bool.eq_false_iff]
          exact fun quote => ends (endsHead_of_isQuote quote)
        simp [gap, ends, blank, quotedAt?_eq_none plain]

/-- A gap of white space is all the white space at the front. -/
theorem takeWhile_isBlank {text : List Char} (blank : (gap text).all Text.isBlank) :
    text.takeWhile Text.isBlank = gap text := by
  induction text with
  | nil => rfl
  | cons c rest inductionHypothesis =>
    by_cases ends : endsHead c
    · have solid : Text.isBlank c = false := by
        rw [Bool.eq_false_iff]
        intro isBlank
        simp [endsHead_of_isBlank isBlank] at ends
      simp [gap, ends, solid]
    · have both : Text.isBlank c ∧ (gap rest).all Text.isBlank := by
        simpa [gap, ends] using blank
      simpa [gap, ends, both.1] using inductionHypothesis both.2

/-- A bare clause is a keyword, a gap of white space, and a quoted specifier. -/
theorem bareClause?_eq (keyword after : List Char) :
    bareClause? keyword after =
      if (gap after).all Text.isBlank then
        (quotedAt? (behind after)).map fun found => ⟨keyword ++ gap after, found.1, found.2⟩
      else none := by
  unfold bareClause?
  rw [quotedAt?_dropWhile_isBlank]
  split
  · rename_i blank
    rw [takeWhile_isBlank blank]
  · rfl

/-- Another clause is a keyword, a gap that ends with the word from, and a quoted specifier. -/
theorem fromClause?_eq {keyword : List Char} (closing : keyword.getLast? = some 't')
    (after : List Char) :
    fromClause? keyword after =
      if Text.isBoundary (some 't') (gap after).head? && endsWithFrom (gap after) then
        (quotedAt? (behind after)).map fun found => ⟨keyword ++ gap after, found.1, found.2⟩
      else none := by
  unfold fromClause?
  rw [closing]
  cases after with
  | nil => rfl
  | cons c rest =>
    by_cases ends : endsHead c
    · simp [gap, ends, endsWithFrom, Text.trimEnd]
    · simp [gap, behind, ends]

/-- The characters of a keyword belong to the head of a clause. -/
theorem gap_append {front : List Char} (clean : ∀ c ∈ front, endsHead c = false)
    (rest : List Char) : gap (front ++ rest) = front ++ gap rest ∧
      behind (front ++ rest) = behind rest := by
  have passes : ∀ c ∈ front, (!endsHead c) = true := by simpa using clean
  exact ⟨List.takeWhile_append_of_pos passes, List.dropWhile_append_of_pos passes⟩

/-- The first keyword does not end the head of a clause. -/
theorem endsHead_import : ∀ c ∈ "import".toList, endsHead c = false := by decide

/-- Neither does the second. -/
theorem endsHead_export : ∀ c ∈ "export".toList, endsHead c = false := by decide

/-- Whether a clause begins at some place is told by the characters up to the end of its head and by
what is quoted behind them. -/
theorem find?_eq (before : Option Char) (text : List Char) :
    find? before text =
      if isHead before (gap text) then
        (quotedAt? (behind text)).map fun found => ⟨gap text, found.1, found.2⟩
      else none := by
  by_cases import_ : ∃ after, text = "import".toList ++ after
  · obtain ⟨after, rfl⟩ := import_
    obtain ⟨head, tail⟩ := gap_append endsHead_import after
    have found : find? before ("import".toList ++ after) =
        if !Text.isBoundary before (some 'i') then none
        else (fromClause? "import".toList after).orElse fun _ => bareClause? "import".toList after :=
      rfl
    have opens : isHead before ("import".toList ++ gap after) =
        (Text.isBoundary before (some 'i') &&
          (Text.isBoundary (some 't') (gap after).head? && endsWithFrom (gap after) ||
            (gap after).all Text.isBlank)) := rfl
    rw [found, head, tail, opens, fromClause?_eq rfl, bareClause?_eq]
    cases Text.isBoundary before (some 'i') <;>
      cases Text.isBoundary (some 't') (gap after).head? && endsWithFrom (gap after) <;>
      cases (gap after).all Text.isBlank <;> cases quotedAt? (behind after) <;> rfl
  · by_cases export_ : ∃ after, text = "export".toList ++ after
    · obtain ⟨after, rfl⟩ := export_
      obtain ⟨head, tail⟩ := gap_append endsHead_export after
      have found : find? before ("export".toList ++ after) =
          if !Text.isBoundary before (some 'e') then none
          else fromClause? "export".toList after := rfl
      have opens : isHead before ("export".toList ++ gap after) =
          (Text.isBoundary before (some 'e') &&
            (Text.isBoundary (some 't') (gap after).head? && endsWithFrom (gap after))) := rfl
      rw [found, head, tail, opens, fromClause?_eq rfl]
      cases Text.isBoundary before (some 'e') <;>
        cases Text.isBoundary (some 't') (gap after).head? && endsWithFrom (gap after) <;> rfl
    · have unfound : find? before text = none := by
        unfold find?
        split
        · rfl
        · split
          · exact absurd ⟨_, rfl⟩ import_
          · exact absurd ⟨_, rfl⟩ export_
          · rfl
      have closed : isHead before (gap text) = false := by
        have whole := gap_append_behind text
        unfold isHead
        split
        · rename_i after same
          exact absurd ⟨after ++ behind text, whole.symm.trans (congrArg (· ++ behind text) same)⟩ import_
        · rename_i after same
          exact absurd ⟨after ++ behind text, whole.symm.trans (congrArg (· ++ behind text) same)⟩ export_
        · simp
      rw [unfound, closed]
      rfl

/-- A clause that is found stands in the text as it is written. -/
theorem isWritten_of_find? {before : Option Char} {text : List Char} {clause : Clause}
    (found : find? before text = some clause) :
    clause.IsWritten ∧ isHead before clause.head ∧ ∃ rest, text = clause.text ++ rest := by
  rw [find?_eq] at found
  split at found
  · rename_i opens
    obtain ⟨⟨quote, specifier⟩, quoted, rfl⟩ := Option.map_eq_some_iff.mp found
    obtain ⟨isQuote, nonempty, clean, rest, tail⟩ := quotedAt?_eq_some.mp quoted
    refine ⟨⟨fun c member => ?_, isQuote, nonempty, clean⟩, opens, rest, ?_⟩
    · simpa using List.all_eq_true.mp List.all_takeWhile c member
    · calc text
          = gap text ++ behind text := (gap_append_behind text).symm
        _ = _ := by
          rw [tail]
          simp [Clause.text]
  · cases found

/-- A written clause is cut at its first quote, and its specifier is what is quoted there. -/
theorem IsWritten.cut {clause : Clause} (written : clause.IsWritten) (rest : List Char) :
    gap (clause.text ++ rest) = clause.head ∧
      quotedAt? (behind (clause.text ++ rest)) = some (clause.quote, clause.specifier) := by
  have parts : clause.text ++ rest =
      clause.head ++ (clause.quote :: clause.specifier ++ clause.quote :: rest) := by
    simp [Clause.text]
  have ends := endsHead_of_isQuote written.quote
  obtain ⟨head, tail⟩ := gap_append written.head
    (clause.quote :: clause.specifier ++ clause.quote :: rest)
  rw [parts, head, tail]
  constructor
  · simp [gap, ends]
  · rw [behind, List.cons_append, List.dropWhile_cons_of_neg (by simp [ends])]
    exact quotedAt?_eq_some.mpr ⟨written.quote, written.nonempty, written.specifier, rest, rfl⟩

/-- A written clause is found wherever its head is one. -/
theorem find?_text {before : Option Char} {clause : Clause} (written : clause.IsWritten)
    (opens : isHead before clause.head) (rest : List Char) :
    find? before (clause.text ++ rest) = some clause := by
  obtain ⟨head, quoted⟩ := written.cut rest
  rw [find?_eq, head, quoted, if_pos opens]
  rfl

/-! ### Scanning -/

/-- The segments of a text, found one after the other from a place with the given character before
it. -/
inductive Scanned : Option Char → List Char → List (Text.Segment Clause) → Prop where
  | nil (before : Option Char) : Scanned before [] []
  | char {before : Option Char} (c : Char) {rest : List Char}
      {segments : List (Text.Segment Clause)} (none : find? before (c :: rest) = .none)
      (others : Scanned (some c) rest segments) : Scanned before (c :: rest) (.char c :: segments)
  | found {before : Option Char} (clause : Clause) {rest : List Char}
      {segments : List (Text.Segment Clause)} (written : clause.IsWritten)
      (opens : isHead before clause.head) (others : Scanned (some clause.quote) rest segments) :
      Scanned before (clause.text ++ rest) (.found clause :: segments)

/-- A clause at the start of a text is its first segment. -/
theorem segmentsFrom_text {before : Option Char} {clause : Clause} (written : clause.IsWritten)
    (opens : isHead before clause.head) (rest : List Char) :
    Text.segmentsFrom pattern before 0 (clause.text ++ rest) =
      .found clause :: Text.segmentsFrom pattern (some clause.quote) 0 rest := by
  have found := find?_text written opens rest
  obtain ⟨first, front, start⟩ : ∃ first front,
      clause.head ++ clause.quote :: clause.specifier = first :: front := by
    cases clause.head <;> exact ⟨_, _, rfl⟩
  have whole : clause.text ++ rest = first :: (front ++ clause.quote :: rest) := by
    rw [Clause.text, start]
    simp
  have length : clause.text.length - 1 = front.length + 1 := by
    rw [Clause.text, start]
    simp
  rw [whole] at found ⊢
  rw [Text.segmentsFrom, pattern, found]
  change .found clause :: Text.segmentsFrom pattern (some first) (clause.text.length - 1) _ = _
  rw [length, Text.segmentsFrom_skip]

/-- The segments of a text are found one after the other. -/
theorem scanned_segmentsFrom (before : Option Char) (text : List Char) :
    Scanned before text (Text.segmentsFrom pattern before 0 text) := by
  cases text with
  | nil => exact .nil before
  | cons c rest =>
    cases found : find? before (c :: rest) with
    | none =>
      rw [Text.segmentsFrom, pattern, found]
      exact .char c found (scanned_segmentsFrom (some c) rest)
    | some clause =>
      obtain ⟨written, opens, tail, cut⟩ := isWritten_of_find? found
      have shorter : tail.length ≤ rest.length := by
        have lengths := congrArg List.length cut
        simp only [Clause.text, List.length_append, List.length_cons] at lengths
        omega
      rw [cut, segmentsFrom_text written opens]
      exact .found clause written opens (scanned_segmentsFrom (some clause.quote) tail)
termination_by text.length

/-- Nothing else is found one after the other. -/
theorem Scanned.segmentsFrom_eq {before : Option Char} {text : List Char}
    {segments : List (Text.Segment Clause)} (scanned : Scanned before text segments) :
    Text.segmentsFrom pattern before 0 text = segments := by
  induction scanned with
  | nil => rfl
  | char c none _ inductionHypothesis =>
    rw [Text.segmentsFrom, pattern, none]
    exact congrArg _ inductionHypothesis
  | found clause written opens _ inductionHypothesis =>
    rw [segmentsFrom_text written opens, inductionHypothesis]

/-! ### Other specifiers -/

/-- A segment with another specifier, if it is a clause. -/
inductive Respecified : Text.Segment Clause → Text.Segment Clause → Prop where
  | char (c : Char) : Respecified (.char c) (.char c)
  | found (clause : Clause) {specifier : List Char} (nonempty : specifier ≠ [])
      (clean : ∀ c ∈ specifier, endsSpecifier c = false) :
      Respecified (.found clause) (.found { clause with specifier })

/-- The text of segments. -/
abbrev textOf (segments : List (Text.Segment Clause)) : List Char :=
  Text.render Clause.text segments

/-- Up to a character that is the same in two texts, they are cut alike. -/
theorem takeWhile_of_stop {keep : Char → Bool} {stop : Char} (stops : keep stop = false)
    (front rest other : List Char) :
    (front ++ stop :: rest).takeWhile keep = (front ++ stop :: other).takeWhile keep ∧
      ((front ++ stop :: rest).dropWhile keep).head? =
        ((front ++ stop :: other).dropWhile keep).head? := by
  induction front with
  | nil => simp [stops]
  | cons c front inductionHypothesis =>
    by_cases kept : keep c <;> simp [kept, inductionHypothesis]

section

variable {before : Option Char} {text : List Char} {segments others : List (Text.Segment Clause)}

/-- A specifier that begins in the middle of other text ends as before: what is replaced stands behind a
quote. -/
theorem Scanned.specifier_eq (scanned : Scanned before text segments)
    (each : List.Forall₂ Respecified segments others) :
    (textOf others).takeWhile (!endsSpecifier ·) = text.takeWhile (!endsSpecifier ·) ∧
      ((textOf others).dropWhile (!endsSpecifier ·)).head? =
        (text.dropWhile (!endsSpecifier ·)).head? := by
  induction scanned generalizing others with
  | nil =>
    cases each
    exact ⟨rfl, rfl⟩
  | char c _ _ inductionHypothesis =>
    cases each with
    | cons first rest =>
      cases first
      obtain ⟨taken, left⟩ := inductionHypothesis rest
      by_cases ends : endsSpecifier c
      · simp [textOf, Text.render, ends]
      · simpa [textOf, Text.render, ends] using ⟨taken, left⟩
  | found clause written opens _ inductionHypothesis =>
    cases each with
    | cons first rest =>
      cases first
      have stops : (!endsSpecifier clause.quote) = false := by
        simp [endsSpecifier_of_isQuote written.quote]
      have cut := @takeWhile_of_stop (!endsSpecifier ·) clause.quote stops clause.head
      simp only [textOf, Text.render, List.flatMap_cons, Clause.text, List.append_assoc,
        List.cons_append]
      exact cut _ _

/-- Whether something is quoted at a character depends on the text up to the end of the specifier. -/
theorem isSome_quotedAt? {c : Char} {rest other : List Char}
    (taken : other.takeWhile (!endsSpecifier ·) = rest.takeWhile (!endsSpecifier ·))
    (left : (other.dropWhile (!endsSpecifier ·)).head? =
      (rest.dropWhile (!endsSpecifier ·)).head?) :
    quotedAt? (c :: other) = quotedAt? (c :: rest) := by
  simp only [quotedAt?, taken, left]

/-- A head that begins anywhere ends as before, and something is quoted behind it if this was so
before. -/
theorem Scanned.head_eq (scanned : Scanned before text segments)
    (each : List.Forall₂ Respecified segments others) :
    gap (textOf others) = gap text ∧
      (quotedAt? (behind (textOf others))).isSome = (quotedAt? (behind text)).isSome := by
  induction scanned generalizing others with
  | nil =>
    cases each
    exact ⟨rfl, rfl⟩
  | @char _ c rest _ none following inductionHypothesis =>
    cases each with
    | @cons _ _ _ others first each =>
      cases first
      change gap (c :: textOf others) = gap (c :: rest) ∧
        (quotedAt? (behind (c :: textOf others))).isSome = (quotedAt? (behind (c :: rest))).isSome
      by_cases ends : endsHead c
      · obtain ⟨taken, left⟩ := following.specifier_eq each
        simp [gap, behind, ends, isSome_quotedAt? taken left]
      · simpa [gap, behind, ends] using inductionHypothesis each
  | @found _ clause rest _ written opens following =>
    cases each with
    | @cons _ _ _ others first each =>
      cases first with
      | @found _ specifier nonempty clean =>
        have respecified : IsWritten { clause with specifier } :=
          ⟨written.head, written.quote, nonempty, clean⟩
        obtain ⟨head, quoted⟩ := written.cut rest
        obtain ⟨headOther, quotedOther⟩ := respecified.cut (textOf others)
        have whole : textOf (.found { clause with specifier } :: others) =
            ({ clause with specifier } : Clause).text ++ textOf others := rfl
        rw [whole, head, headOther, quoted, quotedOther]
        exact ⟨rfl, rfl⟩

/-- With other specifiers, the same clauses are found at the same places. -/
theorem Scanned.respecify (scanned : Scanned before text segments)
    (each : List.Forall₂ Respecified segments others) : Scanned before (textOf others) others := by
  induction scanned generalizing others with
  | nil before =>
    cases each
    exact .nil before
  | @char before c rest segments none following inductionHypothesis =>
    obtain ⟨head, quoted⟩ := (Scanned.char c none following).head_eq each
    cases each with
    | @cons _ _ _ others first each =>
      cases first
      change Scanned before (c :: textOf others) (.char c :: others)
      refine .char c ?_ (inductionHypothesis each)
      change gap (c :: textOf others) = gap (c :: rest) at head
      change (quotedAt? (behind (c :: textOf others))).isSome = _ at quoted
      rw [find?_eq] at none ⊢
      rw [head]
      split
      · rename_i opens
        rw [if_pos opens, Option.map_eq_none_iff] at none
        rw [none] at quoted
        rw [Option.map_eq_none_iff]
        exact Option.not_isSome_iff_eq_none.mp (by simp [quoted])
      · rfl
  | @found before clause rest segments written opens following inductionHypothesis =>
    cases each with
    | @cons _ _ _ others first each =>
      cases first with
      | @found _ specifier nonempty clean =>
        have respecified : IsWritten { clause with specifier } :=
          ⟨written.head, written.quote, nonempty, clean⟩
        exact .found { clause with specifier } respecified opens (inductionHypothesis each)

/-- The segments of a text are together the text. -/
theorem Scanned.textOf_eq (scanned : Scanned before text segments) : textOf segments = text := by
  induction scanned with
  | nil => rfl
  | char c _ _ inductionHypothesis => exact congrArg (c :: ·) inductionHypothesis
  | found clause _ _ _ inductionHypothesis => exact congrArg (clause.text ++ ·) inductionHypothesis

/-- Every clause that is found is written. -/
theorem Scanned.isWritten (scanned : Scanned before text segments) {clause : Clause}
    (member : .found clause ∈ segments) : clause.IsWritten := by
  induction scanned with
  | nil => cases member
  | char c _ _ inductionHypothesis =>
    exact inductionHypothesis ((List.mem_cons.mp member).resolve_left nofun)
  | found other written _ _ inductionHypothesis =>
    rcases List.mem_cons.mp member with same | later
    · cases same
      exact written
    · exact inductionHypothesis later

end

/-- The characters of a clause are those of its head, its quote and its specifier. -/
theorem mem_text {clause : Clause} {c : Char} :
    c ∈ clause.text ↔ c ∈ clause.head ∨ c = clause.quote ∨ c ∈ clause.specifier := by
  simp only [text, List.mem_append, List.mem_cons, List.not_mem_nil, or_false]
  tauto

/-- The segments of a text with other specifiers are those of the text with these specifiers. -/
theorem segments_textOf {text : List Char} {others : List (Text.Segment Clause)}
    (each : List.Forall₂ Respecified (Text.segments pattern text) others) :
    Text.segments pattern (textOf others) = others :=
  ((scanned_segmentsFrom none text).respecify each).segmentsFrom_eq

/-- A character that no specifier may hold is in the new text only if it was in the old one. -/
theorem mem_textOf_respecified {segments others : List (Text.Segment Clause)}
    (each : List.Forall₂ Respecified segments others) {c : Char} (barred : endsSpecifier c)
    (member : c ∈ textOf others) : c ∈ textOf segments := by
  induction each with
  | nil => exact member
  | @cons segment other segments others first _ inductionHypothesis =>
    cases first with
    | char d =>
      rcases List.mem_cons.mp member with here | later
      · exact List.mem_cons.mpr (.inl here)
      · exact List.mem_cons_of_mem _ (inductionHypothesis later)
    | @found clause specifier _ clean =>
      change c ∈ ({ clause with specifier } : Clause).text ++ textOf others at member
      change c ∈ clause.text ++ textOf segments
      have outside : c ∉ specifier := fun inside => by simp [clean c inside] at barred
      rcases List.mem_append.mp member with here | later
      · have kept : c ∈ clause.head ∨ c = clause.quote := by simpa [mem_text, outside] using here
        exact List.mem_append_left _ (mem_text.mpr (kept.imp_right .inl))
      · exact List.mem_append_right _ (inductionHypothesis later)

end Clause

end TreeBuild
