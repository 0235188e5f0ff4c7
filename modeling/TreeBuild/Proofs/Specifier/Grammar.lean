import TreeBuild.Proofs.Specifier.Scanning

/-!
# Texts in which code and clauses alternate

What a scan has to find can be said without scanning: a clause is written in one of three ways, and a text
is code and clauses in turn. In code nothing is found as long as neither keyword is a word of it, because
every finding begins with a keyword that is a word. And where a clause begins, that clause is found and no
other: its head reaches to the first quote behind it, so there is only one way to read it.

Code may hold anything else, also quotes that are never closed. In front of a clause it must not end with a
character of a word, for then the keyword of the clause is no word.
-/
namespace TreeBuild

namespace Clause

/-! ### The grammar -/

/-- The words that open clauses. -/
def keywords : List (List Char) := ["import".toList, "export".toList]

/-- The head of a clause: the keyword `import` and blanks, or a keyword, any text without semicolons and
quotes, the word `from`, and blanks. There are word boundaries behind the keyword and in front of `from`. -/
inductive IsOpening : List Char → Prop where
  | bare {blanks : List Char} (blank : ∀ c ∈ blanks, Text.isBlank c) : IsOpening ("import".toList ++ blanks)
  | binding {keyword between blanks : List Char} (opens : keyword ∈ keywords)
      (clean : ∀ c ∈ between, endsHead c = false)
      (leaves : Text.isBoundary keyword.getLast? (between ++ "from".toList).head?)
      (enters : Text.isBoundary (keyword ++ between).getLast? "from".toList.head?)
      (blank : ∀ c ∈ blanks, Text.isBlank c) :
      IsOpening (keyword ++ (between ++ ("from".toList ++ blanks)))

/-- A clause as it may be written: a head, and a specifier between two equal quotes, which is not empty and
holds neither quotes nor line ends. -/
structure IsGrammatical (clause : Clause) : Prop where
  head : IsOpening clause.head
  quote : isQuote clause.quote
  nonempty : clause.specifier ≠ []
  specifier : ∀ c ∈ clause.specifier, endsSpecifier c = false

/-- Whether a word occurs in a text, with no other character of a word beside it. -/
def HasWord (word text : List Char) : Prop :=
  ∃ before after, text = before ++ (word ++ after) ∧
    before.getLast?.any Text.isWordChar = false ∧ after.head?.any Text.isWordChar = false

/-- Code has no keyword among its words. -/
def IsCode (code : List Char) : Prop := ∀ keyword ∈ keywords, ¬ HasWord keyword code

/-- A text in which code and clauses alternate, with the clauses in their order. Code in front of a clause
does not end with a character of a word. -/
inductive Alternates : List Char → List Clause → Prop where
  | code {code : List Char} (isCode : IsCode code) : Alternates code []
  | clause {code rest : List Char} {clause : Clause} {clauses : List Clause} (isCode : IsCode code)
      (ends : code.getLast?.any Text.isWordChar = false) (grammatical : clause.IsGrammatical)
      (others : Alternates rest clauses) : Alternates (code ++ (clause.text ++ rest)) (clause :: clauses)

/-! ### Characters of words -/

/-- Blanks are no characters of words. -/
theorem isWordChar_of_isBlank {c : Char} (blank : Text.isBlank c) : Text.isWordChar c = false := by
  have apart : ∀ n ∈ Text.blankRanges.flatMap fun range => List.range' range.1 (range.2 + 1 - range.1),
      Text.isWordChar (Char.ofNat n) = false := by decide +kernel
  obtain ⟨range, listed, inside⟩ := List.any_eq_true.mp blank
  simp only [Bool.and_eq_true, decide_eq_true_eq] at inside
  have member : c.toNat ∈ Text.blankRanges.flatMap fun range =>
      List.range' range.1 (range.2 + 1 - range.1) := by
    apply List.mem_flatMap.mpr
    refine ⟨range, listed, List.mem_range'_1.mpr ?_⟩
    omega
  have known := apart c.toNat member
  rwa [Char.ofNat_toNat] at known

/-- Quotes are no characters of words. -/
theorem isWordChar_of_isQuote {c : Char} (quote : isQuote c) : Text.isWordChar c = false := by
  simp only [isQuote, Bool.or_eq_true, decide_eq_true_eq] at quote
  rcases quote with rfl | rfl <;> decide

/-- The characters of a keyword are characters of words. -/
theorem isWordChar_of_mem_keyword {keyword : List Char} (listed : keyword ∈ keywords) {c : Char}
    (member : c ∈ keyword) : Text.isWordChar c = true := by
  have all : ∀ keyword ∈ keywords, ∀ c ∈ keyword, Text.isWordChar c = true := by decide
  exact all keyword listed c member

/-- Behind a character of a word there is a boundary exactly where the word ends. -/
theorem isBoundary_of_isWordChar {c : Char} (word : Text.isWordChar c = true) (after : Option Char) :
    Text.isBoundary (some c) after = !after.any Text.isWordChar := by
  simp [Text.isBoundary, word]

/-! ### Heads -/

/-- A head of the grammar is one that is looked for. -/
theorem endsWithFrom_append {front blanks : List Char} (blank : ∀ c ∈ blanks, Text.isBlank c)
    (enters : Text.isBoundary front.getLast? "from".toList.head?) :
    endsWithFrom (front ++ ("from".toList ++ blanks)) := by
  have backward : (Text.trimEnd Text.isBlank (front ++ ("from".toList ++ blanks))).reverse =
      'm' :: 'o' :: 'r' :: 'f' :: front.reverse := by
    have passed : ∀ c ∈ blanks.reverse, Text.isBlank c := fun c member => blank c (List.mem_reverse.mp member)
    have word : ("from".toList).reverse = ['m', 'o', 'r', 'f'] := by decide
    rw [Text.trimEnd, List.reverse_reverse, List.reverse_append, List.reverse_append, List.append_assoc,
      List.dropWhile_append_of_pos passed, word, List.cons_append, List.dropWhile_cons_of_neg (by decide)]
    rfl
  rw [endsWithFrom, backward]
  change Text.isBoundary front.reverse.head? (some 'f') = true
  rw [List.head?_reverse]
  exact enters

/-- The head of a clause begins with a keyword, and no character of it ends the head. -/
theorem IsOpening.clean {head : List Char} (opening : IsOpening head) : ∀ c ∈ head, endsHead c = false := by
  have keyword : ∀ keyword ∈ keywords, ∀ c ∈ keyword, endsHead c = false := by decide
  cases opening with
  | bare blank =>
    have passed := fun c member => endsHead_of_isBlank (blank c member)
    exact List.forall_mem_append.mpr ⟨keyword _ (by decide), passed⟩
  | binding opens clean _ _ blank =>
    have passed := fun c member => endsHead_of_isBlank (blank c member)
    have word : ∀ c ∈ "from".toList, endsHead c = false := by decide
    exact List.forall_mem_append.mpr ⟨keyword _ opens,
      List.forall_mem_append.mpr ⟨clean, List.forall_mem_append.mpr ⟨word, passed⟩⟩⟩

/-- A clause of the grammar has the form of a clause. -/
theorem IsGrammatical.isWritten {clause : Clause} (grammatical : clause.IsGrammatical) : clause.IsWritten :=
  ⟨grammatical.head.clean, grammatical.quote, grammatical.nonempty, grammatical.specifier⟩

/-- Where no character of a word stands before it, a head of the grammar opens a clause. -/
theorem IsOpening.isHead {before : Option Char} {head : List Char} (opening : IsOpening head)
    (outside : before.any Text.isWordChar = false) : isHead before head := by
  have boundary {c : Char} (word : Text.isWordChar c = true) : Text.isBoundary before (some c) = true := by
    simp [Text.isBoundary, outside, word]
  cases opening with
  | @bare blanks blank =>
    have all : blanks.all Text.isBlank = true := List.all_eq_true.mpr blank
    change (Text.isBoundary before (some 'i') && (_ || blanks.all Text.isBlank)) = true
    rw [boundary (by decide), all, Bool.or_true, Bool.and_true]
  | @binding keyword between blanks opens clean leaves enters blank =>
    have nonempty : between ≠ [] := by
      rintro rfl
      have none : ∀ keyword ∈ keywords,
          Text.isBoundary (keyword ++ []).getLast? "from".toList.head? = false := by decide
      rw [none keyword opens] at enters
      cases enters
    have ending : endsWithFrom (between ++ ("from".toList ++ blanks)) = true := by
      apply endsWithFrom_append blank
      rwa [List.getLast?_append_of_ne_nil _ nonempty] at enters
    have first : (between ++ ("from".toList ++ blanks)).head? = (between ++ "from".toList).head? := by
      rw [List.head?_append_of_ne_nil _ nonempty, List.head?_append_of_ne_nil _ nonempty]
    rw [← first] at leaves
    rcases List.mem_pair.mp opens with rfl | rfl
    · change (Text.isBoundary before (some 'i') &&
        (Text.isBoundary (some 't') (between ++ ("from".toList ++ blanks)).head? &&
          endsWithFrom (between ++ ("from".toList ++ blanks)) || _)) = true
      rw [boundary (by decide), ending]
      rw [show Text.isBoundary (some 't') _ = true from leaves]
      rfl
    · change (Text.isBoundary before (some 'e') &&
        (Text.isBoundary (some 't') (between ++ ("from".toList ++ blanks)).head? &&
          endsWithFrom (between ++ ("from".toList ++ blanks)))) = true
      rw [boundary (by decide), ending, show Text.isBoundary (some 't') _ = true from leaves]
      rfl

/-! ### Code -/

/-- A head begins with a keyword in front of which a word begins, and what stands behind it, if anything does,
is a blank or lies across a word boundary. -/
theorem keyword_of_isHead {before : Option Char} {head : List Char} (opens : isHead before head) :
    before.any Text.isWordChar = false ∧ ∃ keyword ∈ keywords, ∃ after, head = keyword ++ after ∧
      (Text.isBoundary (some 't') after.head? ∨ after.all Text.isBlank) := by
  unfold isHead at opens
  rw [Bool.and_eq_true] at opens
  obtain ⟨boundary, shape⟩ := opens
  have outside : ∀ first, Text.isWordChar first = true → head.head? = some first →
      before.any Text.isWordChar = false := by
    intro first word starts
    rw [starts] at boundary
    simpa [Text.isBoundary, word] using boundary
  split at shape
  · rename_i after
    rw [Bool.or_eq_true, Bool.and_eq_true] at shape
    exact ⟨outside 'i' (by decide) rfl, "import".toList, by decide, after, rfl, shape.imp_left And.left⟩
  · rename_i after
    rw [Bool.and_eq_true] at shape
    exact ⟨outside 'e' (by decide) rfl, "export".toList, by decide, after, rfl, .inl shape.1⟩
  · cases shape

/-- Every finding begins with a keyword that is a word. -/
theorem keyword_of_find? {before : Option Char} {text : List Char} {clause : Clause}
    (found : find? before text = some clause) :
    before.any Text.isWordChar = false ∧
      ∃ keyword ∈ keywords, ∃ after, text = keyword ++ after ∧ after.head?.any Text.isWordChar = false := by
  obtain ⟨written, opens, rest, rfl⟩ := isWritten_of_find? found
  obtain ⟨outside, keyword, listed, after, same, behind⟩ := keyword_of_isHead opens
  refine ⟨outside, keyword, listed,
    after ++ clause.quote :: (clause.specifier ++ clause.quote :: rest), by simp [Clause.text, same], ?_⟩
  cases after with
  | nil => exact isWordChar_of_isQuote written.quote
  | cons c others =>
    rcases behind with boundary | blank
    · rw [isBoundary_of_isWordChar (by decide)] at boundary
      simpa using boundary
    · exact isWordChar_of_isBlank (List.all_eq_true.mp blank c List.mem_cons_self)

section

variable {before : Option Char} {front back rest : List Char} {c : Char}

/-- Nothing is found at a place in code. -/
theorem find?_of_isCode (isCode : IsCode (front ++ c :: back))
    (ends : rest = [] ∨ (front ++ c :: back).getLast?.any Text.isWordChar = false) :
    find? (front.getLast?.or before) (c :: back ++ rest) = none := by
  by_contra found
  obtain ⟨clause, found⟩ := Option.ne_none_iff_exists'.mp found
  obtain ⟨outside, keyword, listed, after, same, behind⟩ := keyword_of_find? found
  have starts : front.getLast?.any Text.isWordChar = false := by
    cases last : front.getLast? with
    | none => rfl
    | some d =>
      rw [last] at outside
      exact outside
  rcases List.append_eq_append_iff.mp same with ⟨more, longer, left⟩ | ⟨more, inside, left⟩
  · -- The keyword reaches to the end of the code or beyond it.
    by_cases none : more = []
    · subst none
      rw [List.append_nil] at longer
      exact isCode keyword listed ⟨front, [], by rw [longer, List.append_nil], starts, rfl⟩
    · have notEnd : rest ≠ [] := by
        rintro rfl
        exact none (List.append_eq_nil_iff.mp left.symm).1
      obtain ⟨d, last⟩ : ∃ d, (c :: back).getLast? = some d := ⟨_, List.getLast?_eq_some_getLast (by simp)⟩
      have word : Text.isWordChar d = true := by
        apply isWordChar_of_mem_keyword listed
        rw [longer]
        exact List.mem_append_left _ (List.mem_of_getLast? last)
      have closing := ends.resolve_left notEnd
      rw [List.getLast?_append_of_ne_nil _ (List.cons_ne_nil c back), last] at closing
      rw [Option.any_some, word] at closing
      cases closing
  · -- The keyword is a word of the code.
    refine isCode keyword listed ⟨front, more, by rw [inside], starts, ?_⟩
    cases more with
    | nil => rfl
    | cons d others =>
      rw [left] at behind
      exact behind

/-- Code is passed over one character after the other. -/
theorem segmentsFrom_code {code : List Char} (isCode : IsCode code)
    (ends : rest = [] ∨ code.getLast?.any Text.isWordChar = false) :
    Text.segmentsFrom pattern before 0 (code ++ rest) =
      code.map .char ++ Text.segmentsFrom pattern (code.getLast?.or before) 0 rest := by
  have onward : ∀ left front, code = front ++ left →
      Text.segmentsFrom pattern (front.getLast?.or before) 0 (left ++ rest) =
        left.map .char ++ Text.segmentsFrom pattern (code.getLast?.or before) 0 rest := by
    intro left
    induction left with
    | nil =>
      intro front whole
      rw [List.append_nil] at whole
      rw [whole]
      rfl
    | cons c back inductionHypothesis =>
      intro front whole
      have nothing : find? (front.getLast?.or before) (c :: back ++ rest) = none := by
        apply find?_of_isCode
        · rw [← whole]
          exact isCode
        · rw [← whole]
          exact ends
      have step := inductionHypothesis (front ++ [c]) (by rw [whole, List.append_assoc]; rfl)
      rw [List.getLast?_append, List.getLast?_singleton, Option.some_or, Option.some_or] at step
      rw [List.cons_append] at nothing ⊢
      rw [Text.segmentsFrom, pattern, nothing]
      exact congrArg (.char c :: ·) step
  exact onward code [] rfl

/-! ### Whole texts -/

/-- In code and clauses in turn, the clauses are found, and nothing else. -/
theorem Alternates.segmentsFrom {text : List Char} {clauses : List Clause} (alternates : Alternates text clauses)
    (outside : before.any Text.isWordChar = false) :
    (Text.segmentsFrom pattern before 0 text).filterMap Text.Segment.value? = clauses := by
  have passed : ∀ code : List Char,
      (code.map Text.Segment.char : List (Text.Segment Clause)).filterMap Text.Segment.value? = [] := by
    intro code
    rw [List.filterMap_map]
    exact List.filterMap_eq_nil_iff.mpr fun _ _ => rfl
  induction alternates generalizing before with
  | @code code isCode =>
    have whole : Text.segmentsFrom pattern before 0 (code ++ []) = code.map .char ++ _ :=
      segmentsFrom_code isCode (.inl rfl)
    rw [List.append_nil] at whole
    rw [whole, List.filterMap_append, passed]
    rfl
  | @clause code rest clause clauses isCode ends grammatical _ inductionHypothesis =>
    have behind : (code.getLast?.or before).any Text.isWordChar = false := by
      cases last : code.getLast? with
      | none => exact outside
      | some d =>
        rw [last] at ends
        exact ends
    have quote : (some clause.quote).any Text.isWordChar = false := isWordChar_of_isQuote grammatical.quote
    rw [segmentsFrom_code isCode (.inr ends),
      segmentsFrom_text grammatical.isWritten (grammatical.head.isHead behind), List.filterMap_append, passed,
      List.nil_append]
    exact congrArg (clause :: ·) (inductionHypothesis quote)

end

/-- In a text in which code and clauses alternate, a scan finds the specifiers of the clauses, all of them, no
others, and in their order. -/
theorem scan_finds_clauses (text : String) (clauses : List Clause) (alternates : Alternates text.toList clauses) :
    specifiers text = clauses.map fun clause => String.ofList clause.specifier := by
  rw [specifiers, Text.findings_eq, Text.segments, alternates.segmentsFrom rfl]

/-! ### A text without blanks -/

/-- Words are looked for at each place. -/
instance (word text : List Char) : Decidable (HasWord word text) :=
  decidable_of_iff (∃ count, count < text.length + 1 ∧ word <+: text.drop count ∧
      (text.take count).getLast?.any Text.isWordChar = false ∧
      ((text.drop count).drop word.length).head?.any Text.isWordChar = false) <| by
    constructor
    · rintro ⟨count, -, ⟨after, same⟩, starts, ends⟩
      rw [← same, List.drop_left] at ends
      exact ⟨text.take count, after, by rw [same, List.take_append_drop], starts, ends⟩
    · rintro ⟨before, after, rfl, starts, ends⟩
      refine ⟨before.length, by simp only [List.length_append]; omega, ?_, ?_, ?_⟩
      · rw [List.drop_left]
        exact List.prefix_append word after
      · rwa [List.take_left]
      · rwa [List.drop_left, List.drop_left]

instance (code : List Char) : Decidable (IsCode code) :=
  inferInstanceAs (Decidable (∀ keyword ∈ keywords, ¬ HasWord keyword code))

/-- Clauses that stand close together, behind a quote that is never closed and in front of an import that is
none. -/
def closeClauses : List Clause :=
  [⟨"import{b as c}from".toList, '"', "./b".toList⟩, ⟨"export*from".toList, '\'', "./lib".toList⟩,
    ⟨"import".toList, '"', "./util".toList⟩]

/-- The clauses of the text stand in it one close to the other, with other text between them. -/
theorem closeClauses_alternate : Alternates
    "it's;import{b as c}from\"./b\";export*from'./lib'import\"./util\";imports('./c')".toList closeClauses := by
  have binding : ∀ keyword between : List Char, keyword ∈ keywords → (∀ c ∈ between, endsHead c = false) →
      Text.isBoundary keyword.getLast? (between ++ "from".toList).head? →
      Text.isBoundary (keyword ++ between).getLast? "from".toList.head? →
      IsOpening (keyword ++ (between ++ ("from".toList ++ []))) :=
    fun _ _ opens clean leaves enters => .binding opens clean leaves enters (by decide)
  have first : IsOpening "import{b as c}from".toList :=
    binding "import".toList "{b as c}".toList (by decide) (by decide) (by decide) (by decide)
  have second : IsOpening "export*from".toList :=
    binding "export".toList "*".toList (by decide) (by decide) (by decide) (by decide)
  have third : IsOpening "import".toList := @IsOpening.bare [] (by decide)
  have written : "it's;import{b as c}from\"./b\";export*from'./lib'import\"./util\";imports('./c')".toList =
      "it's;".toList ++ (Clause.text ⟨"import{b as c}from".toList, '"', "./b".toList⟩ ++
        (";".toList ++ (Clause.text ⟨"export*from".toList, '\'', "./lib".toList⟩ ++
          ("".toList ++ (Clause.text ⟨"import".toList, '"', "./util".toList⟩ ++
            ";imports('./c')".toList))))) := by decide +kernel
  rw [written]
  apply Alternates.clause (by decide +kernel) (by decide) ⟨first, by decide, by decide, by decide⟩
  apply Alternates.clause (by decide +kernel) (by decide) ⟨second, by decide, by decide, by decide⟩
  apply Alternates.clause (by decide +kernel) (by decide) ⟨third, by decide, by decide, by decide⟩
  exact .code (by decide +kernel)

/-- The three clauses are found. -/
theorem scan_finds_clauses_of_close :
    specifiers "it's;import{b as c}from\"./b\";export*from'./lib'import\"./util\";imports('./c')" =
      ["./b", "./lib", "./util"] :=
  scan_finds_clauses _ closeClauses closeClauses_alternate

end Clause

end TreeBuild
