import Mathlib.Data.List.Forall2
import TreeBuild.Proofs.Json.Extension
import TreeBuild.Proofs.Json.Legible

/-!
# Words of JSON

A word of a document is a text that is one lexeme and nothing else. It stays the same lexeme when other text
follows it: a quoted text ends with its quote, a bracket, a comma or a colon is one character, and a number or
the name of a value ends where something begins that words do not consist of.
-/
namespace TreeBuild.Json

/-! ### Words that stand by themselves -/

section

variable {back : List Char}

/-- A run of digits is the same whatever stands behind the text, if it does not begin with a digit. -/
theorem digitRun_before (ends : EndsDigits back) (text : List Char) :
    digitRun (text ++ back) = ((digitRun text).1, (digitRun text).2 ++ back) := by
  have none : back.takeWhile Char.isDigit = [] ∧ back.dropWhile Char.isDigit = back := by
    cases back with
    | nil => exact ⟨rfl, rfl⟩
    | cons c others => simp [ends c rfl]
  induction text with
  | nil => simp [digitRun, none]
  | cons c rest inductionHypothesis =>
    simp only [digitRun, Prod.mk.injEq] at inductionHypothesis ⊢
    cases digit : c.isDigit <;>
      simp [digit, inductionHypothesis.1, inductionHypothesis.2]

/-- The whole part of a numeral is the same with a text behind it that begins with no digit. -/
theorem wholePart_before (ends : EndsDigits back) (text : List Char) :
    wholePart (text ++ back) = ((wholePart text).1, (wholePart text).2 ++ back) := by
  by_cases zero : ∃ rest, text = '0' :: rest
  · obtain ⟨rest, rfl⟩ := zero
    rfl
  · have other (more : List Char) (begins : ∀ rest, more ≠ '0' :: rest) : wholePart more = digitRun more := by
      unfold wholePart
      split
      · exact absurd rfl (begins _)
      · rfl
    have plain (rest : List Char) : text ≠ '0' :: rest := fun same => zero ⟨rest, same⟩
    rw [other text plain, other, digitRun_before ends]
    cases text with
    | nil =>
      rintro rest rfl
      cases ends '0' rfl
    | cons c others =>
      intro rest same
      exact plain others (by rw [(List.cons.inj same).1])

/-- So is its fraction. -/
theorem fractionPart_before (ends : EndsWord back) (text : List Char) :
    fractionPart (text ++ back) = (fractionPart text).map fun part => (part.1, part.2 ++ back) := by
  cases text with
  | nil =>
    refine fractionPart_none fun c first => ?_
    rintro rfl
    cases ends '.' first
  | cons c rest =>
    by_cases point : c = '.'
    · subst point
      simp only [fractionPart, List.cons_append, digitRun_before (endsDigits_of_endsWord ends)]
      rcases digitRun rest with ⟨_ | ⟨digit, digits⟩, more⟩ <;> rfl
    · rw [fractionPart_none (by simpa using point), fractionPart_none (by simpa using point)]
      rfl

/-- The sign of an exponent, if it has one, and the characters behind. -/
def signPart : List Char → Bool × List Char
  | '-' :: rest => (true, rest)
  | '+' :: rest => (false, rest)
  | rest => (false, rest)

/-- An exponent is an e of either case, a sign or none, and digits. -/
theorem exponentPart_cons (e : Char) (rest : List Char) :
    exponentPart (e :: rest) =
      if e = 'e' ∨ e = 'E' then
        match digitRun (signPart rest).2 with
        | ([], _) => none
        | (digits, more) =>
          some (if (signPart rest).1 then -(ofDigitRun digits : Int) else ofDigitRun digits, more)
      else none := by
  rfl

/-- The sign of an exponent is the same with another text behind it. -/
theorem signPart_before (ends : EndsWord back) (text : List Char) :
    signPart (text ++ back) = ((signPart text).1, (signPart text).2 ++ back) := by
  cases text with
  | nil =>
    rw [List.nil_append]
    unfold signPart
    split
    · cases ends '-' rfl
    · cases ends '+' rfl
    · rfl
  | cons c others =>
    unfold signPart
    split <;> simp_all

/-- So is the exponent. -/
theorem exponentPart_before (ends : EndsWord back) (text : List Char) :
    exponentPart (text ++ back) = (exponentPart text).map fun part => (part.1, part.2 ++ back) := by
  cases text with
  | nil => exact exponentPart_none ends
  | cons e rest =>
    rw [List.cons_append, exponentPart_cons, exponentPart_cons, signPart_before ends,
      digitRun_before (endsDigits_of_endsWord ends)]
    split
    · rcases digitRun (signPart rest).2 with ⟨_ | ⟨digit, digits⟩, more⟩ <;> rfl
    · rfl

/-- A number is the same whatever stands behind the text, if it does not begin with something that words consist
of. -/
theorem numberFrom_before (ends : EndsWord back) (negative : Bool) (text : List Char) :
    numberFrom negative (text ++ back) =
      (numberFrom negative text).map fun found => (found.1, found.2 ++ back) := by
  have fraction (rest : List Char) : (fractionPart (rest ++ back)).getD ([], rest ++ back) =
      (((fractionPart rest).getD ([], rest)).1, ((fractionPart rest).getD ([], rest)).2 ++ back) ∧
      (fractionPart (rest ++ back)).isNone = (fractionPart rest).isNone := by
    rw [fractionPart_before ends]
    cases fractionPart rest <;> exact ⟨rfl, rfl⟩
  have exponent (rest : List Char) : (exponentPart (rest ++ back)).getD (0, rest ++ back) =
      (((exponentPart rest).getD (0, rest)).1, ((exponentPart rest).getD (0, rest)).2 ++ back) ∧
      (exponentPart (rest ++ back)).isNone = (exponentPart rest).isNone := by
    rw [exponentPart_before ends]
    cases exponentPart rest <;> exact ⟨rfl, rfl⟩
  unfold numberFrom
  rw [wholePart_before (endsDigits_of_endsWord ends)]
  rcases wholePart text with ⟨_ | ⟨digit, digits⟩, rest⟩
  · rfl
  · simp only [fraction, exponent]
    split
    · split <;> rfl
    · rfl

/-- The sign of a number, and the characters behind. -/
def minusPart : List Char → Bool × List Char
  | '-' :: rest => (true, rest)
  | rest => (false, rest)

/-- A lexeme that begins with no mark is a name of a value, a number, or unknown. -/
theorem tokenAt_of_unmarked {c : Char} (unmarked : isMark c = false) (text : List Char) :
    tokenAt (c :: text) =
      match words.find? fun word => word.1.isPrefixOf (c :: text) with
      | some (word, value) => (.scalar value, word.length)
      | none =>
        match numberFrom (minusPart (c :: text)).1 (minusPart (c :: text)).2 with
        | some (token, rest) => (token, (c :: text).length - rest.length)
        | none => (.unknown, 1) := by
  unfold tokenAt
  split
  case h_8 => rfl
  all_goals
    rename_i same
    obtain ⟨rfl, -⟩ := List.cons.inj same
    exact absurd unmarked (by decide)

/-- A word or a number is the same lexeme whatever stands behind it, if this does not begin with something that
words consist of. -/
theorem tokenAt_before (ends : EndsWord back) {word : List Char} (nonempty : word ≠ [])
    (letters : ∀ c ∈ word, isWordChar c) : tokenAt (word ++ back) = tokenAt word := by
  obtain ⟨c, others, rfl⟩ := List.exists_cons_of_ne_nil nonempty
  have unmarked := isMark_of_isWordChar (letters c List.mem_cons_self)
  have isPrefix : ∀ name ∈ words,
      name.1.isPrefixOf (c :: (others ++ back)) = name.1.isPrefixOf (c :: others) := by
    intro name member
    have named : ∀ d ∈ name.1, isWordChar d := by
      have all : ∀ name ∈ words, ∀ d ∈ name.1, isWordChar d := by decide
      exact all name member
    rw [Bool.eq_iff_iff, List.isPrefixOf_iff_prefix, List.isPrefixOf_iff_prefix]
    refine ⟨fun inside => ?_, fun inside => inside.trans (List.prefix_append (c :: others) back)⟩
    rcases List.prefix_or_prefix_of_prefix inside (List.prefix_append (c :: others) back) with short | ⟨more, long⟩
    · exact short
    · rw [← long] at inside named ⊢
      cases more with
      | nil => simp
      | cons d rest =>
        obtain ⟨further, rfl⟩ := (List.prefix_append_right_inj _).mp inside
        have noWord := ends d rfl
        rw [named d (by simp)] at noWord
        cases noWord
  have minus : minusPart (c :: others ++ back) =
      ((minusPart (c :: others)).1, (minusPart (c :: others)).2 ++ back) := by
    unfold minusPart
    split <;> simp_all
  rw [List.cons_append] at minus ⊢
  rw [tokenAt_of_unmarked unmarked, tokenAt_of_unmarked unmarked, minus, numberFrom_before ends,
    ← List.head?_filter, List.filter_congr isPrefix, List.head?_filter]
  cases words.find? fun name => name.1.isPrefixOf (c :: others) with
  | some name => rfl
  | none =>
    cases numberFrom (minusPart (c :: others)).1 (minusPart (c :: others)).2 with
    | none => rfl
    | some found =>
      simp only [Option.map_some, List.length_cons, List.length_append, Prod.mk.injEq, true_and]
      omega

/-! ### Quoted texts -/

/-- Reading a quoted text does not go beyond its closing quote. -/
theorem textFrom_before {distance length : Nat} {before : List Text.Units} {text : List Char}
    {units : Text.Units} (read : textFrom distance before text = .ok (units, length)) :
    ∃ inner more, text = inner ++ more ∧ length = distance + inner.length ∧ inner ≠ [] ∧
      ∀ back, textFrom distance before (inner ++ back) = .ok (units, length) := by
  fun_induction textFrom distance before text
  case case2 distance before rest =>
    cases read
    exact ⟨['"'], rest, rfl, rfl, by simp, fun _ => by rw [List.singleton_append, textFrom]⟩
  case case4 distance before a b c d next rest unit known inductionHypothesis =>
    obtain ⟨inner, more, whole, same, nonempty, again⟩ := inductionHypothesis read
    obtain ⟨first, others, rfl⟩ := List.exists_cons_of_ne_nil nonempty
    refine ⟨'\\' :: 'u' :: a :: b :: c :: d :: first :: others, more, by rw [whole]; rfl, ?_, by simp,
      fun back => ?_⟩
    · simp only [List.length_cons] at same ⊢
      omega
    · have later := again back
      simp only [List.cons_append] at later ⊢
      rw [textFrom, known]
      exact later
  case case7 distance before escape rest other _ stands known inductionHypothesis =>
    obtain ⟨inner, more, whole, same, nonempty, again⟩ := inductionHypothesis read
    obtain ⟨first, others, rfl⟩ := List.exists_cons_of_ne_nil nonempty
    refine ⟨'\\' :: escape :: first :: others, more, by rw [whole]; rfl, ?_, by simp, fun back => ?_⟩
    · simp only [List.length_cons] at same ⊢
      omega
    · have later := again back
      simp only [List.cons_append] at later ⊢
      rw [textFrom_escape known]
      exact later
  case case10 distance before c rest noQuote noEnd _ noEscape visible inductionHypothesis =>
    obtain ⟨inner, more, whole, same, nonempty, again⟩ := inductionHypothesis read
    have plain : c ≠ '\\' := by
      intro escape
      cases rest with
      | nil => exact noEnd escape rfl
      | cons next others => exact noEscape next others escape rfl
    refine ⟨c :: inner, more, by rw [whole]; rfl, ?_, by simp, fun back => ?_⟩
    · simp only [List.length_cons]
      omega
    · rw [List.cons_append, textFrom_plain noQuote plain (by omega)]
      exact again back
  all_goals cases read

/-- A quoted text is the same lexeme whatever stands behind it. -/
theorem tokenAt_quoted {inner : List Char} {units : Text.Units}
    (here : tokenAt ('"' :: inner ++ back) = (.text units, inner.length + 1)) (other : List Char) :
    tokenAt ('"' :: inner ++ other) = (.text units, inner.length + 1) := by
  simp only [List.cons_append, tokenAt] at here ⊢
  cases read : textFrom 1 [] (inner ++ back) with
  | error flaw =>
    rw [read] at here
    cases here
  | ok told =>
    obtain ⟨others, length⟩ := told
    rw [read] at here
    obtain ⟨rfl, rfl⟩ : others = units ∧ length = inner.length + 1 := by
      obtain ⟨same, length⟩ := Prod.mk.inj here
      exact ⟨Token.text.inj same, length⟩
    obtain ⟨front, more, whole, length, -, again⟩ := textFrom_before read
    obtain ⟨rfl, -⟩ := List.append_inj whole (by omega)
    rw [again other]

/-! ### Words of a document -/

/-- A text that is one lexeme and nothing else. -/
def IsLexeme (word : List Char) (token : Token) : Prop := tokenAt word = (token, word.length)

/-- Whether a lexeme is one that documents consist of. A whole number may have any count of digits. -/
def Token.isReal : Token → Bool
  | .unknown | .brokenText _ _ => false
  | _ => true

/-- Whether a lexeme is a number or the name of a value. -/
def Token.isLettered : Token → Bool
  | .scalar _ | .hugeNumber _ => true
  | _ => false

/-- A lexeme that is there but unsound is a number or a name. -/
theorem Token.isLettered_of_unsound {token : Token} (real : token.isReal) (unsound : token.isSound = false) :
    token.isLettered := by
  cases token <;> simp_all [isReal, isSound, isLettered]

/-- How the words of a document look, and that they are the same lexemes with other text behind them. -/
inductive Token.Looks : Token → List Char → Prop where
  | letters {token : Token} {word : List Char} (lettered : token.isLettered) (nonempty : word ≠ [])
      (letters : ∀ c ∈ word, isWordChar c) (here : IsLexeme word token) : Looks token word
  | mark {token : Token} {c : Char} (unlettered : token.isLettered = false) (mark : isMark c) (noQuote : c ≠ '"')
      (here : ∀ back, tokenAt (c :: back) = (token, 1)) : Looks token [c]
  | quoted (units : Text.Units) {inner : List Char} (quoted : IsQuoted inner)
      (here : ∀ back, tokenAt ('"' :: inner ++ back) = (.text units, inner.length + 1)) :
      Looks (.text units) ('"' :: inner)

/-- A word that is a lexeme looks like it. -/
theorem IsLexeme.looks {word : List Char} {token : Token} (lexeme : IsLexeme word token) (real : token.isReal) :
    token.Looks word := by
  cases word with
  | nil =>
    have length : (tokenAt []).2 = 1 := rfl
    rw [IsLexeme] at lexeme
    rw [lexeme] at length
    cases length
  | cons c rest =>
    cases mark : isMark c with
    | false =>
      rcases tokenAt_unmarked mark rest with
        unknown | ⟨other, front, more, nonempty, whole, letters, here, isWord⟩
      · rw [IsLexeme, unknown] at lexeme
        obtain ⟨rfl, -⟩ := Prod.mk.inj lexeme
        cases real
      · rw [IsLexeme, here] at lexeme
        obtain ⟨rfl, length⟩ := Prod.mk.inj lexeme
        obtain rfl : more = [] := by
          rw [whole, List.length_append] at length
          exact List.length_eq_zero_iff.mp (by omega)
        rw [List.append_nil] at whole
        rw [whole] at here ⊢
        refine .letters ?_ nonempty letters here
        cases sound : other.isSound with
        | true =>
          obtain ⟨value, rfl, -⟩ := isWord sound
          rfl
        | false => exact Token.isLettered_of_unsound real sound
    | true =>
      simp only [isMark, List.mem_cons, List.not_mem_nil, or_false, decide_eq_true_eq] at mark
      have alone {c : Char} (here : (tokenAt (c :: rest)).2 = 1) (lexeme : IsLexeme (c :: rest) token) :
          rest = [] := by
        rw [congrArg Prod.snd lexeme, List.length_cons] at here
        exact List.length_eq_zero_iff.mp (by omega)
      rcases mark with rfl | rfl | rfl | rfl | rfl | rfl | rfl
      case inr.inr.inr.inr.inr.inr =>
        cases read : textFrom 1 [] rest with
        | error flaw =>
          rw [IsLexeme] at lexeme
          simp only [tokenAt, read] at lexeme
          obtain ⟨rfl, -⟩ := Prod.mk.inj lexeme
          cases real
        | ok told =>
          obtain ⟨units, length⟩ := told
          obtain ⟨rfl, rfl⟩ : token = .text units ∧ length = rest.length + 1 := by
            rw [IsLexeme] at lexeme
            simp only [tokenAt, read] at lexeme
            obtain ⟨rfl, same⟩ := Prod.mk.inj lexeme
            exact ⟨rfl, same⟩
          obtain ⟨inner, more, whole, length, quoted⟩ := isQuoted_of_textFrom read
          obtain rfl : inner = rest := by
            have none : more = [] := by
              rw [whole, List.length_append] at length
              exact List.length_eq_zero_iff.mp (by omega)
            rw [whole, none, List.append_nil]
          rw [← List.append_nil ('"' :: inner)] at lexeme
          exact .quoted units quoted (tokenAt_quoted (by rw [lexeme]; simp))
      all_goals
        obtain rfl := alone rfl lexeme
        obtain ⟨rfl, -⟩ := Prod.mk.inj lexeme
        exact .mark rfl rfl (by decide) fun _ => rfl

section

variable {token : Token} {word : List Char}

/-- A word is the same lexeme with other text behind it. Behind a number or a name something else has to begin. -/
theorem Token.Looks.tokenAt_append (looks : token.Looks word) (ends : token.isLettered → EndsWord back) :
    tokenAt (word ++ back) = (token, word.length) := by
  cases looks with
  | letters lettered nonempty letters here => rw [tokenAt_before (ends lettered) nonempty letters, here]
  | mark _ _ _ here => exact here back
  | quoted _ _ here => exact here back

/-- The visible characters of ASCII are not white space. -/
theorem isBlank_of_visible {c : Char} (least : 33 ≤ c.toNat) (most : c.toNat < 127) : Text.isBlank c = false := by
  rw [Bool.eq_false_iff]
  intro blank
  simp only [Text.isBlank, Text.blankRanges, List.any_cons, List.any_nil, Bool.or_eq_true,
    Bool.and_eq_true, decide_eq_true_eq, Bool.or_false] at blank
  omega

/-- A word begins with a visible character of ASCII. -/
theorem Token.Looks.head (looks : token.Looks word) : ∃ c others, word = c :: others ∧
    33 ≤ c.toNat ∧ c.toNat < 127 ∧ isWordChar c = token.isLettered := by
  cases looks with
  | letters lettered nonempty letters =>
    obtain ⟨c, others, rfl⟩ := List.exists_cons_of_ne_nil nonempty
    have letter := letters c List.mem_cons_self
    obtain ⟨least, most⟩ := toNat_of_isWordChar letter
    exact ⟨c, others, rfl, by omega, by omega, letter.trans lettered.symm⟩
  | mark unlettered mark =>
    refine ⟨_, _, rfl, ?_⟩
    rw [unlettered]
    simp only [isMark, List.mem_cons, List.not_mem_nil, or_false, decide_eq_true_eq] at mark
    rcases mark with rfl | rfl | rfl | rfl | rfl | rfl | rfl <;> decide
  | quoted units => exact ⟨'"', _, rfl, by decide, by decide, rfl⟩

end

end

/-- The words of a document look as words do. -/
theorem looks_of_spelled {tokens : List Token} {words : List (List Char)}
    (spelled : List.Forall₂ IsLexeme words tokens) (real : ∀ token ∈ tokens, token.isReal) :
    List.Forall₂ Token.Looks tokens words := by
  induction spelled with
  | nil => exact .nil
  | cons here _ inductionHypothesis =>
    obtain ⟨first, others⟩ := List.forall_mem_cons.mp real
    exact .cons (here.looks first) (inductionHypothesis others)

end TreeBuild.Json
