import Mathlib.Data.List.Infix
import TreeBuild.Json.Commented
import TreeBuild.Proofs.Json.Reading
import TreeBuild.Proofs.Text.Segments

/-!
# Plain JSON read as JSON with comments

A text that is accepted as plain JSON falls into blanks and lexemes. A slash occurs in it only within
quotes, and the scan for comments passes over quoted texts, so it takes nothing out. A comma between two
lexemes is followed by a value or a name, never by a closing bracket. A comma within quotes need not be:
the scan for commas does not pass over quoted texts, and takes such a comma out of them. So plain JSON is
read as it stands if no quoted text holds a comma in front of a closing bracket.
-/
namespace TreeBuild.Json

/-! ### Quoted texts -/

/-- The characters of a lexeme of a text. -/
def Lexeme.spelling (text : List Char) (lexeme : Lexeme) : List Char :=
  (text.drop lexeme.offset).take (tokenAt (text.drop lexeme.offset)).2

/-- Whether a lexeme is a quoted text. -/
def Token.isText : Token → Bool
  | .text _ => true
  | _ => false

/-- The quoted texts of a text, as they stand there, with their quotes. -/
def quotations (text : List Char) : List (List Char) :=
  ((lexemes text).filter (·.token.isText)).map (Lexeme.spelling text)

/-- The brackets that close a container. -/
def isClosing (c : Char) : Bool := c = ']' || c = '\x7d'

/-- The closing brackets are these two. -/
theorem isClosing_iff {c : Char} : isClosing c ↔ c = ']' ∨ c = '\x7d' := by
  simp only [isClosing, Bool.or_eq_true, decide_eq_true_eq]

/-- A closing bracket is not white space. -/
theorem isBlank_of_isClosing {bracket : Char} (closing : isClosing bracket) : Text.isBlank bracket = false := by
  rcases isClosing_iff.mp closing with rfl | rfl <;> decide

/-- A text begins with a comma in front of a closing bracket, with nothing but blanks between them. -/
def IsTrailing (text : List Char) : Prop :=
  ∃ blanks bracket back, text = ',' :: (blanks ++ bracket :: back) ∧
    (∀ c ∈ blanks, Text.isBlank c) ∧ isClosing bracket

/-- Somewhere in a text a comma stands in front of a closing bracket. -/
def HoldsTrailing (text : List Char) : Prop :=
  ∃ place, place <:+ text ∧ IsTrailing place

/-- An escape takes two characters of a quoted text. -/
theorem quotedLength?_escape (escaped : Char) (rest : List Char) :
    quotedLength? ('\\' :: escaped :: rest) = (quotedLength? rest).map (· + 2) := rfl

/-- Any other character takes one. -/
theorem quotedLength?_plain {c : Char} (noQuote : c ≠ '"') (noEscape : c ≠ '\\') (rest : List Char) :
    quotedLength? (c :: rest) = (quotedLength? rest).map (· + 1) := by
  rw [quotedLength?]
  · exact noQuote
  · intro same; exact absurd same noEscape
  · intro _ _ same; exact absurd same noEscape

/-- A quoted text behind its opening quote: the scan for comments ends it at its last character, a quote,
whatever follows. -/
structure IsQuoted (inner : List Char) : Prop where
  length (back : List Char) : quotedLength? (inner ++ back) = some inner.length
  closed : ∃ body, inner = body ++ ['"']

/-- A quote ends a quoted text. -/
theorem IsQuoted.close : IsQuoted ['"'] := ⟨fun _ => rfl, [], rfl⟩

/-- A plain character may stand before the rest of a quoted text. -/
theorem IsQuoted.plain {c : Char} {inner : List Char} (noQuote : c ≠ '"') (noEscape : c ≠ '\\')
    (quoted : IsQuoted inner) : IsQuoted (c :: inner) where
  length back := by
    rw [List.cons_append, quotedLength?_plain noQuote noEscape, quoted.length]
    rfl
  closed := by
    obtain ⟨body, rfl⟩ := quoted.closed
    exact ⟨c :: body, rfl⟩

/-- An escape may stand before the rest of a quoted text. -/
theorem IsQuoted.escape {c : Char} {inner : List Char} (quoted : IsQuoted inner) :
    IsQuoted ('\\' :: c :: inner) where
  length back := by
    rw [List.cons_append, List.cons_append, quotedLength?_escape, quoted.length]
    rfl
  closed := by
    obtain ⟨body, rfl⟩ := quoted.closed
    exact ⟨'\\' :: c :: body, rfl⟩

/-- A hexadecimal digit is neither a quote nor the start of an escape. -/
theorem IsQuoted.digit {c : Char} {inner : List Char} {value : Nat} (digit : hexValue? c = some value)
    (quoted : IsQuoted inner) : IsQuoted (c :: inner) := by
  refine quoted.plain ?_ ?_ <;>
  · rintro rfl
    cases digit

/-- The four digits of a code unit. -/
theorem exists_digits {a b c d : Char} {unit : UInt16} (known : hexUnit? a b c d = some unit) :
    (∃ value, hexValue? a = some value) ∧ (∃ value, hexValue? b = some value) ∧
      (∃ value, hexValue? c = some value) ∧ ∃ value, hexValue? d = some value := by
  unfold hexUnit? at known
  obtain ⟨first, isFirst, known⟩ := Option.bind_eq_some_iff.mp known
  obtain ⟨second, isSecond, known⟩ := Option.bind_eq_some_iff.mp known
  obtain ⟨third, isThird, known⟩ := Option.bind_eq_some_iff.mp known
  obtain ⟨fourth, isFourth, -⟩ := Option.bind_eq_some_iff.mp known
  exact ⟨⟨first, isFirst⟩, ⟨second, isSecond⟩, ⟨third, isThird⟩, fourth, isFourth⟩

/-- A quoted text that can be read is one for the scan for comments. -/
theorem isQuoted_of_textFrom {distance length : Nat} {before : List Text.Units} {text : List Char}
    {units : Text.Units} (read : textFrom distance before text = .ok (units, length)) :
    ∃ inner back, text = inner ++ back ∧ length = distance + inner.length ∧ IsQuoted inner := by
  fun_induction textFrom distance before text
  case case2 distance before rest =>
    cases read
    exact ⟨['"'], rest, rfl, rfl, .close⟩
  case case4 distance before a b c d next rest unit known inductionHypothesis =>
    obtain ⟨inner, back, whole, same, quoted⟩ := inductionHypothesis read
    obtain ⟨⟨_, first⟩, ⟨_, second⟩, ⟨_, third⟩, _, fourth⟩ := exists_digits known
    refine ⟨'\\' :: 'u' :: a :: b :: c :: d :: inner, back, by rw [whole]; rfl, ?_,
      ((((quoted.digit fourth).digit third).digit second).digit first).escape⟩
    simp only [List.length_cons]
    omega
  case case7 distance before escape rest other _ stands known inductionHypothesis =>
    obtain ⟨inner, back, whole, same, quoted⟩ := inductionHypothesis read
    refine ⟨'\\' :: escape :: inner, back, by rw [whole]; rfl, ?_, quoted.escape⟩
    simp only [List.length_cons]
    omega
  case case10 distance before c rest noQuote noEnd _ noEscape _ inductionHypothesis =>
    obtain ⟨inner, back, whole, same, quoted⟩ := inductionHypothesis read
    have plain : c ≠ '\\' := by
      intro escape
      cases rest with
      | nil => exact noEnd escape rfl
      | cons next others => exact noEscape next others escape rfl
    refine ⟨c :: inner, back, by rw [whole]; rfl, ?_, quoted.plain noQuote plain⟩
    simp only [List.length_cons]
    omega
  all_goals cases read

/-! ### Lexemes and the text they are made of -/

/-- How a lexeme is spelled. -/
inductive Token.Spells : Token → List Char → Prop where
  | openArray : Spells .openArray ['[']
  | closeArray : Spells .closeArray [']']
  | openObject : Spells .openObject ['\x7b']
  | closeObject : Spells .closeObject ['\x7d']
  | comma : Spells .comma [',']
  | colon : Spells .colon [':']
  | text (units : Text.Units) {inner : List Char} (quoted : IsQuoted inner) :
      Spells (.text units) ('"' :: inner)
  | scalar (value : Json) {front : List Char} (nonempty : front ≠ [])
      (letters : ∀ c ∈ front, isWordChar c) : Spells (.scalar value) front

/-- What stands at the front of a text is a lexeme that is spelled as it should be, or no lexeme. -/
theorem exists_spelling (c : Char) (rest : List Char) : ∃ token front back, front ≠ [] ∧
    c :: rest = front ++ back ∧ tokenAt (c :: rest) = (token, front.length) ∧
      (token.isSound → token.Spells front) := by
  cases mark : isMark c with
  | false =>
    rcases tokenAt_unmarked mark rest with
      unknown | ⟨token, front, back, nonempty, whole, letters, here, isWord⟩
    · exact ⟨.unknown, [c], rest, by simp, rfl, unknown, fun sound => by cases sound⟩
    · refine ⟨token, front, back, nonempty, whole, here, fun sound => ?_⟩
      obtain ⟨value, rfl, -⟩ := isWord sound
      exact .scalar value nonempty letters
  | true =>
    simp only [isMark, List.mem_cons, List.not_mem_nil, or_false, decide_eq_true_eq] at mark
    rcases mark with rfl | rfl | rfl | rfl | rfl | rfl | rfl
    · exact ⟨.openArray, ['['], rest, by simp, rfl, rfl, fun _ => .openArray⟩
    · exact ⟨.closeArray, [']'], rest, by simp, rfl, rfl, fun _ => .closeArray⟩
    · exact ⟨.openObject, ['\x7b'], rest, by simp, rfl, rfl, fun _ => .openObject⟩
    · exact ⟨.closeObject, ['\x7d'], rest, by simp, rfl, rfl, fun _ => .closeObject⟩
    · exact ⟨.comma, [','], rest, by simp, rfl, rfl, fun _ => .comma⟩
    · exact ⟨.colon, [':'], rest, by simp, rfl, rfl, fun _ => .colon⟩
    · cases read : textFrom 1 [] rest with
      | error flaw =>
        refine ⟨.brokenText flaw.1 flaw.2, ['"'], rest, by simp, rfl, ?_, fun sound => by cases sound⟩
        simp [tokenAt, read]
      | ok told =>
        obtain ⟨inner, back, rfl, length, quoted⟩ := @isQuoted_of_textFrom 1 told.2 [] rest told.1 read
        refine ⟨.text told.1, '"' :: inner, back, by simp, rfl, ?_, fun _ => .text told.1 quoted⟩
        simp [tokenAt, read, length, Nat.add_comm]

/-- A character of a word is not white space. -/
theorem isBlank_of_isWordChar {c : Char} (word : isWordChar c) : Text.isBlank c = false := by
  obtain ⟨least, most⟩ := toNat_of_isWordChar word
  rw [Bool.eq_false_iff]
  intro blank
  simp only [Text.isBlank, Text.blankRanges, List.any_cons, List.any_nil, Bool.or_eq_true,
    Bool.and_eq_true, decide_eq_true_eq, Bool.or_false] at blank
  omega

/-- A lexeme does not begin with a blank. -/
theorem Token.Spells.head {token : Token} {front : List Char} (spells : token.Spells front) :
    ∃ c others, front = c :: others ∧ Text.isBlank c = false := by
  cases spells with
  | scalar value nonempty letters =>
    obtain ⟨c, others, rfl⟩ := List.exists_cons_of_ne_nil nonempty
    exact ⟨c, others, rfl, isBlank_of_isWordChar (letters c List.mem_cons_self)⟩
  | _ => exact ⟨_, _, rfl, by decide⟩

/-- A text that begins at an offset falls into blanks and these lexemes. -/
inductive Lexed : Nat → List Char → List Lexeme → Prop where
  | nil (offset : Nat) : Lexed offset [] []
  | blank {offset : Nat} {c : Char} {text : List Char} {lexemes : List Lexeme} (spacing : isSpacing c)
      (others : Lexed (offset + 1) text lexemes) : Lexed offset (c :: text) lexemes
  | lexeme {offset : Nat} {front back : List Char} {token : Token} {lexemes : List Lexeme}
      (spells : token.Spells front) (here : tokenAt (front ++ back) = (token, front.length))
      (others : Lexed (offset + front.length) back lexemes) :
      Lexed offset (front ++ back) (⟨token, offset⟩ :: lexemes)

/-- A text without a flaw falls into blanks and its lexemes. -/
theorem lexed_of_sound (offset : Nat) (text : List Char)
    (sound : ∀ lexeme ∈ lexemesFrom offset 0 text, lexeme.token.isSound) :
    Lexed offset text (lexemesFrom offset 0 text) := by
  cases text with
  | nil => exact .nil offset
  | cons c rest =>
    cases spacing : isSpacing c with
    | true =>
      rw [lexemesFrom, if_pos spacing] at sound ⊢
      exact .blank spacing (lexed_of_sound (offset + 1) rest sound)
    | false =>
      obtain ⟨token, front, back, nonempty, whole, here, spells⟩ := exists_spelling c rest
      have visible : ∀ first ∈ front.head?, isSpacing first = false := by
        obtain ⟨first, others, rfl⟩ := List.exists_cons_of_ne_nil nonempty
        obtain ⟨rfl, -⟩ := List.cons.inj whole
        simpa using spacing
      have shorter : back.length < (c :: rest).length := by
        have := List.length_pos_iff.mpr nonempty
        rw [whole, List.length_append]
        omega
      rw [whole] at sound here ⊢
      rw [lexemesFrom_append offset nonempty visible here] at sound ⊢
      have good : token.isSound := by
        cases unsound : token.isSound with
        | true => rfl
        | false => exact unsound ▸ sound ⟨token, offset⟩ (by simp [unsound])
      rw [if_pos good] at sound ⊢
      exact .lexeme (spells good) here (lexed_of_sound _ back fun other member =>
        sound other (List.mem_cons_of_mem _ member))
termination_by text.length

/-- The lexemes of a text that is read to its end are without a flaw. -/
theorem sound_of_readFrom {length : Nat} {state : State} {lexemes : List Lexeme} {value : Json}
    (read : readFrom length state lexemes = .ok value) : ∀ lexeme ∈ lexemes, lexeme.token.isSound := by
  induction lexemes generalizing state with
  | nil => simp
  | cons lexeme others inductionHypothesis =>
    rw [readFrom] at read
    cases stepped : step state lexeme with
    | error stop => rw [stepped] at read; cases read
    | ok next =>
      rw [stepped] at read
      refine List.forall_mem_cons.mpr ⟨?_, inductionHypothesis read⟩
      cases sound : lexeme.token.isSound with
      | true => rfl
      | false => exact absurd stepped (step_unsound sound state lexeme.offset next)

/-! ### Comments -/

/-- Whether a comment begins does not depend on what is before it. -/
theorem commentPattern_blind (before : Option Char) (text : List Char) :
    commentPattern before text = commentPattern none text := by
  unfold commentPattern
  split <;> rfl

/-- Where no quote and no slash stands, the scan for comments takes nothing out. -/
theorem withoutComments_append {front : List Char} (plain : ∀ c ∈ front, c ≠ '"' ∧ c ≠ '/')
    (back : List Char) : withoutComments (front ++ back) = front ++ withoutComments back := by
  refine Text.render_append_of_none commentPattern_blind id back fun part nonempty inside => ?_
  obtain ⟨c, rest, rfl⟩ := List.exists_cons_of_ne_nil nonempty
  obtain ⟨noQuote, noSlash⟩ := plain c (inside.subset List.mem_cons_self)
  rw [List.cons_append]
  unfold commentPattern
  split
  · rename_i same
    exact absurd (List.cons.inj same).1 noQuote
  · rename_i same
    exact absurd (List.cons.inj same).1 noSlash
  · rename_i same
    exact absurd (List.cons.inj same).1 noSlash
  · rfl

/-- Nothing is taken out of a quoted text. -/
theorem withoutComments_quoted {inner : List Char} (quoted : IsQuoted inner) (back : List Char) :
    withoutComments ('"' :: inner ++ back) = '"' :: inner ++ withoutComments back := by
  refine Text.render_append_of_found commentPattern_blind id back (List.cons_ne_nil _ _) ?_
  simp [commentPattern, quoted.length]

/-- White space differs from every visible character. -/
theorem ne_of_isSpacing {c other : Char} (spacing : isSpacing c) (visible : isSpacing other = false) :
    c ≠ other := by
  rintro rfl
  rw [visible] at spacing
  cases spacing

/-- A character of a word differs from every other one. -/
theorem ne_of_isWordChar {c other : Char} (word : isWordChar c) (noWord : isWordChar other = false) :
    c ≠ other := by
  rintro rfl
  rw [noWord] at word
  cases word

/-- A lexeme stays where comments are taken out. -/
theorem Token.Spells.withoutComments_append {token : Token} {front : List Char} (spells : token.Spells front)
    (back : List Char) : withoutComments (front ++ back) = front ++ withoutComments back := by
  cases spells with
  | text units quoted => exact withoutComments_quoted quoted back
  | scalar value _ letters =>
    refine Json.withoutComments_append (fun c member => ?_) back
    have word := letters c member
    exact ⟨ne_of_isWordChar word (by decide), ne_of_isWordChar word (by decide)⟩
  | _ => exact Json.withoutComments_append (by decide) back

/-- No comments are taken out of a text that falls into lexemes. -/
theorem Lexed.render_comments {offset : Nat} {text : List Char} {lexemes : List Lexeme}
    (lexed : Lexed offset text lexemes) : ∀ before,
    Text.render id (Text.segmentsFrom commentPattern before 0 text) = text := by
  have whole : withoutComments text = text := by
    induction lexed with
    | nil => rfl
    | @blank _ c text _ spacing _ inductionHypothesis =>
      have plain := @withoutComments_append [c] (List.forall_mem_singleton.mpr
        ⟨ne_of_isSpacing spacing (by decide), ne_of_isSpacing spacing (by decide)⟩) text
      exact plain.trans (congrArg (c :: ·) inductionHypothesis)
    | @lexeme _ _ back _ _ spells _ _ inductionHypothesis =>
      rw [spells.withoutComments_append, inductionHypothesis]
  intro before
  rw [Text.segmentsFrom_blind commentPattern_blind]
  exact whole

/-! ### Commas -/

/-- A trailing comma is what the scan for trailing commas finds. -/
theorem isTrailing_iff (text : List Char) (before : Option Char) :
    (trailingCommaPattern before text).isSome ↔ IsTrailing text := by
  constructor
  · intro found
    unfold trailingCommaPattern at found
    split at found
    · rename_i rest
      have blank : ∀ c ∈ rest.takeWhile Text.isBlank, Text.isBlank c := fun c member =>
        List.all_eq_true.mp List.all_takeWhile c member
      have whole := @List.takeWhile_append_dropWhile _ Text.isBlank rest
      dsimp only at found
      split at found
      · rename_i back behind
        rw [behind] at whole
        exact ⟨_, ']', back, by rw [whole], blank, rfl⟩
      · rename_i back behind
        rw [behind] at whole
        exact ⟨_, '\x7d', back, by rw [whole], blank, rfl⟩
      · cases found
    · cases found
  · rintro ⟨blanks, bracket, back, rfl, blank, closing⟩
    have behind : (blanks ++ bracket :: back).dropWhile Text.isBlank = bracket :: back := by
      rw [List.dropWhile_append_of_pos blank, List.dropWhile_cons, isBlank_of_isClosing closing]
      rfl
    rcases isClosing_iff.mp closing with rfl | rfl <;> simp [trailingCommaPattern, behind]

instance (text : List Char) : Decidable (IsTrailing text) :=
  decidable_of_iff _ (isTrailing_iff text none)

instance (text : List Char) : Decidable (HoldsTrailing text) :=
  decidable_of_iff (∃ place ∈ text.tails, IsTrailing place) (by
    simp only [HoldsTrailing, List.mem_tails])

section

variable {length offset : Nat} {state : State} {text : List Char} {lexemes : List Lexeme} {value : Json}

/-- Where a whole document is read, its first lexeme leads on. -/
theorem exists_next {lexeme : Lexeme}
    (read : readFrom length state (lexeme :: lexemes) = .ok value) :
    ∃ next, step state lexeme = .ok next ∧ readFrom length next lexemes = .ok value := by
  rw [readFrom] at read
  cases stepped : step state lexeme with
  | error stop => rw [stepped] at read; cases read
  | ok next =>
    rw [stepped] at read
    exact ⟨next, rfl, read⟩

/-- Behind a comma a value or a name is expected. -/
theorem expects_of_comma {next : State} (stepped : step state ⟨.comma, offset⟩ = .ok next) :
    next.expecting = .value ∨ next.expecting = .name := by
  obtain ⟨expecting, frames⟩ := state
  cases expecting <;> rcases frames with _ | ⟨⟨⟩ | ⟨⟩ | ⟨⟩, outer⟩ <;> cases stepped
  · exact .inl rfl
  · exact .inr rfl

/-- Where a value or a name is expected, no container ends. -/
theorem step_closing {token : Token} {next : State}
    (expects : state.expecting = .value ∨ state.expecting = .name)
    (closing : token = .closeArray ∨ token = .closeObject) :
    step state ⟨token, offset⟩ ≠ .ok next := by
  obtain ⟨expecting, frames⟩ := state
  rcases closing with rfl | rfl <;> rcases expects with same | same <;>
  · change expecting = _ at same
    subst same
    simp [step, stepValue, stepName]

/-- A lexeme that begins with a closing bracket closes a container. -/
theorem Token.Spells.closes {token : Token} {bracket : Char} {others : List Char}
    (spells : token.Spells (bracket :: others)) (closing : isClosing bracket) :
    token = .closeArray ∨ token = .closeObject := by
  cases spells with
  | closeArray => exact .inl rfl
  | closeObject => exact .inr rfl
  | scalar value _ letters =>
    have word := letters bracket List.mem_cons_self
    rcases isClosing_iff.mp closing with rfl | rfl <;> exact absurd word (by decide)
  | _ => cases closing

/-- The white space between lexemes is white space of texts. -/
theorem isBlank_of_isSpacing {c : Char} (spacing : isSpacing c) : Text.isBlank c := by
  simp only [isSpacing, Bool.or_eq_true, decide_eq_true_eq] at spacing
  rcases spacing with ((rfl | rfl) | rfl) | rfl <;> decide

/-- Where a value or a name is expected, no closing bracket stands behind the blanks. -/
theorem Lexed.opens (lexed : Lexed offset text lexemes)
    (read : readFrom length state lexemes = .ok value)
    (expects : state.expecting = .value ∨ state.expecting = .name) {blanks back : List Char}
    {bracket : Char} (whole : text = blanks ++ bracket :: back)
    (blank : ∀ c ∈ blanks, Text.isBlank c) : isClosing bracket = false := by
  rw [Bool.eq_false_iff]
  intro closing
  induction lexed generalizing blanks with
  | nil => simp at whole
  | blank spacing _ inductionHypothesis =>
    cases blanks with
    | nil =>
      obtain ⟨rfl, -⟩ := List.cons.inj whole
      rcases isClosing_iff.mp closing with rfl | rfl <;> exact absurd spacing (by decide)
    | cons first others =>
      exact inductionHypothesis read (List.cons.inj whole).2 fun c member =>
        blank c (List.mem_cons_of_mem _ member)
  | lexeme spells _ _ _ =>
    obtain ⟨next, stepped, -⟩ := exists_next read
    obtain ⟨first, others, rfl, visible⟩ := spells.head
    cases blanks with
    | nil =>
      obtain ⟨rfl, -⟩ := List.cons.inj whole
      exact step_closing expects (spells.closes closing) stepped
    | cons c rest =>
      obtain ⟨rfl, -⟩ := List.cons.inj whole
      rw [blank first List.mem_cons_self] at visible
      cases visible

/-- A trailing comma that begins within a quoted text lies within it. -/
theorem IsQuoted.holdsTrailing {inner front back : List Char} (quoted : IsQuoted inner)
    (nonempty : front ≠ []) (inside : front <:+ '"' :: inner) (trailing : IsTrailing (front ++ back)) :
    HoldsTrailing ('"' :: inner) := by
  obtain ⟨blanks, bracket, further, whole, blank, closing⟩ := trailing
  obtain ⟨body, rfl⟩ := quoted.closed
  obtain ⟨c, rest, rfl⟩ := List.exists_cons_of_ne_nil nonempty
  obtain ⟨rfl, split⟩ := List.cons.inj whole
  -- the closing quote lies behind the comma, and is neither a blank nor a bracket
  have close : '"' ∈ rest := by
    obtain ⟨skipped, same⟩ := inside
    have last : (',' :: rest).getLast? = some '"' := by
      have ends := congrArg List.getLast? same
      rw [List.getLast?_append, ← List.cons_append, List.getLast?_append] at ends
      cases final : (',' :: rest).getLast? with
      | none => simp at final
      | some c => simpa [final] using ends
    rcases List.mem_cons.mp (List.mem_of_getLast? last) with impossible | member
    · cases impossible
    · exact member
  rcases List.append_eq_append_iff.mp split with ⟨more, same, -⟩ | ⟨more, rfl, same⟩
  · have visible := blank '"' (same ▸ List.mem_append_left _ close)
    exact absurd visible (by decide)
  · cases more with
    | nil =>
      have visible := blank '"' (by simpa using close)
      exact absurd visible (by decide)
    | cons first others =>
      obtain ⟨rfl, -⟩ := List.cons.inj same
      exact ⟨_, inside, blanks, bracket, others, rfl, blank, closing⟩

/-- What ends where the second of two texts ends lies within it, or begins within the first. -/
theorem suffix_append_cases {front back place : List Char} (inside : place <:+ front ++ back) :
    place <:+ back ∨ ∃ part, part ≠ [] ∧ part <:+ front ∧ place = part ++ back := by
  obtain ⟨skipped, same⟩ := inside
  rcases List.append_eq_append_iff.mp same with ⟨part, rfl, rfl⟩ | ⟨more, -, rfl⟩
  · by_cases empty : part = []
    · subst empty
      exact .inl List.suffix_rfl
    · exact .inr ⟨part, empty, List.suffix_append _ _, rfl⟩
  · exact .inl (List.suffix_append _ _)

/-- The characters of a lexeme are those that it takes up. -/
theorem spelling_eq {before front back : List Char} {token : Token}
    (here : tokenAt (front ++ back) = (token, front.length)) :
    Lexeme.spelling (before ++ (front ++ back)) ⟨token, before.length⟩ = front := by
  rw [Lexeme.spelling, List.drop_left, here, List.take_left]

/-- A text that is read to its end holds no trailing commas, unless one of its quoted texts does. -/
theorem Lexed.not_holdsTrailing (lexed : Lexed offset text lexemes) {whole before : List Char}
    (read : readFrom length state lexemes = .ok value)
    (split : whole = before ++ text) (reached : before.length = offset)
    (plain : ∀ lexeme ∈ lexemes, lexeme.token.isText → ¬ HoldsTrailing (lexeme.spelling whole)) :
    ¬ HoldsTrailing text := by
  rintro ⟨place, inside, trailing⟩
  induction lexed generalizing state before with
  | nil =>
    obtain ⟨_, _, _, rfl, -⟩ := trailing
    simp at inside
  | @blank _ c _ _ spacing _ inductionHypothesis =>
    rcases List.suffix_cons_iff.mp inside with rfl | inside
    · obtain ⟨_, _, _, same, -⟩ := trailing
      exact ne_of_isSpacing spacing (by decide) (List.cons.inj same).1
    · exact inductionHypothesis read (by simpa using split : whole = (before ++ [c]) ++ _)
        (by simp [reached]) plain inside
  | @lexeme offset front back token _ spells here others inductionHypothesis =>
    obtain ⟨next, stepped, readOn⟩ := exists_next read
    obtain ⟨plainHere, plain⟩ := List.forall_mem_cons.mp plain
    rcases suffix_append_cases inside with inside | ⟨part, nonempty, within, rfl⟩
    · exact inductionHypothesis readOn (by simpa using split : whole = (before ++ front) ++ back)
        (by simp [reached]) plain inside
    -- a trailing comma begins within the lexeme: it is that comma, or within quotes
    · obtain ⟨c, rest, rfl⟩ := List.exists_cons_of_ne_nil nonempty
      have comma : c = ',' := by
        obtain ⟨_, _, _, same, -⟩ := trailing
        exact (List.cons.inj same).1
      subst comma
      have member : ',' ∈ front := within.subset List.mem_cons_self
      cases spells with
      | text units quoted =>
        subst split reached
        rw [spelling_eq here] at plainHere
        exact plainHere rfl (quoted.holdsTrailing nonempty within trailing)
      | comma =>
        obtain ⟨blanks, bracket, further, same, blank, closing⟩ := trailing
        have whole : back = blanks ++ bracket :: further := by
          cases rest with
          | nil => exact (List.cons.inj same).2
          | cons => simpa using within.length_le
        rw [others.opens readOn (expects_of_comma stepped) whole blank] at closing
        cases closing
      | scalar value _ letters => exact ne_of_isWordChar (letters ',' member) (by decide) rfl
      | _ => exact absurd member (by decide)

/-- A text that is read to its end is not blank. -/
theorem Lexed.exists_visible (lexed : Lexed offset text lexemes) (nonempty : lexemes ≠ []) :
    ∃ c ∈ text, Text.isBlank c = false := by
  induction lexed with
  | nil => exact absurd rfl nonempty
  | blank _ _ inductionHypothesis =>
    obtain ⟨c, member, visible⟩ := inductionHypothesis nonempty
    exact ⟨c, List.mem_cons_of_mem _ member, visible⟩
  | lexeme spells _ _ _ =>
    obtain ⟨c, others, rfl, visible⟩ := spells.head
    exact ⟨c, List.mem_cons_self, visible⟩

end

/-- The lexemes of a text that is accepted are read to their end. -/
theorem readFrom_of_read {text : String} {value : Json} (accepted : read text = .ok value) :
    readFrom text.toList.length ⟨.value, []⟩ (lexemes text.toList) = .ok value := by
  unfold read at accepted
  dsimp only at accepted
  split at accepted
  · cases accepted
  · unfold readLexemes at accepted
    cases told : readFrom text.toList.length ⟨.value, []⟩ (lexemes text.toList) with
    | error stop => rw [told] at accepted; cases accepted
    | ok other =>
      rw [told] at accepted
      exact congrArg Except.ok (Except.ok.inj accepted)

/-- Plain JSON is read as JSON with comments in the same way, if no quoted text holds a comma in front of a
closing bracket. Comments are looked for in vain in any case. -/
theorem readCommented_extends_read (text : String) (value : Json) (accepted : read text = .ok value) :
    withoutComments text.toList = text.toList ∧
      ((∀ quotation ∈ quotations text.toList, ¬ HoldsTrailing quotation) →
        readCommented text = .ok value) := by
  have told := readFrom_of_read accepted
  have lexed : Lexed 0 text.toList (lexemes text.toList) := lexed_of_sound 0 _ (sound_of_readFrom told)
  have uncommented : withoutComments text.toList = text.toList := lexed.render_comments none
  refine ⟨uncommented, fun plain => ?_⟩
  have absent : ¬ HoldsTrailing text.toList := lexed.not_holdsTrailing told (List.nil_append _).symm rfl
    fun lexeme member isText =>
      plain _ (List.mem_map_of_mem (List.mem_filter.mpr ⟨member, isText⟩))
  have untouched : withoutTrailingCommas text.toList = text.toList := by
    refine Text.render_segmentsFrom_of_none _ id none fun before place inside => ?_
    rw [← Option.not_isSome_iff_eq_none, isTrailing_iff]
    exact fun trailing => absent ⟨place, inside, trailing⟩
  have visible : ¬ text.toList.all Text.isBlank := by
    obtain ⟨c, member, visible⟩ := lexed.exists_visible (by
      intro none
      rw [none] at told
      cases told)
    intro blank
    rw [List.all_eq_true.mp blank c member] at visible
    cases visible
  unfold readCommented
  dsimp only
  rw [uncommented, untouched, if_neg visible, String.ofList_toList]
  exact accepted

/-- A configuration that includes the files of this pattern. -/
def including (pattern : String) : Json :=
  .obj [(Text.Units.ofString "include", .arr [.ofString pattern])]

/-- A pattern with slashes, a star behind a slash and commas is read as it stands. -/
theorem readCommented_extends_read_of_pattern :
    readCommented "\x7b\"include\": [\"//src/*.\x7bts, tsx\x7d\"]\x7d" =
      .ok (including "//src/*.\x7bts, tsx\x7d") :=
  (readCommented_extends_read "\x7b\"include\": [\"//src/*.\x7bts, tsx\x7d\"]\x7d"
    (including "//src/*.\x7bts, tsx\x7d") rfl).2 (by decide +kernel)

/-- A pattern whose last alternative is empty ends with a comma in front of a bracket. Read as plain JSON
the configuration holds this pattern, but read as JSON with comments it holds another. -/
theorem readCommented_drops_quoted_comma :
    read "\x7b\"include\": [\"*.\x7bts,\x7d\"]\x7d" = .ok (including "*.\x7bts,\x7d") ∧
      readCommented "\x7b\"include\": [\"*.\x7bts,\x7d\"]\x7d" = .ok (including "*.\x7bts\x7d") ∧
      including "*.\x7bts,\x7d" ≠ including "*.\x7bts\x7d" := by
  have differ : Text.Units.ofString "*.\x7bts,\x7d" ≠ Text.Units.ofString "*.\x7bts\x7d" := by decide
  refine ⟨rfl, rfl, fun same => differ ?_⟩
  simpa [including, Json.ofString] using same

end TreeBuild.Json
