import TreeBuild.Json.Reader
import TreeBuild.Text.Basic

/-!
# Reading from a state on

The reader takes one step for each lexeme, and each lexeme lies at the front of what is left of the text: the
lexeme at the front decides the next state. What each step keeps, a whole reading therefore keeps. A number or
the name of a value is a lexeme that ends where its characters end.
-/
namespace TreeBuild.Json

/-- From a state on, a text is read to its end, and this value comes out. -/
def Reads (state : State) (text : List Char) (value : Json) : Prop :=
  ∃ length offset, readFrom length state (lexemesFrom offset 0 text) = .ok value

/-- The characters that belong to a lexeme are passed over. -/
theorem lexemesFrom_skip (skip offset : Nat) (text : List Char) :
    lexemesFrom offset skip text = lexemesFrom (offset + skip) 0 (text.drop skip) := by
  induction text generalizing skip offset with
  | nil => simp [lexemesFrom]
  | cons c rest inductionHypothesis =>
    cases skip with
    | zero => rfl
    | succ skip =>
      rw [lexemesFrom, inductionHypothesis, List.drop_succ_cons, Nat.add_assoc, Nat.add_comm 1]

/-- A lexeme at the front of a text comes before those of the rest. -/
theorem lexemesFrom_append {front back : List Char} {token : Token} (offset : Nat) (nonempty : front ≠ [])
    (visible : ∀ c ∈ front.head?, isSpacing c = false)
    (here : tokenAt (front ++ back) = (token, front.length)) :
    lexemesFrom offset 0 (front ++ back) =
      if token.isSound then ⟨token, offset⟩ :: lexemesFrom (offset + front.length) 0 back
      else [⟨token, offset⟩] := by
  obtain ⟨c, others, rfl⟩ := List.exists_cons_of_ne_nil nonempty
  have behind : lexemesFrom (offset + 1) others.length (others ++ back) =
      lexemesFrom (offset + (c :: others).length) 0 back := by
    rw [lexemesFrom_skip, List.drop_left, Nat.add_assoc, Nat.add_comm 1]
    rfl
  rw [List.cons_append, lexemesFrom, if_neg (by simp [visible c rfl]), ← List.cons_append, here]
  dsimp only
  rw [List.length_cons, Nat.add_sub_cancel, behind]
  rfl

/-- Reading does not go on behind a lexeme that is none. -/
theorem step_unsound {token : Token} (unsound : token.isSound = false) (state : State) (offset : Nat)
    (next : State) : step state ⟨token, offset⟩ ≠ .ok next := by
  obtain ⟨expecting, frames⟩ := state
  cases token <;> cases unsound <;> cases expecting <;> rcases frames with _ | ⟨⟨⟩ | ⟨⟩ | ⟨⟩, outer⟩ <;>
    simp [step, stepValue, stepName, stepAfter]

/-- The steps that a reader takes where nothing is wrong. -/
inductive Advances : State → Token → State → Prop where
  | openArray {expecting : Expecting} {frames : List Frame}
      (expects : expecting = .value ∨ expecting = .itemOrEnd) (room : hasRoom frames) :
      Advances ⟨expecting, frames⟩ .openArray ⟨.itemOrEnd, .array [] :: frames⟩
  | openObject {expecting : Expecting} {frames : List Frame}
      (expects : expecting = .value ∨ expecting = .itemOrEnd) (room : hasRoom frames) :
      Advances ⟨expecting, frames⟩ .openObject ⟨.nameOrEnd, .object [] :: frames⟩
  | text {expecting : Expecting} {frames : List Frame}
      (expects : expecting = .value ∨ expecting = .itemOrEnd) (units : Text.Units) :
      Advances ⟨expecting, frames⟩ (.text units) ⟨.after (.str units), frames⟩
  | scalar {expecting : Expecting} {frames : List Frame}
      (expects : expecting = .value ∨ expecting = .itemOrEnd) (value : Json) :
      Advances ⟨expecting, frames⟩ (.scalar value) ⟨.after value, frames⟩
  | name {expecting : Expecting} {frames : List Frame}
      (expects : expecting = .name ∨ expecting = .nameOrEnd) (units : Text.Units) :
      Advances ⟨expecting, frames⟩ (.text units) ⟨.colon units, frames⟩
  | colon (name : Text.Units) (before : Fields) (outer : List Frame) :
      Advances ⟨.colon name, .object before :: outer⟩ .colon ⟨.value, .named before name :: outer⟩
  | nextItem (value : Json) (before : List Json) (outer : List Frame) :
      Advances ⟨.after value, .array before :: outer⟩ .comma ⟨.value, .array (value :: before) :: outer⟩
  | nextField (value : Json) (before : Fields) (name : Text.Units) (outer : List Frame) :
      Advances ⟨.after value, .named before name :: outer⟩ .comma
        ⟨.name, .object (before.put name value) :: outer⟩
  | emptyArray (before : List Json) (outer : List Frame) :
      Advances ⟨.itemOrEnd, .array before :: outer⟩ .closeArray ⟨.after (.arr []), outer⟩
  | closeArray (value : Json) (before : List Json) (outer : List Frame) :
      Advances ⟨.after value, .array before :: outer⟩ .closeArray
        ⟨.after (.arr (value :: before).reverse), outer⟩
  | emptyObject (before : Fields) (outer : List Frame) :
      Advances ⟨.nameOrEnd, .object before :: outer⟩ .closeObject ⟨.after (.obj []), outer⟩
  | closeObject (value : Json) (before : Fields) (name : Text.Units) (outer : List Frame) :
      Advances ⟨.after value, .named before name :: outer⟩ .closeObject
        ⟨.after (.obj (before.put name value)), outer⟩

/-- A reader goes on only by these steps. -/
theorem advances_of_step {state next : State} {lexeme : Lexeme} (stepped : step state lexeme = .ok next) :
    Advances state lexeme.token next := by
  obtain ⟨expecting, frames⟩ := state
  obtain ⟨token, offset⟩ := lexeme
  have atValue (expects : expecting = .value ∨ expecting = .itemOrEnd)
      (taken : stepValue frames ⟨token, offset⟩ = .ok next) : Advances ⟨expecting, frames⟩ token next := by
    clear stepped
    cases token with
    | openArray =>
      change (if hasRoom frames then _ else _) = _ at taken
      split at taken <;> cases taken
      exact .openArray expects ‹_›
    | openObject =>
      change (if hasRoom frames then _ else _) = _ at taken
      split at taken <;> cases taken
      exact .openObject expects ‹_›
    | text units =>
      cases taken
      exact .text expects units
    | scalar value =>
      cases taken
      exact .scalar expects value
    | _ => cases taken
  have atName (expects : expecting = .name ∨ expecting = .nameOrEnd)
      (taken : stepName frames ⟨token, offset⟩ = .ok next) : Advances ⟨expecting, frames⟩ token next := by
    clear stepped
    cases token with
    | text units =>
      cases taken
      exact .name expects units
    | _ => cases taken
  cases expecting with
  | value => exact atValue (.inl rfl) stepped
  | name => exact atName (.inl rfl) stepped
  | itemOrEnd =>
    rcases frames with _ | ⟨⟨before⟩ | _ | _, outer⟩
    · exact atValue (.inr rfl) stepped
    · cases token with
      | closeArray =>
        cases stepped
        exact .emptyArray before outer
      | _ => exact atValue (.inr rfl) stepped
    · exact atValue (.inr rfl) stepped
    · exact atValue (.inr rfl) stepped
  | nameOrEnd =>
    rcases frames with _ | ⟨_ | ⟨before⟩ | _, outer⟩
    · exact atName (.inr rfl) stepped
    · exact atName (.inr rfl) stepped
    · cases token with
      | closeObject =>
        cases stepped
        exact .emptyObject before outer
      | _ => exact atName (.inr rfl) stepped
    · exact atName (.inr rfl) stepped
  | colon units =>
    rcases frames with _ | ⟨_ | ⟨before⟩ | _, outer⟩ <;> cases token <;> cases stepped
    exact .colon units before outer
  | after value =>
    rcases frames with _ | ⟨⟨before⟩ | _ | ⟨before, units⟩, outer⟩ <;> cases token <;> cases stepped
    · exact .closeArray value before outer
    · exact .nextItem value before outer
    · exact .closeObject value before units outer
    · exact .nextField value before units outer

/-- What every step keeps, given what is known of the lexemes, is known of a value that has been read. -/
theorem ends_of_readFrom {known : Token → Prop} {kept : State → Prop}
    (steps : ∀ {state next token}, known token → Advances state token next → kept state → kept next)
    {length : Nat} {state : State} {lexemes : List Lexeme} {value : Json}
    (each : ∀ lexeme ∈ lexemes, known lexeme.token) (start : kept state)
    (read : readFrom length state lexemes = .ok value) : kept ⟨.after value, []⟩ := by
  induction lexemes generalizing state with
  | nil =>
    obtain ⟨expecting, frames⟩ := state
    rw [readFrom] at read
    cases expecting <;> cases frames <;> cases read
    exact start
  | cons lexeme rest inductionHypothesis =>
    obtain ⟨first, others⟩ := List.forall_mem_cons.mp each
    rw [readFrom] at read
    split at read
    · rename_i next stepped
      exact inductionHypothesis others (steps first (advances_of_step stepped) start) read
    · cases read

/-- Every lexeme lies at some place of the text. -/
theorem exists_tokenAt (text : List Char) (offset skip : Nat) {lexeme : Lexeme}
    (member : lexeme ∈ lexemesFrom offset skip text) : ∃ place, lexeme.token = (tokenAt place).1 := by
  induction text generalizing offset skip with
  | nil => simp [lexemesFrom] at member
  | cons c rest inductionHypothesis =>
    cases skip with
    | succ skip => exact inductionHypothesis _ _ member
    | zero =>
      rw [lexemesFrom] at member
      dsimp only at member
      split at member
      · exact inductionHypothesis _ _ member
      · split at member
        · rcases List.mem_cons.mp member with rfl | member
          · exact ⟨_, rfl⟩
          · exact inductionHypothesis _ _ member
        · rw [List.mem_singleton.mp member]
          exact ⟨_, rfl⟩

/-! ### Words and numbers -/

/-- The characters that numbers and the names of values consist of. -/
def isWordChar (c : Char) : Bool :=
  c.isAlphanum || c = '.' || c = '+' || c = '-'

/-- These characters are visible ones of ASCII. -/
theorem toNat_of_isWordChar {c : Char} (word : isWordChar c) : 43 ≤ c.toNat ∧ c.toNat ≤ 122 := by
  have between (first last : Char) (within : decide (c.val ≥ first.val) && decide (c.val ≤ last.val)) :
      first.toNat ≤ c.toNat ∧ c.toNat ≤ last.toNat := by
    rw [Bool.and_eq_true, decide_eq_true_eq, decide_eq_true_eq] at within
    exact within
  simp only [isWordChar, Char.isAlphanum, Bool.or_eq_true, decide_eq_true_eq] at word
  rcases word with (((letter | digit) | rfl) | rfl) | rfl
  · rcases (Bool.or_eq_true _ _).mp letter with upper | lower
    · obtain ⟨least, most⟩ : 65 ≤ c.toNat ∧ c.toNat ≤ 90 := of_decide_eq_true upper
      omega
    · obtain ⟨least, most⟩ : 97 ≤ c.toNat ∧ c.toNat ≤ 122 := between 'a' 'z' lower
      omega
  · obtain ⟨least, most⟩ : 48 ≤ c.toNat ∧ c.toNat ≤ 57 := between '0' '9' digit
    omega
  all_goals decide

/-- Digits occur in words. -/
theorem isWordChar_of_isDigit {c : Char} (digit : c.isDigit) : isWordChar c := by
  simp [isWordChar, Char.isAlphanum, digit]

/-- A run of digits is a part of a word. -/
theorem isWordChar_digitRun (text : List Char) :
    text = (digitRun text).1 ++ (digitRun text).2 ∧ ∀ c ∈ (digitRun text).1, isWordChar c :=
  ⟨List.takeWhile_append_dropWhile.symm, fun _ member => isWordChar_of_isDigit
    (List.all_eq_true.mp List.all_takeWhile _ member)⟩

/-- The whole part of a numeral is a part of a word. -/
theorem isWordChar_wholePart (text : List Char) :
    text = (wholePart text).1 ++ (wholePart text).2 ∧ ∀ c ∈ (wholePart text).1, isWordChar c := by
  unfold wholePart
  split
  · exact ⟨rfl, by simp [isWordChar]⟩
  · exact isWordChar_digitRun text

/-- So is its fraction, with the point. -/
theorem isWordChar_fractionPart {text places rest : List Char}
    (fraction : fractionPart text = some (places, rest)) :
    ∃ front, text = front ++ rest ∧ ∀ c ∈ front, isWordChar c := by
  unfold fractionPart at fraction
  split at fraction
  · rename_i digits
    obtain ⟨whole, word⟩ := isWordChar_digitRun digits
    split at fraction
    · cases fraction
    · rw [Option.some.inj fraction] at whole word
      refine ⟨'.' :: places, by rw [whole]; rfl, fun c member => ?_⟩
      rcases List.mem_cons.mp member with rfl | member
      · decide
      · exact word c member
  · cases fraction

/-- So is its exponent. -/
theorem isWordChar_exponentPart {text rest : List Char} {power : Int}
    (exponent : exponentPart text = some (power, rest)) :
    ∃ front, text = front ++ rest ∧ ∀ c ∈ front, isWordChar c := by
  unfold exponentPart at exponent
  split at exponent
  · rename_i e behind
    split at exponent
    · rename_i letter
      have word : isWordChar e := by rcases letter with rfl | rfl <;> decide
      split at exponent
      rename_i negative digits signed
      have sign : ∃ sign, behind = sign ++ digits ∧ ∀ c ∈ sign, isWordChar c := by
        split at signed <;> cases signed
        · exact ⟨['-'], rfl, by decide⟩
        · exact ⟨['+'], rfl, by decide⟩
        · exact ⟨[], rfl, by simp⟩
      obtain ⟨sign, rfl, signWord⟩ := sign
      obtain ⟨whole, digitWord⟩ := isWordChar_digitRun digits
      split at exponent
      · cases exponent
      · rename_i run further _ found
        rw [found] at whole digitWord
        obtain ⟨-, rfl⟩ := Prod.mk.inj (Option.some.inj exponent)
        refine ⟨e :: (sign ++ run), by rw [whole]; simp, fun c member => ?_⟩
        simp only [List.mem_cons, List.mem_append] at member
        rcases member with rfl | member | member
        · exact word
        · exact signWord c member
        · exact digitWord c member
    · cases exponent
  · cases exponent

/-- The values that are written as a word or a number. -/
def isWord : Json → Bool
  | .null | .bool _ | .int _ | .float _ => true
  | _ => false

/-- A lexeme that stands for a word or a number, or none at all. -/
def Token.IsWord (token : Token) : Prop :=
  token.isSound → ∃ value, token = .scalar value ∧ value.isWord

/-- A number takes up characters that numbers consist of. -/
theorem numberFrom_front {negative : Bool} {text rest : List Char} {token : Token}
    (number : numberFrom negative text = some (token, rest)) :
    token.IsWord ∧ ∃ front, front ≠ [] ∧ text = front ++ rest ∧ ∀ c ∈ front, isWordChar c := by
  unfold numberFrom at number
  obtain ⟨whole, wholeWord⟩ := isWordChar_wholePart text
  split at number
  · cases number
  · rename_i digits behind nonempty found
    rw [found] at whole wholeWord
    obtain ⟨fractionFront, fractionWhole, fractionWord⟩ : ∃ front,
        behind = front ++ ((fractionPart behind).getD ([], behind)).2 ∧ ∀ c ∈ front, isWordChar c := by
      cases fraction : fractionPart behind with
      | none => exact ⟨[], rfl, by simp⟩
      | some part => exact isWordChar_fractionPart fraction
    dsimp only at number fractionWhole
    generalize ((fractionPart behind).getD ([], behind)).2 = further at number fractionWhole
    obtain ⟨exponentFront, exponentWhole, exponentWord⟩ : ∃ front,
        further = front ++ ((exponentPart further).getD (0, further)).2 ∧ ∀ c ∈ front, isWordChar c := by
      cases exponent : exponentPart further with
      | none => exact ⟨[], rfl, by simp⟩
      | some part => exact isWordChar_exponentPart exponent
    have front : ∃ front, front ≠ [] ∧
        text = front ++ ((exponentPart further).getD (0, further)).2 ∧ ∀ c ∈ front, isWordChar c := by
      refine ⟨digits ++ (fractionFront ++ exponentFront), ?_, ?_, fun c member => ?_⟩
      · intro empty
        exact nonempty (List.append_eq_nil_iff.mp empty).1
      · rw [List.append_assoc, List.append_assoc, ← exponentWhole, ← fractionWhole]
        exact whole
      · rcases List.mem_append.mp member with member | member
        · exact wholeWord c member
        · rcases List.mem_append.mp member with member | member
          · exact fractionWord c member
          · exact exponentWord c member
    split at number
    · split at number
      · obtain ⟨rfl, rfl⟩ := Prod.mk.inj (Option.some.inj number)
        exact ⟨fun sound => absurd sound (by simp [Token.isSound]), front⟩
      · obtain ⟨rfl, rfl⟩ := Prod.mk.inj (Option.some.inj number)
        exact ⟨fun _ => ⟨_, rfl, rfl⟩, front⟩
    · obtain ⟨rfl, rfl⟩ := Prod.mk.inj (Option.some.inj number)
      exact ⟨fun _ => ⟨_, rfl, rfl⟩, front⟩

/-- A character that is a lexeme by itself or opens a quoted text. -/
def isMark (c : Char) : Bool :=
  c ∈ ['[', ']', '\x7b', '\x7d', ',', ':', '"']

/-- A number or the name of a value takes up characters that these consist of, and nothing else begins
without a mark. -/
theorem tokenAt_unmarked {c : Char} (unmarked : isMark c = false) (text : List Char) :
    tokenAt (c :: text) = (.unknown, 1) ∨ ∃ token front back, front ≠ [] ∧ c :: text = front ++ back ∧
      (∀ c ∈ front, isWordChar c) ∧ tokenAt (c :: text) = (token, front.length) ∧ token.IsWord := by
  have names : ∀ name ∈ words, name.1 ≠ [] ∧ (∀ c ∈ name.1, isWordChar c) ∧ name.2.isWord := by decide
  unfold tokenAt
  split
  case h_8 =>
    split
    · rename_i name value found
      have isFront : name.isPrefixOf (c :: text) := by
        have met := List.find?_some found
        exact met
      obtain ⟨back, whole⟩ := List.isPrefixOf_iff_prefix.mp isFront
      obtain ⟨nonempty, letters, isWord⟩ := names _ (List.mem_of_find?_eq_some found)
      exact .inr ⟨.scalar value, name, back, nonempty, whole.symm, letters, rfl,
        fun _ => ⟨value, rfl, isWord⟩⟩
    · split
      rename_i negative body signed
      have sign : ∃ sign, c :: text = sign ++ body ∧ ∀ c ∈ sign, isWordChar c := by
        split at signed <;> cases signed
        · exact ⟨['-'], by simp_all, by decide⟩
        · exact ⟨[], rfl, by simp⟩
      obtain ⟨sign, whole, signWord⟩ := sign
      split
      · rename_i token rest number
        obtain ⟨isWord, front, nonempty, rfl, frontWord⟩ := numberFrom_front number
        refine .inr ⟨token, sign ++ front, rest, by simp [nonempty], by rw [whole, List.append_assoc],
          fun c member => ?_, ?_, isWord⟩
        · rcases List.mem_append.mp member with member | member
          · exact signWord c member
          · exact frontWord c member
        · rw [whole]
          simp only [List.length_append, Prod.mk.injEq, true_and]
          omega
      · exact .inl rfl
  all_goals
    rename_i same
    obtain ⟨rfl, -⟩ := List.cons.inj same
    exact absurd unmarked (by decide)

/-- A character of a word is no mark. -/
theorem isMark_of_isWordChar {c : Char} (word : isWordChar c) : isMark c = false := by
  have apart : ∀ mark ∈ ['[', ']', '\x7b', '\x7d', ',', ':', '"'], isWordChar mark = false := by decide
  rw [isMark, decide_eq_false_iff_not]
  intro member
  rw [apart c member] at word
  cases word

/-- The text behind a number or a name begins with something else. -/
def EndsWord (text : List Char) : Prop := ∀ c ∈ text.head?, isWordChar c = false

/-- A character of a word is not white space. -/
theorem isSpacing_of_isWordChar {c : Char} (word : isWordChar c) : isSpacing c = false := by
  refine Bool.eq_false_iff.mpr fun blank => ?_
  simp only [isSpacing, Bool.or_eq_true, decide_eq_true_eq] at blank
  rcases blank with ((rfl | rfl) | rfl) | rfl <;> exact absurd word (by decide)

end TreeBuild.Json
