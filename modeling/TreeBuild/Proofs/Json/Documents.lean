import TreeBuild.Proofs.Json.Grammar

/-!
# Documents

A text is a document if it consists of words that follow the grammar, with blanks between them. The words
alone decide what is read from it, and every text that is read is a document.
-/
namespace TreeBuild.Json

/-! ### Words with gaps between them -/

/-- A text consists of words, with a gap before each of them and one behind the last. -/
inductive Spaced (gap last : List Char → Prop) : List (List Char) → List Char → Prop where
  | ends {front : List Char} (here : last front) : Spaced gap last [] front
  | word {front word text : List Char} {words : List (List Char)} (here : gap front)
      (others : Spaced gap last words text) : Spaced gap last (word :: words) (front ++ (word ++ text))

/-- The gaps of plain JSON. -/
def IsBlanks (gap : List Char) : Prop := ∀ c ∈ gap, isSpacing c

/-- Blanks before lexemes are passed over. -/
theorem lexemesFrom_blanks {gap : List Char} (blanks : IsBlanks gap) (offset : Nat) (text : List Char) :
    lexemesFrom offset 0 (gap ++ text) = lexemesFrom (offset + gap.length) 0 text := by
  induction gap generalizing offset with
  | nil => rfl
  | cons c others inductionHypothesis =>
    obtain ⟨first, further⟩ := List.forall_mem_cons.mp blanks
    rw [List.cons_append, lexemesFrom, if_pos first, inductionHypothesis further, List.length_cons]
    congr 1
    omega

/-- Behind a number or a name begins something else, if the words are apart. -/
theorem Spaced.endsWord {tokens : List Token} {words : List (List Char)} {text : List Char} {token : Token}
    (spaced : Spaced IsBlanks IsBlanks words text) (looks : List.Forall₂ Token.Looks tokens words)
    (joins : ∀ next ∈ tokens.head?, token.Joins next) (lettered : token.isLettered) : EndsWord text := by
  have behind {front text : List Char} (blanks : IsBlanks front) (ends : EndsWord text) : EndsWord (front ++ text) := by
    cases front with
    | nil => exact ends
    | cons c others =>
      rintro _ ⟨⟩
      refine Bool.eq_false_iff.mpr fun word => ?_
      have spacing := blanks c List.mem_cons_self
      rw [isSpacing_of_isWordChar word] at spacing
      cases spacing
  cases spaced with
  | ends here =>
    have none : EndsWord [] := by rintro _ ⟨⟩
    simpa using behind here none
  | word here others =>
    cases looks with
    | cons first =>
      obtain ⟨c, more, rfl, -, -, letter⟩ := first.head
      refine behind here ?_
      rintro _ ⟨⟩
      rw [letter]
      exact (joins _ rfl).apart lettered

/-! ### Reading words -/

/-- A stop, wherever it happens. -/
def Stop.placeless : Stop → Stop
  | .malformed cause _ => .malformed cause 0
  | other => other

/-- A step does not depend on the place of the lexeme, but for the place where it stops. -/
theorem step_placeless (state : State) (token : Token) (offset : Nat) :
    (∃ next, step state ⟨token, offset⟩ = .ok next ∧ step state ⟨token, 0⟩ = .ok next) ∨
      ∃ stop other, step state ⟨token, offset⟩ = .error stop ∧ step state ⟨token, 0⟩ = .error other ∧
        stop.placeless = other.placeless := by
  have same : (step state ⟨token, offset⟩).mapError Stop.placeless =
      (step state ⟨token, 0⟩).mapError Stop.placeless := by
    obtain ⟨expecting, frames⟩ := state
    cases expecting <;> rcases frames with _ | ⟨⟨⟩ | ⟨⟩ | ⟨⟩, outer⟩ <;> cases token <;> rfl
  cases taken : step state ⟨token, offset⟩ <;> cases again : step state ⟨token, 0⟩ <;>
    simp only [taken, again, Except.mapError, Except.error.injEq, reduceCtorEq, Except.ok.injEq] at same
  · exact .inr ⟨_, _, rfl, rfl, same⟩
  · exact .inl ⟨_, rfl, congrArg Except.ok same.symm⟩

/-- Where a document ends does not matter for what it comes to, if places are left out. -/
theorem finish_placeless (state : State) (length : Nat) :
    (finish length state).mapError Stop.placeless = (finish 0 state).mapError Stop.placeless := by
  obtain ⟨expecting, frames⟩ := state
  cases expecting <;> cases frames <;> rfl

/-- What comes of reading a text is what comes of reading its words, but for places. -/
theorem Spaced.readFrom_eq {tokens : List Token} {words : List (List Char)} {text : List Char}
    (spaced : Spaced IsBlanks IsBlanks words text) (looks : List.Forall₂ Token.Looks tokens words)
    (joined : tokens.IsChain Token.Joins) (state : State) (length offset : Nat) :
    (readFrom length state (lexemesFrom offset 0 text)).mapError Stop.placeless =
      (readTokens state tokens).mapError Stop.placeless := by
  induction spaced generalizing tokens state offset with
  | @ends front here =>
    cases looks
    have none := lexemesFrom_blanks here offset []
    rw [List.append_nil] at none
    rw [none]
    exact finish_placeless state length
  | @word front word text words here others inductionHypothesis =>
    obtain _ | ⟨first, later⟩ := looks
    rename_i token tokens
    obtain ⟨next, further⟩ := List.isChain_cons.mp joined
    have whole := first.tokenAt_append (others.endsWord later next)
    obtain ⟨c, more, rfl, least, most, -⟩ := first.head
    have visible : ∀ head ∈ (c :: more).head?, isSpacing head = false := by
      rintro _ ⟨⟩
      refine Bool.eq_false_iff.mpr fun spacing => ?_
      have blank := isBlank_of_isSpacing spacing
      rw [isBlank_of_visible least most] at blank
      cases blank
    rw [lexemesFrom_blanks here, lexemesFrom_append _ (List.cons_ne_nil c more) visible whole, readTokens_cons]
    rcases step_placeless state token (offset + front.length) with
      ⟨next, taken, again⟩ | ⟨stop, other, taken, again, same⟩
    · cases sound : token.isSound with
      | false => exact absurd taken (step_unsound sound state _ next)
      | true =>
        rw [if_pos rfl, readFrom, taken, again]
        exact inductionHypothesis later further next _
    · rw [again]
      split <;> rw [readFrom, taken] <;> exact congrArg Except.error same

/-- A text of words does not begin with a byte order mark. -/
theorem Spaced.head?_ne {tokens : List Token} {words : List (List Char)} {text : List Char}
    (spaced : Spaced IsBlanks IsBlanks words text) (looks : List.Forall₂ Token.Looks tokens words) :
    text.head? ≠ some (Char.ofNat 0xFEFF) := by
  have blank {front : List Char} (blanks : IsBlanks front) : front.head? ≠ some (Char.ofNat 0xFEFF) := by
    intro mark
    have spacing := blanks _ (List.mem_of_mem_head? mark)
    exact absurd spacing (by decide)
  cases spaced with
  | ends here => exact blank here
  | @word front word text _ here _ =>
    cases looks with
    | cons first =>
      obtain ⟨c, others, rfl, -, most, -⟩ := first.head
      intro mark
      cases front with
      | nil =>
        obtain rfl : c = Char.ofNat 0xFEFF := by simpa using mark
        exact absurd most (by decide)
      | cons blanks => exact blank here mark

/-- A document is read by its words alone: the blanks between them make no difference. -/
theorem read_of_spaced {words : List (List Char)} {tokens : List Token} {text : String}
    (spaced : Spaced IsBlanks IsBlanks words text.toList) (spelled : List.Forall₂ IsLexeme words tokens)
    (phrase : Phrase .value tokens) :
    read text = (readTokens ⟨.value, []⟩ tokens).mapError (Stop.toError []) := by
  have looks := looks_of_spelled spelled phrase.isReal
  obtain ⟨_, _, joined, -⟩ := phrase.joined
  have same := spaced.readFrom_eq looks joined.chain ⟨.value, []⟩ text.toList.length 0
  unfold read readLexemes lexemes
  dsimp only
  rw [if_neg (spaced.head?_ne looks)]
  cases outcome : readTokens ⟨.value, []⟩ tokens with
  | ok value =>
    rw [outcome] at same
    cases told : readFrom text.toList.length ⟨.value, []⟩ (lexemesFrom 0 0 text.toList) with
    | ok other =>
      rw [told] at same
      exact congrArg Except.ok (Except.ok.inj same)
    | error stop => rw [told] at same; cases same
  | error stop =>
    have limit := phrase.isLimit outcome
    rw [outcome] at same
    cases told : readFrom text.toList.length ⟨.value, []⟩ (lexemesFrom 0 0 text.toList) with
    | ok other => rw [told] at same; cases same
    | error other =>
      rw [told] at same
      have same := Except.error.inj same
      cases stop <;> cases limit <;> cases other <;> cases same <;> rfl

/-- A text is a document of these words: they are its lexemes, with blanks between them, and follow the grammar. -/
structure IsDocument (words : List (List Char)) (text : String) : Prop where
  spaced : Spaced IsBlanks IsBlanks words text.toList
  grammatical : ∃ tokens, List.Forall₂ IsLexeme words tokens ∧ Phrase .value tokens

/-! ### Texts that are read -/

/-- Blanks in front of a text belong to the first gap. -/
theorem Spaced.blank {words : List (List Char)} {c : Char} {text : List Char} (spacing : isSpacing c)
    (spaced : Spaced IsBlanks IsBlanks words text) : Spaced IsBlanks IsBlanks words (c :: text) := by
  cases spaced with
  | ends here => exact .ends (List.forall_mem_cons.mpr ⟨spacing, here⟩)
  | @word front word text words here others =>
    exact @Spaced.word _ _ (c :: front) word text words (List.forall_mem_cons.mpr ⟨spacing, here⟩) others

/-- The lexemes of a text are words of their own, if each joins with the next. -/
theorem Lexed.exists_words {offset : Nat} {text : List Char} {lexemes : List Lexeme}
    (lexed : Lexed offset text lexemes) (joined : (lexemes.map Lexeme.token).IsChain Token.Joins)
    (real : ∀ token ∈ lexemes.map Lexeme.token, token.isReal) : ∃ words,
      Spaced IsBlanks IsBlanks words text ∧ List.Forall₂ IsLexeme words (lexemes.map Lexeme.token) := by
  induction lexed with
  | nil => exact ⟨[], .ends (by simp [IsBlanks]), .nil⟩
  | blank spacing _ inductionHypothesis =>
    obtain ⟨words, spaced, spelled⟩ := inductionHypothesis joined real
    exact ⟨words, spaced.blank spacing, spelled⟩
  | @lexeme offset front back token lexemes spells here others inductionHypothesis =>
    obtain ⟨joins, joinedLater⟩ := List.isChain_cons.mp joined
    obtain ⟨_, realLater⟩ := List.forall_mem_cons.mp real
    obtain ⟨words, spaced, spelled⟩ := inductionHypothesis joinedLater realLater
    refine ⟨front :: words, @Spaced.word _ _ [] _ _ _ (by simp [IsBlanks]) spaced, .cons ?_ spelled⟩
    cases spells with
    | @text units inner quoted =>
      have alone := tokenAt_quoted here []
      rw [List.append_nil] at alone
      exact alone
    | scalar value nonempty letters =>
      have ends := spaced.endsWord (looks_of_spelled spelled realLater) joins rfl
      rw [IsLexeme, ← here, tokenAt_before ends nonempty letters]
    | _ => rfl

/-- Every text that is read is a document. -/
theorem exists_document_of_read {text : String} {value : Json} (told : read text = .ok value) :
    ∃ words, IsDocument words text := by
  have readOn := readFrom_of_read told
  have phrase := phrase_of_readFrom readOn
  obtain ⟨_, _, joined, -⟩ := phrase.joined
  have lexed : Lexed 0 text.toList (lexemes text.toList) := lexed_of_sound 0 _ (sound_of_readFrom readOn)
  obtain ⟨words, spaced, spelled⟩ := lexed.exists_words joined.chain phrase.isReal
  exact ⟨words, spaced, _, spelled, phrase⟩

end TreeBuild.Json
