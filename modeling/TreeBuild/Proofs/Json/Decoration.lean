import TreeBuild.Proofs.Json.Documents

/-!
# Documents with comments and trailing commas

Comments may stand wherever blanks may, and a comma in front of a closing bracket. The scan for comments passes
over the words of a document and takes everything else but blanks out, whatever the comments hold. The scan for
trailing commas then meets the commas that were added, and no others: behind a comma of the document stands a
value or a name, and quoted texts that hold such a comma are left aside. What remains are the words of the
document with blanks between them.
-/
namespace TreeBuild.Json

/-! ### Comments -/

/-- Blanks and comments. -/
inductive IsGap : List Char → Prop where
  | nil : IsGap []
  | blank {c : Char} {rest : List Char} (spacing : isSpacing c) (others : IsGap rest) : IsGap (c :: rest)
  /-- A comment that goes on to the end of its line. -/
  | line {comment rest : List Char} (inside : '\n' ∉ comment) (others : IsGap rest) :
      IsGap ('/' :: '/' :: (comment ++ '\n' :: rest))
  /-- A comment with an end of its own. -/
  | block {comment rest : List Char} (inside : ¬ ['*', '/'] <:+: comment) (others : IsGap rest) :
      IsGap ('/' :: '*' :: (comment ++ '*' :: '/' :: rest))

/-- Blanks and comments at the end of a text, where a line need not be ended. -/
inductive IsLastGap : List Char → Prop where
  | gap {front : List Char} (here : IsGap front) : IsLastGap front
  | line {front comment : List Char} (here : IsGap front) (inside : '\n' ∉ comment) :
      IsLastGap (front ++ '/' :: '/' :: comment)

/-- A line comment is taken out up to the end of its line. -/
theorem withoutComments_line {comment back : List Char} (inside : '\n' ∉ comment)
    (ends : ∀ c ∈ back.head?, c = '\n') :
    withoutComments ('/' :: '/' :: (comment ++ back)) = withoutComments back := by
  have length : (comment ++ back).takeWhile (· ≠ '\n') = comment := by
    have plain : ∀ c ∈ comment, decide (c ≠ '\n') = true := by
      intro c member
      rw [decide_eq_true_eq]
      rintro rfl
      exact inside member
    rw [List.takeWhile_append_of_pos plain]
    cases back with
    | nil => simp
    | cons c others => simp [ends c rfl]
  have found : commentPattern none ('/' :: '/' :: comment ++ back) =
      some ([], ('/' :: '/' :: comment).length) := by
    simp only [commentPattern, List.cons_append, length, List.length_cons]
  exact Text.render_append_of_found commentPattern_blind id back (List.cons_ne_nil _ _) found

/-- The length of a block comment. -/
theorem blockLength?_append {comment : List Char} (inside : ¬ ['*', '/'] <:+: comment) (back : List Char) :
    blockLength? (comment ++ '*' :: '/' :: back) = some (comment.length + 2) := by
  induction comment with
  | nil => rfl
  | cons c rest inductionHypothesis =>
    have later := inductionHypothesis fun within => inside (within.trans (List.suffix_cons c rest).isInfix)
    have goesOn : ∀ others, c = '*' → rest ++ '*' :: '/' :: back = '/' :: others → False := by
      rintro others rfl same
      cases rest with
      | nil => cases same
      | cons d more =>
        obtain ⟨rfl, -⟩ := List.cons.inj same
        exact inside ⟨[], more, rfl⟩
    rw [List.cons_append, blockLength?, later]
    · simp
    · exact fun others star => goesOn others star

/-- A block comment is taken out. -/
theorem withoutComments_block {comment : List Char} (inside : ¬ ['*', '/'] <:+: comment) (back : List Char) :
    withoutComments ('/' :: '*' :: (comment ++ '*' :: '/' :: back)) = withoutComments back := by
  have found : commentPattern none ('/' :: '*' :: (comment ++ ['*', '/']) ++ back) =
      some ([], ('/' :: '*' :: (comment ++ ['*', '/'])).length) := by
    simp [commentPattern, blockLength?_append inside back]
  have taken := Text.render_append_of_found commentPattern_blind id back (List.cons_ne_nil _ _) found
  rw [List.cons_append, List.cons_append, List.append_assoc] at taken
  exact taken

/-- Of blanks and comments only the blanks stay. -/
theorem IsGap.withoutComments {gap : List Char} (isGap : IsGap gap) : ∃ blanks, IsBlanks blanks ∧
    ∀ back, Json.withoutComments (gap ++ back) = blanks ++ Json.withoutComments back := by
  have single {c : Char} (spacing : isSpacing c) (back : List Char) :
      Json.withoutComments (c :: back) = c :: Json.withoutComments back :=
    @withoutComments_append [c] (List.forall_mem_singleton.mpr
      ⟨ne_of_isSpacing spacing (by decide), ne_of_isSpacing spacing (by decide)⟩) back
  induction isGap with
  | nil => exact ⟨[], by simp [IsBlanks], fun _ => rfl⟩
  | @blank c rest spacing _ inductionHypothesis =>
    obtain ⟨blanks, isBlanks, taken⟩ := inductionHypothesis
    refine ⟨c :: blanks, List.forall_mem_cons.mpr ⟨spacing, isBlanks⟩, fun back => ?_⟩
    rw [List.cons_append, single spacing, taken]
    rfl
  | @line comment rest inside _ inductionHypothesis =>
    obtain ⟨blanks, isBlanks, taken⟩ := inductionHypothesis
    refine ⟨'\n' :: blanks, List.forall_mem_cons.mpr ⟨rfl, isBlanks⟩, fun back => ?_⟩
    have line := @withoutComments_line comment ('\n' :: (rest ++ back)) inside (by rintro _ ⟨⟩; rfl)
    simp only [List.cons_append, List.append_assoc]
    rw [line, single rfl, taken]
  | @block comment rest inside _ inductionHypothesis =>
    obtain ⟨blanks, isBlanks, taken⟩ := inductionHypothesis
    refine ⟨blanks, isBlanks, fun back => ?_⟩
    simp only [List.cons_append, List.append_assoc]
    rw [withoutComments_block inside, taken]

/-- A word stays where comments are taken out. -/
theorem Token.Looks.withoutComments_append {token : Token} {word : List Char} (looks : token.Looks word)
    (back : List Char) : withoutComments (word ++ back) = word ++ withoutComments back := by
  cases looks with
  | letters _ _ letters =>
    refine Json.withoutComments_append (fun c member => ?_) back
    have word := letters c member
    exact ⟨ne_of_isWordChar word (by decide), ne_of_isWordChar word (by decide)⟩
  | @mark _ c _ mark noQuote =>
    refine Json.withoutComments_append (List.forall_mem_singleton.mpr ⟨noQuote, ?_⟩) back
    rintro rfl
    exact absurd mark (by decide)
  | quoted _ quoted => exact withoutComments_quoted quoted back

/-- In no text there are no comments. -/
theorem withoutComments_nil : withoutComments [] = [] := rfl

/-- Words with comments between them are the same words with blanks between them once the comments are taken
out. -/
theorem Spaced.withoutComments {tokens : List Token} {words : List (List Char)} {text : List Char}
    (spaced : Spaced IsGap IsLastGap words text) (looks : List.Forall₂ Token.Looks tokens words) :
    Spaced IsBlanks IsBlanks words (Json.withoutComments text) := by
  induction spaced generalizing tokens with
  | @ends front here =>
    cases here with
    | gap here =>
      obtain ⟨blanks, isBlanks, taken⟩ := here.withoutComments
      have whole := taken []
      rw [withoutComments_nil, List.append_nil, List.append_nil] at whole
      rw [whole]
      exact .ends isBlanks
    | @line front comment here inside =>
      obtain ⟨blanks, isBlanks, taken⟩ := here.withoutComments
      have line := @withoutComments_line comment [] inside (by rintro _ ⟨⟩)
      rw [List.append_nil] at line
      rw [taken, line, withoutComments_nil, List.append_nil]
      exact .ends isBlanks
  | word here _ inductionHypothesis =>
    cases looks with
    | cons first others =>
      obtain ⟨blanks, isBlanks, taken⟩ := here.withoutComments
      rw [taken, first.withoutComments_append]
      exact .word isBlanks (inductionHypothesis others)

/-! ### Commas -/

/-- Words with commas put in front of closing brackets, at most one in front of each. -/
inductive AddsCommas : List (List Char) → List (List Char) → Prop where
  | nil : AddsCommas [] []
  | keep (word : List Char) {words more : List (List Char)} (others : AddsCommas words more) :
      AddsCommas (word :: words) (word :: more)
  | comma {bracket : Char} (closing : isClosing bracket) {words more : List (List Char)}
      (others : AddsCommas words more) : AddsCommas ([bracket] :: words) ([','] :: [bracket] :: more)

/-- Whether a comma is a trailing one does not depend on what is before it. -/
theorem trailingCommaPattern_blind (before : Option Char) (text : List Char) :
    trailingCommaPattern before text = trailingCommaPattern none text := by
  unfold trailingCommaPattern
  split <;> rfl

/-- Where no trailing comma begins, the scan for trailing commas takes nothing out. -/
theorem withoutTrailingCommas_append {front back : List Char}
    (clean : ∀ part, part ≠ [] → part <:+ front → ¬ IsTrailing (part ++ back)) :
    withoutTrailingCommas (front ++ back) = front ++ withoutTrailingCommas back := by
  refine Text.render_append_of_none trailingCommaPattern_blind id back fun part nonempty inside => ?_
  rw [← Option.not_isSome_iff_eq_none, isTrailing_iff]
  exact clean part nonempty inside

/-- A front without commas stays. -/
theorem withoutTrailingCommas_plain {front : List Char} (plain : ',' ∉ front) (back : List Char) :
    withoutTrailingCommas (front ++ back) = front ++ withoutTrailingCommas back := by
  refine withoutTrailingCommas_append fun part nonempty inside => ?_
  rintro ⟨blanks, bracket, others, same, -⟩
  obtain ⟨c, rest, rfl⟩ := List.exists_cons_of_ne_nil nonempty
  obtain ⟨rfl, -⟩ := List.cons.inj same
  exact plain (inside.subset List.mem_cons_self)

/-- White space stays when trailing commas are taken away. -/
theorem withoutTrailingCommas_blanks {blanks : List Char} (isBlanks : IsBlanks blanks) (back : List Char) :
    withoutTrailingCommas (blanks ++ back) = blanks ++ withoutTrailingCommas back :=
  withoutTrailingCommas_plain (fun member => absurd (isBlanks ',' member) (by decide)) back

/-- A trailing comma is taken out, and the blanks behind it stay. -/
theorem withoutTrailingCommas_trailing {blanks : List Char} {bracket : Char} (isBlanks : IsBlanks blanks)
    (closing : isClosing bracket) (back : List Char) :
    withoutTrailingCommas (',' :: (blanks ++ bracket :: back)) =
      blanks ++ withoutTrailingCommas (bracket :: back) := by
  have visible := isBlank_of_isClosing closing
  have blank : ∀ c ∈ blanks, Text.isBlank c := fun c member => isBlank_of_isSpacing (isBlanks c member)
  have found : trailingCommaPattern none (',' :: blanks ++ bracket :: back) =
      some (blanks, (',' :: blanks).length) := by
    rcases isClosing_iff.mp closing with rfl | rfl <;>
      simp [trailingCommaPattern, List.takeWhile_append_of_pos blank, List.dropWhile_append_of_pos blank, visible]
  exact Text.render_append_of_found trailingCommaPattern_blind id _ (List.cons_ne_nil _ _) found

/-- A word that begins with a closing bracket closes a container. -/
theorem Token.Looks.closes {token : Token} {bracket : Char} {others : List Char}
    (looks : token.Looks (bracket :: others)) (closing : isClosing bracket) :
    token = .closeArray ∨ token = .closeObject := by
  cases looks with
  | letters _ _ letters =>
    have word := letters bracket List.mem_cons_self
    rcases isClosing_iff.mp closing with rfl | rfl <;> exact absurd word (by decide)
  | mark _ _ _ here =>
    rcases isClosing_iff.mp closing with rfl | rfl
    · exact .inl (congrArg Prod.fst (here [])).symm
    · exact .inr (congrArg Prod.fst (here [])).symm
  | quoted => cases closing

/-- A word stays where trailing commas are taken out, unless it is one, if none is within its quotes. -/
theorem Token.Looks.withoutTrailingCommas_append {token : Token} {word back : List Char} (looks : token.Looks word)
    (plain : ¬ HoldsTrailing word) (opens : token = .comma → ¬ IsTrailing (',' :: back)) :
    withoutTrailingCommas (word ++ back) = word ++ withoutTrailingCommas back := by
  cases looks with
  | letters _ _ letters =>
    exact withoutTrailingCommas_plain (fun member => ne_of_isWordChar (letters ',' member) (by decide) rfl) back
  | @mark _ c _ _ _ here =>
    by_cases comma : c = ','
    · subst comma
      refine Json.withoutTrailingCommas_append fun part nonempty inside => ?_
      rcases List.suffix_cons_iff.mp inside with rfl | empty
      · exact opens (congrArg Prod.fst (here [])).symm
      · exact absurd (List.suffix_nil.mp empty) nonempty
    · exact withoutTrailingCommas_plain (by simpa using fun same : ',' = c => comma same.symm) back
  | quoted _ quoted =>
    exact Json.withoutTrailingCommas_append fun part nonempty inside trailing =>
      plain (quoted.holdsTrailing nonempty inside trailing)

/-- The first visible character of a text is that of its first word. -/
theorem Spaced.first_eq {c bracket : Char} {others blanks back text : List Char} {words : List (List Char)}
    (spaced : Spaced IsBlanks IsBlanks ((c :: others) :: words) text) (visible : Text.isBlank c = false)
    (whole : text = blanks ++ bracket :: back) (blank : ∀ c ∈ blanks, Text.isBlank c)
    (notBlank : Text.isBlank bracket = false) : bracket = c := by
  obtain _ | ⟨here, _⟩ := spaced
  have dropped := congrArg (List.dropWhile Text.isBlank) whole
  rw [List.dropWhile_append_of_pos blank, List.cons_append,
    List.dropWhile_append_of_pos fun c member => isBlank_of_isSpacing (here c member)] at dropped
  simp only [List.dropWhile_cons, visible, notBlank] at dropped
  exact (List.cons.inj dropped).1.symm

/-- In no text there are no trailing commas. -/
theorem withoutTrailingCommas_nil : withoutTrailingCommas [] = [] := rfl

/-- Where commas have been added in front of closing brackets, taking the trailing ones out leaves the words as they
were. -/
theorem AddsCommas.withoutTrailingCommas {words more : List (List Char)} {tokens : List Token} {text : List Char}
    (adds : AddsCommas words more) (spaced : Spaced IsBlanks IsBlanks more text)
    (looks : List.Forall₂ Token.Looks tokens words) (joined : tokens.IsChain Token.Joins)
    (plain : ∀ word ∈ words, ¬ HoldsTrailing word) :
    Spaced IsBlanks IsBlanks words (Json.withoutTrailingCommas text) := by
  induction adds generalizing text tokens with
  | nil =>
    obtain ⟨here⟩ | _ := spaced
    have whole := withoutTrailingCommas_blanks here []
    rw [withoutTrailingCommas_nil, List.append_nil] at whole
    rw [whole]
    exact .ends here
  | @keep word words more others inductionHypothesis =>
    obtain _ | ⟨here, spacedLater⟩ := spaced
    obtain _ | ⟨first, looksLater⟩ := looks
    obtain ⟨joins, joinedLater⟩ := List.isChain_cons.mp joined
    obtain ⟨plainHere, plainLater⟩ := List.forall_mem_cons.mp plain
    have later := inductionHypothesis spacedLater looksLater joinedLater plainLater
    rw [withoutTrailingCommas_blanks here, first.withoutTrailingCommas_append plainHere]
    · exact .word here later
    -- behind a comma of the document no container ends, and an added comma does not end one either
    · rintro rfl ⟨blanks, bracket, back, same, blank, closing⟩
      have notBlank := isBlank_of_isClosing closing
      have whole := (List.cons.inj same).2
      cases others with
      | nil =>
        obtain ⟨isBlanks⟩ | _ := spacedLater
        have spacing := isBlank_of_isSpacing (isBlanks bracket (by rw [whole]; simp))
        rw [notBlank] at spacing
        cases spacing
      | keep next _ =>
        obtain _ | ⟨nextLooks, _⟩ := looksLater
        obtain ⟨c, more, rfl, least, most, -⟩ := nextLooks.head
        obtain rfl := spacedLater.first_eq (isBlank_of_visible least most) whole blank notBlank
        obtain ⟨noArray, noObject⟩ := (joins _ rfl).opens rfl
        exact (nextLooks.closes closing).elim noArray noObject
      | comma _ _ =>
        obtain rfl := spacedLater.first_eq (by decide) whole blank notBlank
        cases closing
  | @comma bracket closing words more others inductionHypothesis =>
    obtain _ | ⟨before, spacedComma⟩ := spaced
    obtain _ | ⟨between, spacedLater⟩ := spacedComma
    rename_i front gap text
    obtain _ | ⟨first, looksLater⟩ := looks
    obtain ⟨-, joinedLater⟩ := List.isChain_cons.mp joined
    obtain ⟨-, plainLater⟩ := List.forall_mem_cons.mp plain
    have later := inductionHypothesis spacedLater looksLater joinedLater plainLater
    have noComma : ',' ∉ [bracket] := by
      rw [List.mem_singleton]
      rintro rfl
      cases closing
    have taken : Json.withoutTrailingCommas (front ++ ([','] ++ (gap ++ ([bracket] ++ text)))) =
        (front ++ gap) ++ ([bracket] ++ Json.withoutTrailingCommas text) := by
      rw [withoutTrailingCommas_blanks before, List.singleton_append, List.singleton_append,
        withoutTrailingCommas_trailing between closing, List.append_assoc]
      exact congrArg (fun rest => front ++ (gap ++ rest)) (withoutTrailingCommas_plain noComma text)
    rw [taken]
    exact .word (List.forall_mem_append.mpr ⟨before, between⟩) later

/-- The commas that are added are words, too. -/
theorem AddsCommas.looks {words more : List (List Char)} {tokens : List Token} (adds : AddsCommas words more)
    (looks : List.Forall₂ Token.Looks tokens words) :
    ∃ others, List.Forall₂ Token.Looks others more := by
  induction adds generalizing tokens with
  | nil => exact ⟨[], .nil⟩
  | keep word _ inductionHypothesis =>
    obtain _ | ⟨first, later⟩ := looks
    obtain ⟨others, rest⟩ := inductionHypothesis later
    exact ⟨_, .cons first rest⟩
  | comma closing _ inductionHypothesis =>
    obtain _ | ⟨first, later⟩ := looks
    obtain ⟨others, rest⟩ := inductionHypothesis later
    exact ⟨_, .cons (.mark rfl rfl (by decide) fun _ => rfl) (.cons first rest)⟩

/-- A text is a document with these words that is decorated: between the words stand blanks and comments, and
commas are put in front of closing brackets. -/
def IsDecorated (words : List (List Char)) (text : String) : Prop :=
  ∃ more, AddsCommas words more ∧ Spaced IsGap IsLastGap more text.toList

/-- A document is not blank. -/
theorem Spaced.exists_visible {token : Token} {tokens : List Token} {words : List (List Char)} {text : List Char}
    (spaced : Spaced IsBlanks IsBlanks words text) (looks : List.Forall₂ Token.Looks (token :: tokens) words) :
    ¬ text.all Text.isBlank := by
  obtain _ | ⟨first, _⟩ := looks
  obtain _ | ⟨_, _⟩ := spaced
  obtain ⟨c, more, rfl, least, most, -⟩ := first.head
  intro blank
  have visible := isBlank_of_visible least most
  rw [List.all_eq_true.mp blank c (by simp)] at visible
  cases visible

/-- Comments and trailing commas make no difference: a document that is decorated with them is read as JSON with
comments as it is read as plain JSON without them, be it to its value or to the limit that it exceeds. Whatever the
comments hold is passed over, and slashes within quotes stay; only a comma in front of a closing bracket must not
stand within quotes. Every text that is read as plain JSON is such a document. -/
theorem readCommented_decorated (plain : String) :
    (∀ value, read plain = .ok value → ∃ words, IsDocument words plain) ∧
      ∀ words, IsDocument words plain → (∀ word ∈ words, ¬ HoldsTrailing word) →
        ∀ decorated, IsDecorated words decorated → readCommented decorated = read plain := by
  refine ⟨fun _ told => exists_document_of_read told, fun words document quotes decorated decoration => ?_⟩
  obtain ⟨spaced, tokens, spelled, phrase⟩ := document
  obtain ⟨more, adds, spacedMore⟩ := decoration
  have looks := looks_of_spelled spelled phrase.isReal
  obtain ⟨first, last, joined, -⟩ := phrase.joined
  obtain ⟨_, looksMore⟩ := adds.looks looks
  have bare := adds.withoutTrailingCommas (spacedMore.withoutComments looksMore) looks joined.chain quotes
  have visible : ¬ (withoutTrailingCommas (withoutComments decorated.toList)).all Text.isBlank := by
    obtain ⟨rest, rfl⟩ : ∃ rest, tokens = first :: rest := List.head?_eq_some_iff.mp joined.head
    exact bare.exists_visible looks
  unfold readCommented
  dsimp only
  rw [if_neg visible, read_of_spaced spaced spelled phrase]
  rw [← String.toList_ofList (l := withoutTrailingCommas (withoutComments decorated.toList))] at bare
  exact read_of_spaced bare spelled phrase

/-- The words of an array with a text that looks like the start of a comment. -/
def slashedWords : List (List Char) := ["[".toList, "\"/*\"".toList, ",".toList, "1".toList, "]".toList]

/-- An array with a comment full of brackets and quotes, with a comment between a trailing comma and its bracket and
with an unfinished line at the end. -/
theorem readCommented_decorated_of_slashed :
    IsDocument slashedWords "[\"/*\", 1]" ∧
      IsDecorated slashedWords "[\"/*\"/*\",]*/, 1 ,// ]\"\n]//" ∧
      readCommented "[\"/*\"/*\",]*/, 1 ,// ]\"\n]//" = .ok (.arr [.ofString "/*", .int 1]) := by
  have spaced : Spaced IsBlanks IsBlanks slashedWords "[\"/*\", 1]".toList := by
    rw [show "[\"/*\", 1]".toList = "".toList ++ ("[".toList ++ ("".toList ++ ("\"/*\"".toList ++
      ("".toList ++ (",".toList ++ (" ".toList ++ ("1".toList ++ ("".toList ++ ("]".toList ++ [])))))))))
      by decide +kernel]
    refine .word ?_ (.word ?_ (.word ?_ (.word ?_ (.word ?_ (.ends ?_))))) <;> simp [IsBlanks, isSpacing]
  have document : IsDocument slashedWords "[\"/*\", 1]" :=
    ⟨spaced, [.openArray, .text (Text.Units.ofString "/*"), .comma, .scalar (.int 1), .closeArray],
      .cons rfl (.cons rfl (.cons rfl (.cons rfl (.cons rfl .nil)))),
      .array (.item (.text _) (.lastItem (.scalar _)))⟩
  have decoration : IsDecorated slashedWords "[\"/*\"/*\",]*/, 1 ,// ]\"\n]//" := by
    refine ⟨_, .keep _ (.keep _ (.keep _ (.keep _ (@AddsCommas.comma ']' rfl _ _ .nil)))), ?_⟩
    rw [show "[\"/*\"/*\",]*/, 1 ,// ]\"\n]//".toList = "".toList ++ ("[".toList ++ ("".toList ++
      ("\"/*\"".toList ++ ("/*\",]*/".toList ++ (",".toList ++ (" ".toList ++ ("1".toList ++ (" ".toList ++
      (",".toList ++ ("// ]\"\n".toList ++ ("]".toList ++ "//".toList))))))))))) by decide +kernel]
    refine .word .nil (.word .nil (.word ?_ (.word ?_ (.word ?_ (.word ?_ (.ends ?_))))))
    · exact @IsGap.block "\",]".toList [] (by decide) .nil
    · exact .blank rfl .nil
    · exact .blank rfl .nil
    · exact @IsGap.line " ]\"".toList [] (by decide) .nil
    · exact @IsLastGap.line [] [] .nil (by decide)
  have same := (readCommented_decorated "[\"/*\", 1]").2 slashedWords document (by decide +kernel) _ decoration
  exact ⟨document, decoration, same.trans rfl⟩

end TreeBuild.Json
