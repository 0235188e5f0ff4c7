import TreeBuild.Proofs.Json.Numerals
import TreeBuild.Proofs.Json.Printed

/-!
# Printed values are read again

The reader takes containers up to a certain depth and whole numbers up to a certain length. What it has read
keeps within these bounds, and so does what is stored in it by name. It is written in one way only, too: a number
is as rounding leaves it, and an object has a name once. A value within the bounds that is written in one way only
is read again as it is when it has been printed.
-/
namespace TreeBuild.Json

/-! ### What the reader takes -/

/-- A value in which containers lie in each other at most this deep, and in which no whole number has too many
digits. -/
inductive IsLegible : Nat → Json → Prop where
  | null (room : Nat) : IsLegible room .null
  | bool (room : Nat) (truth : Bool) : IsLegible room (.bool truth)
  | int {number : Int} (room : Nat) (few : (Nat.toDigits 10 number.natAbs).length ≤ maxDigits) :
      IsLegible room (.int number)
  | float (room : Nat) (number : Number.Binary64) : IsLegible room (.float number)
  | str (room : Nat) (units : Text.Units) : IsLegible room (.str units)
  | arr {room : Nat} {items : List Json} (inside : ∀ item ∈ items, IsLegible room item) :
      IsLegible (room + 1) (.arr items)
  | obj {room : Nat} {fields : Fields} (inside : ∀ item ∈ fields.map Prod.snd, IsLegible room item) :
      IsLegible (room + 1) (.obj fields)

/-- A value that is written in one way only: each number in it is as rounding leaves it, and the names in each
object differ from each other. -/
inductive IsCanonical : Json → Prop where
  | null : IsCanonical .null
  | bool (truth : Bool) : IsCanonical (.bool truth)
  | int (number : Int) : IsCanonical (.int number)
  | float {number : Number.Binary64} (rounded : number.IsRounded) : IsCanonical (.float number)
  | str (units : Text.Units) : IsCanonical (.str units)
  | arr {items : List Json} (inside : ∀ item ∈ items, IsCanonical item) : IsCanonical (.arr items)
  | obj {fields : Fields} (distinct : fields.IsDistinct) (inside : ∀ item ∈ fields.map Prod.snd, IsCanonical item) :
      IsCanonical (.obj fields)

/-- The values in a container that is open. -/
def Frame.members : Frame → List Json
  | .array before => before
  | .object before | .named before _ => before.map Prod.snd

/-- What lies in the containers that are open is legible there. -/
def IsLegibleWithin : List Frame → Prop
  | [] => True
  | frame :: outer => outer.length < maxDepth ∧
      (∀ member ∈ frame.members, IsLegible (maxDepth - (outer.length + 1)) member) ∧ IsLegibleWithin outer

/-- What a reader has read is legible where it lies. -/
structure State.IsLegible (state : State) : Prop where
  frames : IsLegibleWithin state.frames
  after : ∀ value, state.expecting = .after value → Json.IsLegible (maxDepth - state.frames.length) value

/-- Storing a legible value keeps an object legible. -/
theorem IsLegible.put {room : Nat} {fields : Fields} (legible : IsLegible (room + 1) (.obj fields))
    (name : Text.Units) {value : Json} (stored : IsLegible room value) :
    IsLegible (room + 1) (.obj (fields.put name value)) := by
  cases legible with
  | obj inside => exact .obj fun item member => (Fields.mem_values_put member).elim (· ▸ stored) (inside item)

/-- A step keeps what has been read legible. -/
theorem State.IsLegible.advance {state next : State} {token : Token}
    (scalar : ∀ value, token = .scalar value → ∀ room, Json.IsLegible room value)
    (advances : Advances state token next) (legible : state.IsLegible) : next.IsLegible := by
  have inside := legible.frames
  have room {outer : List Frame} (shallow : outer.length < maxDepth) :
      maxDepth - outer.length = (maxDepth - (outer.length + 1)) + 1 := by omega
  cases advances with
  | openArray _ hasRoom => exact ⟨⟨of_decide_eq_true hasRoom, by simp [Frame.members], inside⟩, nofun⟩
  | openObject _ hasRoom => exact ⟨⟨of_decide_eq_true hasRoom, by simp [Frame.members], inside⟩, nofun⟩
  | text _ units => exact ⟨inside, by rintro _ ⟨⟩; exact .str _ units⟩
  | scalar _ value => exact ⟨inside, by rintro _ ⟨⟩; exact scalar value rfl _⟩
  | name => exact ⟨inside, nofun⟩
  | colon => exact ⟨inside, nofun⟩
  | nextItem value before outer =>
    obtain ⟨shallow, members, outside⟩ := inside
    exact ⟨⟨shallow, List.forall_mem_cons.mpr ⟨legible.after value rfl, members⟩, outside⟩, nofun⟩
  | nextField value before name outer =>
    obtain ⟨shallow, members, outside⟩ := inside
    refine ⟨⟨shallow, fun member stored => ?_, outside⟩, nofun⟩
    exact (Fields.mem_values_put stored).elim (· ▸ legible.after value rfl) (members member)
  | emptyArray before outer =>
    obtain ⟨shallow, -, outside⟩ := inside
    refine ⟨outside, ?_⟩
    rintro _ ⟨⟩
    rw [room shallow]
    exact .arr nofun
  | emptyObject before outer =>
    obtain ⟨shallow, -, outside⟩ := inside
    refine ⟨outside, ?_⟩
    rintro _ ⟨⟩
    rw [room shallow]
    exact .obj nofun
  | closeArray value before outer =>
    obtain ⟨shallow, members, outside⟩ := inside
    refine ⟨outside, ?_⟩
    rintro _ ⟨⟩
    rw [room shallow]
    refine .arr fun item member => ?_
    exact (List.mem_cons.mp (List.mem_reverse.mp member)).elim (· ▸ legible.after value rfl) (members item)
  | closeObject value before name outer =>
    obtain ⟨shallow, members, outside⟩ := inside
    refine ⟨outside, ?_⟩
    rintro _ ⟨⟩
    rw [room shallow]
    exact (IsLegible.obj members).put name (legible.after value rfl)

/-- What a reader has read is canonical. -/
structure State.IsCanonical (state : State) : Prop where
  distinct : state.IsDistinct
  frames : ∀ frame ∈ state.frames, ∀ member ∈ frame.members, Json.IsCanonical member
  after : ∀ value, state.expecting = .after value → Json.IsCanonical value

/-- Storing a canonical value keeps an object canonical. -/
theorem IsCanonical.put {fields : Fields} (canonical : IsCanonical (.obj fields)) (name : Text.Units) {value : Json}
    (stored : IsCanonical value) : IsCanonical (.obj (fields.put name value)) := by
  cases canonical with
  | obj distinct inside =>
    exact .obj (distinct.put name value) fun item member =>
      (Fields.mem_values_put member).elim (· ▸ stored) (inside item)

/-- A step keeps what has been read canonical. -/
theorem State.IsCanonical.advance {state next : State} {token : Token}
    (scalar : ∀ value, token = .scalar value → value.isWord ∧ Json.IsCanonical value)
    (advances : Advances state token next) (canonical : state.IsCanonical) : next.IsCanonical := by
  have distinct := canonical.distinct.advance (fun value same => (scalar value same).1) advances
  have inside := canonical.frames
  cases advances with
  | openArray | openObject => exact ⟨distinct, List.forall_mem_cons.mpr ⟨by simp [Frame.members], inside⟩, nofun⟩
  | text _ units => exact ⟨distinct, inside, by rintro _ ⟨⟩; exact .str units⟩
  | scalar _ value => exact ⟨distinct, inside, by rintro _ ⟨⟩; exact (scalar value rfl).2⟩
  | name => exact ⟨distinct, inside, nofun⟩
  | colon => exact ⟨distinct, List.forall_mem_cons.mpr (List.forall_mem_cons.mp inside), nofun⟩
  | nextItem value =>
    obtain ⟨members, outside⟩ := List.forall_mem_cons.mp inside
    exact ⟨distinct, List.forall_mem_cons.mpr
      ⟨List.forall_mem_cons.mpr ⟨canonical.after value rfl, members⟩, outside⟩, nofun⟩
  | nextField value =>
    obtain ⟨members, outside⟩ := List.forall_mem_cons.mp inside
    exact ⟨distinct, List.forall_mem_cons.mpr ⟨fun member stored =>
      (Fields.mem_values_put stored).elim (· ▸ canonical.after value rfl) (members member), outside⟩, nofun⟩
  | emptyArray => exact ⟨distinct, (List.forall_mem_cons.mp inside).2, by rintro _ ⟨⟩; exact .arr nofun⟩
  | emptyObject =>
    exact ⟨distinct, (List.forall_mem_cons.mp inside).2, by rintro _ ⟨⟩; exact .obj List.nodup_nil nofun⟩
  | closeArray value =>
    obtain ⟨members, outside⟩ := List.forall_mem_cons.mp inside
    refine ⟨distinct, outside, ?_⟩
    rintro _ ⟨⟩
    exact .arr fun item member =>
      (List.mem_cons.mp (List.mem_reverse.mp member)).elim (· ▸ canonical.after value rfl) (members item)
  | closeObject value before name =>
    obtain ⟨members, outside⟩ := List.forall_mem_cons.mp inside
    refine ⟨distinct, outside, ?_⟩
    rintro _ ⟨⟩
    have names : before.IsDistinct := (List.forall_mem_cons.mp canonical.distinct.frames).1
    exact (IsCanonical.obj names members).put name (canonical.after value rfl)

/-- A number that is read is legible and canonical. -/
theorem sound_of_numberFrom {negative : Bool} {text rest : List Char} {value : Json}
    (number : numberFrom negative text = some (.scalar value, rest)) :
    (∀ room, IsLegible room value) ∧ IsCanonical value := by
  unfold numberFrom at number
  split at number
  · cases number
  · rename_i whole behind nonempty found
    have digits : ∀ c ∈ whole, c.isDigit := by
      have part : (wholePart text).1 = whole := by rw [found]
      rw [← part]
      unfold wholePart
      split
      · simp
      · exact List.all_eq_true.mp List.all_takeWhile
    dsimp only at number
    split at number
    · split at number
      · cases number
      · rename_i few
        cases number
        refine ⟨fun room => .int room ?_, .int _⟩
        have magnitude : (if negative then -(ofDigitRun whole : Int) else ofDigitRun whole).natAbs =
            ofDigitRun whole := by
          split <;> simp
        rw [magnitude]
        have length := (Nat.length_toDigits_le_iff (by decide)
          (List.length_pos_iff.mpr fun empty => nonempty empty)).mpr (ofDigitRun_lt digits)
        omega
    · cases number
      exact ⟨fun room => .float room _, .float (Number.Binary64.isRounded_ofDecimal _ _ _)⟩

/-- A word or a number that is read is legible and canonical. -/
theorem sound_of_tokenAt {text : List Char} {value : Json} (scalar : (tokenAt text).1 = .scalar value) :
    (∀ room, IsLegible room value) ∧ IsCanonical value := by
  unfold tokenAt at scalar
  split at scalar
  case h_7 => split at scalar <;> cases scalar
  case h_8 =>
    split at scalar
    · rename_i name found met
      cases scalar
      have member := List.mem_of_find?_eq_some met
      simp only [words, List.mem_cons, Prod.mk.injEq, List.not_mem_nil, or_false] at member
      rcases member with ⟨-, rfl⟩ | ⟨-, rfl⟩ | ⟨-, rfl⟩ | ⟨-, rfl⟩ | ⟨-, rfl⟩ | ⟨-, rfl⟩
      · exact ⟨.null, .null⟩
      · exact ⟨(.bool · _), .bool _⟩
      · exact ⟨(.bool · _), .bool _⟩
      all_goals exact ⟨(.float · _), .float trivial⟩
    · split at scalar
      split at scalar
      · rename_i number
        cases scalar
        exact sound_of_numberFrom number
      · cases scalar
  all_goals cases scalar

/-- What has been read is legible. -/
theorem isLegible_of_read {text : String} {value : Json} (told : read text = .ok value) :
    IsLegible maxDepth value :=
  have ended := kept_of_read (fun scalar => (sound_of_tokenAt scalar).1) State.IsLegible.advance ⟨trivial, nofun⟩ told
  ended.after value rfl

/-- What has been read is canonical. -/
theorem isCanonical_of_read {text : String} {value : Json} (told : read text = .ok value) : IsCanonical value :=
  have ended := kept_of_read (fun scalar => ⟨isWord_of_tokenAt scalar, (sound_of_tokenAt scalar).2⟩)
    State.IsCanonical.advance ⟨⟨by simp, nofun⟩, by simp, nofun⟩ told
  ended.after value rfl

/-! ### Going on -/

/-- A lexeme behind which reading goes on is sound. -/
theorem Advances.isSound {state next : State} {token : Token} (advances : Advances state token next) :
    token.isSound := by
  cases advances <;> rfl

/-- A reader goes on by each of these steps. -/
theorem Advances.step {state next : State} {token : Token} (advances : Advances state token next)
    (offset : Nat) : Json.step state ⟨token, offset⟩ = .ok next := by
  have atValue {expecting : Expecting} {frames : List Frame} {token : Token} {next : State}
      (expects : expecting = .value ∨ expecting = .itemOrEnd) (inside : token ≠ .closeArray)
      (taken : stepValue frames ⟨token, offset⟩ = .ok next) :
      Json.step ⟨expecting, frames⟩ ⟨token, offset⟩ = .ok next := by
    rcases expects with rfl | rfl
    · exact taken
    · rcases frames with _ | ⟨_ | _ | _, outer⟩ <;> cases token <;> first | exact taken | exact absurd rfl inside
  cases advances with
  | openArray expects room => exact atValue expects nofun (if_pos room)
  | openObject expects room => exact atValue expects nofun (if_pos room)
  | text expects units => exact atValue expects nofun rfl
  | scalar expects value => exact atValue expects nofun rfl
  | @name expecting frames expects units =>
    rcases expects with rfl | rfl
    · rfl
    · rcases frames with _ | ⟨_ | _ | _, outer⟩ <;> rfl
  | _ => rfl

/-- Whether a text is read does not depend on where it begins. -/
theorem Reads.anywhere {state : State} {text : List Char} {value : Json} (reads : Reads state text value)
    (length offset : Nat) : readFrom length state (lexemesFrom offset 0 text) = .ok value := by
  have tokens (text : List Char) (skip offset other : Nat) :
      (lexemesFrom offset skip text).map Lexeme.token = (lexemesFrom other skip text).map Lexeme.token := by
    induction text generalizing skip offset other with
    | nil => simp [lexemesFrom]
    | cons c rest inductionHypothesis =>
      cases skip with
      | succ skip => exact inductionHypothesis _ _ _
      | zero =>
        rw [lexemesFrom, lexemesFrom]
        split
        · exact inductionHypothesis _ _ _
        · dsimp only
          split
          · rw [List.map_cons, List.map_cons, inductionHypothesis _ _ (other + 1)]
          · rfl
  have same (lexemes others : List Lexeme) (state : State) (length more : Nat)
      (equal : lexemes.map Lexeme.token = others.map Lexeme.token)
      (read : readFrom length state lexemes = .ok value) : readFrom more state others = .ok value := by
    induction lexemes generalizing others state with
    | nil =>
      obtain rfl : others = [] := List.map_eq_nil_iff.mp equal.symm
      obtain ⟨expecting, frames⟩ := state
      rw [readFrom] at read ⊢
      cases expecting <;> cases frames <;> cases read
      rfl
    | cons lexeme rest inductionHypothesis =>
      obtain ⟨other, others, rfl⟩ := List.exists_cons_of_ne_nil (l := others) (by rintro rfl; cases equal)
      obtain ⟨first, further⟩ := List.cons.inj equal
      rw [readFrom] at read ⊢
      split at read
      · rename_i next stepped
        have again := (advances_of_step stepped).step other.offset
        rw [first] at again
        rw [again]
        exact inductionHypothesis others next further read
      · cases read
  obtain ⟨length, offset, read⟩ := reads
  exact same _ _ _ _ _ (tokens text 0 _ _) read

/-- From a state on, the front of a text is read, which leads to another state and leaves the rest of the
text. -/
def Passes (state : State) (text : List Char) (next : State) (rest : List Char) : Prop :=
  ∀ value, Reads next rest value → Reads state text value

namespace Passes

variable {state middle next : State} {text between rest : List Char}

/-- Two parts of a text are passed one after the other. -/
theorem trans (first : Passes state text middle between) (second : Passes middle between next rest) :
    Passes state text next rest :=
  fun value reads => first value (second value reads)

/-- Blanks are passed over. -/
theorem skip {blanks : List Char} (spacing : ∀ c ∈ blanks, isSpacing c) :
    Passes state (blanks ++ text) state text := by
  induction blanks with
  | nil => exact fun _ reads => reads
  | cons c others inductionHypothesis =>
    obtain ⟨first, further⟩ := List.forall_mem_cons.mp spacing
    intro value reads
    refine ⟨0, 0, ?_⟩
    rw [List.cons_append, lexemesFrom, if_pos first]
    exact (inductionHypothesis further value reads).anywhere 0 _

/-- A lexeme that fits is read. -/
theorem take {front : List Char} {token : Token} (nonempty : front ≠ [])
    (visible : ∀ c ∈ front.head?, isSpacing c = false)
    (here : tokenAt (front ++ rest) = (token, front.length)) (advances : Advances state token next) :
    Passes state (front ++ rest) next rest := by
  intro value reads
  refine ⟨0, 0, ?_⟩
  rw [lexemesFrom_append 0 nonempty visible here, if_pos advances.isSound, readFrom, advances.step]
  exact reads.anywhere 0 _

/-- A bracket, a comma or a colon that fits is read. -/
theorem mark {c : Char} {token : Token} (visible : isSpacing c = false)
    (here : tokenAt (c :: rest) = (token, 1)) (advances : Advances state token next) :
    Passes state (c :: rest) next rest :=
  @take _ _ _ [c] _ (List.cons_ne_nil _ _) (by rintro _ ⟨⟩; exact visible) here advances

/-- A quoted text is read where it fits. -/
theorem quoted {units : Text.Units} (advances : Advances state (.text units) next) :
    Passes state (writeText units ++ rest) next rest := by
  obtain ⟨front, written, here⟩ := writeText_front units rest
  rw [written]
  exact take (List.cons_ne_nil _ _) (by rintro _ ⟨⟩; decide) here advances

end Passes

/-- A number that has been printed is one lexeme, which stands for the number. -/
theorem tokenAt_float {number : Number.Binary64} (rounded : number.IsRounded) {rest : List Char}
    (ends : EndsWord rest) : tokenAt (writeScalar (.float number) ++ rest) =
      (.scalar (.float number), (writeScalar (.float number)).length) := by
  cases number with
  | nan => rfl
  | infinity negative => cases negative <;> rfl
  | finite negative significand exponent =>
    obtain ⟨body, same⟩ : ∃ body, body = if significand = 0 then "0.0" else Number.plainNumerals.numeral
      (Number.Decimal.shortest significand exponent) := ⟨_, rfl⟩
    have sign : writeScalar (.float (.finite negative significand exponent)) =
        (if negative then ['-'] else []) ++ body.toList := by
      change (Number.Binary64.text _ _).toList = _
      rw [Number.Binary64.text, String.toList_append, same]
      cases negative <;> rfl
    obtain ⟨decimal, numeral, value⟩ : ∃ decimal : Number.Decimal, IsNumeral body.toList decimal ∧
        Number.Binary64.ofDecimal negative decimal.digits decimal.power = .finite negative significand exponent := by
      by_cases zero : significand = 0
      · rw [if_pos zero] at same
        subst same zero
        have least : exponent = Number.Binary64.minExponent := rounded.full.resolve_right (by decide)
        subst least
        exact ⟨⟨0, 0⟩, ⟨['0'], ['.', '0'], [], rfl, ⟨by simp, by simp, .inl rfl⟩,
          .inr ⟨['0'], by simp, by simp, rfl⟩, .inl rfl, nofun, fun _ => rfl⟩, rfl⟩
      · rw [if_neg zero] at same
        subst same
        exact ⟨_, isNumeral_numeral _ (Number.Decimal.shortest_ne_zero rounded zero),
          Number.Decimal.ofDecimal_shortest rounded zero negative⟩
    obtain ⟨whole, fraction, power, parts, isWhole, isFraction, isExponent, some, stands⟩ := numeral
    have read := numberFrom_append negative isWhole isFraction isExponent
      (fun noFraction noPower => absurd ⟨noFraction, noPower⟩ some) ends
    rw [numeralValue, if_neg some, stands, value] at read
    obtain ⟨c, others, first⟩ := List.exists_cons_of_ne_nil isWhole.nonempty
    have begins : body.toList = c :: (others ++ (fraction ++ power)) := by
      rw [parts, first]
      rfl
    rw [sign]
    refine tokenAt_numeral negative begins (isWhole.digits c (first ▸ List.mem_cons_self)) ?_
    simpa [parts] using read

/-- A word or a number that has been printed is one lexeme, which stands for the word or the number. -/
theorem IsLegible.tokenAt_scalar {room : Nat} {printed : Json} (legible : IsLegible room printed)
    (canonical : IsCanonical printed) (isWord : printed.isWord) {rest : List Char} (ends : EndsWord rest) :
    tokenAt (writeScalar printed ++ rest) = (.scalar printed, (writeScalar printed).length) := by
  cases legible with
  | null => rfl
  | bool _ truth => cases truth <;> rfl
  | @int number _ few =>
    have sign : writeScalar (.int number) =
        (if decide (number < 0) then ['-'] else []) ++ Nat.toDigits 10 number.natAbs := by
      change number.repr.toList = _
      rw [Int.repr_eq_if]
      split
      · rename_i positive
        rw [Nat.toList_repr, if_neg (by simpa using positive)]
        rw [show number.toNat = number.natAbs by omega]
        rfl
      · rename_i negative
        rw [String.toList_append, Nat.toList_repr, if_pos (by simpa using negative)]
        rw [show (-number).toNat = number.natAbs by omega]
        rfl
    have whole := isWhole_toDigits number.natAbs
    have value : numeralValue (decide (number < 0)) (Nat.toDigits 10 number.natAbs) [] [] = .int number := by
      rw [numeralValue, if_pos ⟨rfl, rfl⟩, ofDigitRun_toDigits]
      simp only [decide_eq_true_eq]
      congr 1
      split <;> omega
    have read := numberFrom_append (decide (number < 0)) whole (.inl rfl) (.inl rfl) (fun _ _ => few) ends
    rw [value] at read
    obtain ⟨c, others, first⟩ := List.exists_cons_of_ne_nil whole.nonempty
    rw [sign]
    exact tokenAt_numeral _ first (whole.digits c (first ▸ List.mem_cons_self)) read
  | float _ number =>
    cases canonical with
    | float rounded => exact tokenAt_float rounded ends
  | str | arr | obj => cases isWord

section

variable {frames : List Frame} {rest : List Char} {expecting : Expecting} {room : Nat}

/-- A word or a number that has been printed is read where a value is expected. -/
theorem IsLegible.passes_scalar {printed : Json} (legible : IsLegible room printed) (canonical : IsCanonical printed)
    (isWord : printed.isWord) (expects : expecting = .value ∨ expecting = .itemOrEnd) (ends : EndsWord rest) :
    Passes ⟨expecting, frames⟩ (writeScalar printed ++ rest) ⟨.after printed, frames⟩ rest := by
  obtain ⟨nonempty, letters⟩ := isWordChar_writeScalar isWord
  refine .take nonempty (fun c first => ?_) (legible.tokenAt_scalar canonical isWord ends) (.scalar expects printed)
  exact isSpacing_of_isWordChar (letters c (List.mem_of_mem_head? first))

/-- There is room for one more container. -/
theorem hasRoom_of_le (bounded : frames.length + (room + 1) ≤ maxDepth) : hasRoom frames :=
  decide_eq_true (by omega)

/-- The name of a field is read with the colon behind it. -/
theorem Passes.field {before : Fields} (expects : expecting = .name ∨ expecting = .nameOrEnd) (name : Text.Units) :
    Passes ⟨expecting, .object before :: frames⟩ (writeText name ++ ':' :: ' ' :: rest)
      ⟨.value, .named before name :: frames⟩ rest :=
  (Passes.quoted (.name expects name)).trans
    ((Passes.mark (by decide) rfl (.colon name before frames)).trans (@Passes.skip _ rest [' '] (by decide)))

/-- Where names differ from each other, the name of a field is none of those before it. -/
theorem Fields.IsDistinct.fresh {before after : Fields} {name : Text.Units} {value : Json}
    (distinct : Fields.IsDistinct (before ++ (name, value) :: after)) : name ∉ before.map Prod.fst := by
  intro member
  rw [IsDistinct, List.map_append, List.nodup_append] at distinct
  exact distinct.2.2 name member name List.mem_cons_self rfl

mutual

/-- A legible and canonical value that has been printed is read where a value is expected. -/
theorem IsLegible.passes (depth : Nat) : ∀ (printed : Json) (frames : List Frame) (rest : List Char) {room : Nat}
    {expecting : Expecting}, IsLegible room printed → IsCanonical printed → frames.length + room ≤ maxDepth →
    (expecting = .value ∨ expecting = .itemOrEnd) → EndsWord rest →
    Passes ⟨expecting, frames⟩ (writeIndented depth printed rest) ⟨.after printed, frames⟩ rest
  | .null, _, _, _, _, legible, canonical, _, expects, ends
  | .bool _, _, _, _, _, legible, canonical, _, expects, ends
  | .int _, _, _, _, _, legible, canonical, _, expects, ends
  | .float _, _, _, _, _, legible, canonical, _, expects, ends => legible.passes_scalar canonical rfl expects ends
  | .str units, _, _, _, _, _, _, _, expects, _ => .quoted (.text expects units)
  | .arr [], frames, _, _, _, .arr _, _, bounded, expects, _ =>
    (Passes.mark (by decide) rfl (.openArray expects (hasRoom_of_le bounded))).trans
      (.mark (by decide) rfl (.emptyArray [] frames))
  | .arr (item :: others), frames, rest, _, _, .arr inside, .arr same, bounded, expects, _ => by
    obtain ⟨first, further⟩ := List.forall_mem_cons.mp inside
    obtain ⟨firstSame, furtherSame⟩ := List.forall_mem_cons.mp same
    rw [writeIndented, writeIndentedItems]
    have begun := IsLegible.passes (depth + 1) item (.array [] :: frames) _ first firstSame
      (by simp only [List.length_cons]; omega) (.inr rfl) (endsWord_items depth others (']' :: rest))
    have ended := IsLegible.passes_items depth others item [] frames rest further furtherSame (by omega)
    exact (Passes.mark (by decide) rfl (.openArray expects (hasRoom_of_le bounded))).trans
      ((Passes.skip fun _ => isSpacing_newline).trans (begun.trans ended))
  | .obj [], frames, _, _, _, .obj _, _, bounded, expects, _ =>
    (Passes.mark (by decide) rfl (.openObject expects (hasRoom_of_le bounded))).trans
      (.mark (by decide) rfl (.emptyObject [] frames))
  | .obj ((name, item) :: others), frames, rest, _, _, .obj inside, .obj distinct same, bounded, expects, _ => by
    obtain ⟨first, further⟩ := List.forall_mem_cons.mp inside
    obtain ⟨firstSame, furtherSame⟩ := List.forall_mem_cons.mp same
    rw [writeIndented, writeIndentedFields, List.append_assoc]
    have begun := IsLegible.passes (depth + 1) item (.named [] name :: frames) _ first firstSame
      (by simp only [List.length_cons]; omega) (.inl rfl) (endsWord_fields depth others ('\x7d' :: rest))
    have ended := IsLegible.passes_fields depth others item [] name frames rest further furtherSame distinct (by omega)
    exact (Passes.mark (by decide) rfl (.openObject expects (hasRoom_of_le bounded))).trans
      ((Passes.skip fun _ => isSpacing_newline).trans ((Passes.field (.inr rfl) name).trans (begun.trans ended)))

/-- The items of an array that are printed behind others are read. -/
theorem IsLegible.passes_items (depth : Nat) : ∀ (items : List Json) (last : Json) (before : List Json)
    (frames : List Frame) (rest : List Char) {room : Nat}, (∀ item ∈ items, IsLegible room item) →
    (∀ item ∈ items, IsCanonical item) → frames.length + (room + 1) ≤ maxDepth →
    Passes ⟨.after last, .array before :: frames⟩
      (writeIndentedItems false (depth + 1) items (newline depth ++ ']' :: rest))
      ⟨.after (.arr (before.reverse ++ last :: items)), frames⟩ rest
  | [], last, before, frames, _, _, _, _, _ => by
    rw [writeIndentedItems, ← List.reverse_cons]
    exact (Passes.skip fun _ => isSpacing_newline).trans (.mark (by decide) rfl (.closeArray last before frames))
  | item :: others, last, before, frames, rest, _, inside, same, bounded => by
    obtain ⟨first, further⟩ := List.forall_mem_cons.mp inside
    obtain ⟨firstSame, furtherSame⟩ := List.forall_mem_cons.mp same
    rw [writeIndentedItems]
    have begun := IsLegible.passes (depth + 1) item (.array (last :: before) :: frames) _ first firstSame
      (by simp only [List.length_cons]; omega) (.inl rfl) (endsWord_items depth others (']' :: rest))
    have ended := IsLegible.passes_items depth others item (last :: before) frames rest further furtherSame bounded
    rw [List.reverse_cons, List.append_assoc, List.singleton_append] at ended
    exact (Passes.mark (by decide) rfl (.nextItem last before frames)).trans
      ((Passes.skip fun _ => isSpacing_newline).trans (begun.trans ended))

/-- The fields of an object that are printed behind others are read. -/
theorem IsLegible.passes_fields (depth : Nat) : ∀ (fields : Fields) (last : Json) (before : Fields)
    (lastName : Text.Units) (frames : List Frame) (rest : List Char) {room : Nat},
    (∀ item ∈ fields.map Prod.snd, IsLegible room item) → (∀ item ∈ fields.map Prod.snd, IsCanonical item) →
    Fields.IsDistinct (before ++ (lastName, last) :: fields) → frames.length + (room + 1) ≤ maxDepth →
    Passes ⟨.after last, .named before lastName :: frames⟩
      (writeIndentedFields false (depth + 1) fields (newline depth ++ '\x7d' :: rest))
      ⟨.after (.obj (before ++ (lastName, last) :: fields)), frames⟩ rest
  | [], last, before, lastName, frames, _, _, _, _, distinct, _ => by
    rw [writeIndentedFields, ← Fields.put_of_notMem distinct.fresh]
    exact (Passes.skip fun _ => isSpacing_newline).trans
      (.mark (by decide) rfl (.closeObject last before lastName frames))
  | (name, item) :: others, last, before, lastName, frames, rest, _, inside, same, distinct, bounded => by
    obtain ⟨first, further⟩ := List.forall_mem_cons.mp inside
    obtain ⟨firstSame, furtherSame⟩ := List.forall_mem_cons.mp same
    have stored : before ++ (lastName, last) :: (name, item) :: others =
        before.put lastName last ++ (name, item) :: others := by
      rw [Fields.put_of_notMem distinct.fresh, List.append_assoc, List.singleton_append]
    rw [writeIndentedFields, List.append_assoc]
    have begun := IsLegible.passes (depth + 1) item (.named (before.put lastName last) name :: frames) _ first firstSame
      (by simp only [List.length_cons]; omega) (.inl rfl) (endsWord_fields depth others ('\x7d' :: rest))
    rw [stored] at distinct ⊢
    have ended := IsLegible.passes_fields depth others item (before.put lastName last) name frames rest further
      furtherSame distinct bounded
    exact (Passes.mark (by decide) rfl (.nextField last before lastName frames)).trans
      ((Passes.skip fun _ => isSpacing_newline).trans ((Passes.field (.inl rfl) name).trans (begun.trans ended)))

end

end

/-- A legible and canonical value that has been printed, with a line end behind it, is read again as it is. -/
theorem IsLegible.read_pretty {value : Json} (legible : IsLegible maxDepth value) (canonical : IsCanonical value) :
    read (value.pretty ++ "\n") = .ok value := by
  have passes := IsLegible.passes 0 value [] ['\n'] legible canonical (by simp) (.inl rfl)
    (by rintro c ⟨⟩; decide)
  have text : (value.pretty ++ "\n").toList = writeIndented 0 value ['\n'] := by
    rw [String.toList_append, pretty, String.toList_ofList, ← writeIndented_append]
    rfl
  have ended : Reads ⟨.after value, []⟩ ['\n'] value := ⟨0, 0, rfl⟩
  have basic := @isBasic_writeIndented 0 value ['\n'] (by decide)
  unfold read
  dsimp only
  rw [text, if_neg, readLexemes, lexemes, (passes value ended).anywhere]
  · rfl
  · intro mark
    exact absurd (basic _ (List.mem_of_mem_head? mark)).1 (by decide)

end TreeBuild.Json
