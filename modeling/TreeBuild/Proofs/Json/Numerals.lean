import TreeBuild.Proofs.Json.Reading
import TreeBuild.Proofs.Number.Rounding

/-!
# Numerals

A number is printed as one lexeme and read back as the number: a whole number digit by digit, a fraction by its
shortest decimal, in whichever way the decimal point and the exponent are set.
-/
namespace TreeBuild.Json

/-- A digit run that is one zero or does not begin with one. -/
structure IsWhole (run : List Char) : Prop where
  nonempty : run ≠ []
  digits : ∀ c ∈ run, c.isDigit
  leading : run = ['0'] ∨ run.head? ≠ some '0'

/-- A decimal point with digits behind it, or nothing. -/
def IsFraction (text : List Char) : Prop :=
  text = [] ∨ ∃ places, places ≠ [] ∧ (∀ c ∈ places, c.isDigit) ∧ text = '.' :: places

/-- An exponent with its sign, or nothing. -/
def IsExponent (text : List Char) : Prop :=
  text = [] ∨ ∃ sign digits, (sign = '+' ∨ sign = '-') ∧ digits ≠ [] ∧ (∀ c ∈ digits, c.isDigit) ∧
    text = 'e' :: sign :: digits

/-- The power of ten that a printed exponent stands for. -/
def powerOf : List Char → Int
  | _ :: '-' :: digits => -(ofDigitRun digits : Int)
  | _ :: _ :: digits => ofDigitRun digits
  | _ => 0

/-- The number that a printed numeral stands for. -/
def numeralValue (negative : Bool) (whole fraction exponent : List Char) : Json :=
  if fraction = [] ∧ exponent = [] then
    .int (if negative then -(ofDigitRun whole : Int) else ofDigitRun whole)
  else
    .float (Number.Binary64.ofDecimal negative (ofDigitRun (whole ++ fraction.tail))
      (powerOf exponent - fraction.tail.length))

/-- No digit stands at the front. -/
def EndsDigits (text : List Char) : Prop := ∀ c ∈ text.head?, c.isDigit = false

/-- A number is printed with digits. -/
theorem isDigit_toDigits (number : Nat) : ∀ c ∈ Nat.toDigits 10 number, c.isDigit :=
  fun _ => Nat.isDigit_of_mem_toDigits (by decide) (by decide)

/-- A run of digits writes a number with no more digits. -/
theorem ofDigitRun_lt {run : List Char} (digits : ∀ c ∈ run, c.isDigit) :
    ofDigitRun run < 10 ^ run.length := by
  have grows (run : List Char) (digits : ∀ c ∈ run, c.isDigit) (start : Nat) :
      run.foldl (fun value c => 10 * value + (c.toNat - '0'.toNat)) start < (start + 1) * 10 ^ run.length := by
    induction run generalizing start with
    | nil => simp
    | cons c rest inductionHypothesis =>
      obtain ⟨first, others⟩ := List.forall_mem_cons.mp digits
      have least : c.toNat - '0'.toNat ≤ 9 := by
        obtain ⟨-, most⟩ := Char.isDigit_iff_toNat.mp first
        change c.toNat ≤ 57 at most
        change c.toNat - 48 ≤ 9
        omega
      refine Nat.lt_of_lt_of_le (inductionHypothesis others _) ?_
      rw [List.length_cons, Nat.pow_succ, Nat.mul_comm _ 10, ← Nat.mul_assoc]
      refine Nat.mul_le_mul_right _ ?_
      change 10 * start + (c.toNat - '0'.toNat) + 1 ≤ (start + 1) * 10
      omega
  simpa [ofDigitRun] using grows run digits 0

/-- The number that a run writes is that of the library. -/
theorem ofDigitRun_eq (run : List Char) : ofDigitRun run = Nat.ofDigitChars 10 run 0 := rfl

/-- The printed digits are read as the number. -/
theorem ofDigitRun_toDigits (number : Nat) : ofDigitRun (Nat.toDigits 10 number) = number :=
  Nat.ofDigitChars_ten_toDigits

/-- A run of digits stands for its front, moved by the places of its back, and the back. -/
theorem ofDigitRun_append (run more : List Char) :
    ofDigitRun (run ++ more) = ofDigitRun run * 10 ^ more.length + ofDigitRun more := by
  rw [ofDigitRun_eq, Nat.ofDigitChars_append, Nat.ofDigitChars_eq_ofDigitChars_zero, Nat.mul_comm]
  rfl

/-- Zeros stand for nothing. -/
theorem ofDigitRun_replicate (count : Nat) : ofDigitRun (List.replicate count '0') = 0 := by
  rw [ofDigitRun_eq, Nat.ofDigitChars_replicate_zero, Nat.mul_zero]

/-- Zeros in front of a number do not change it. -/
theorem ofDigitRun_replicate_append (count : Nat) (run : List Char) :
    ofDigitRun (List.replicate count '0' ++ run) = ofDigitRun run := by
  rw [ofDigitRun_append, ofDigitRun_replicate, Nat.zero_mul, Nat.zero_add]

/-- A printed number has no leading zeros. -/
theorem isWhole_toDigits (number : Nat) : IsWhole (Nat.toDigits 10 number) where
  nonempty := Nat.toDigits_ne_nil
  digits := isDigit_toDigits number
  leading := by
    have leading (number : Nat) (positive : number ≠ 0) : (Nat.toDigits 10 number).head? ≠ some '0' := by
      induction number using Nat.strongRecOn with
      | ind number inductionHypothesis =>
        rw [Nat.toDigits_eq_if (by decide)]
        split
        · simpa using positive
        · have front := inductionHypothesis (number / 10) (by omega) (by omega)
          obtain ⟨c, others, same⟩ := List.exists_cons_of_ne_nil (@Nat.toDigits_ne_nil (number / 10) 10)
          rw [same] at front ⊢
          exact front
    by_cases zero : number = 0
    · subst zero
      exact .inl rfl
    · exact .inr (leading number zero)

/-- Where a word ends, no digit follows. -/
theorem endsDigits_of_endsWord {text : List Char} (ends : EndsWord text) : EndsDigits text := by
  intro c first
  refine Bool.eq_false_iff.mpr fun digit => ?_
  have noWord := ends c first
  rw [isWordChar_of_isDigit digit] at noWord
  cases noWord

section

variable {run rest : List Char}

/-- A run of digits is read up to its end. -/
theorem digitRun_append (digits : ∀ c ∈ run, c.isDigit) (ends : EndsDigits rest) :
    digitRun (run ++ rest) = (run, rest) := by
  have none : rest.takeWhile Char.isDigit = [] ∧ rest.dropWhile Char.isDigit = rest := by
    cases rest with
    | nil => exact ⟨rfl, rfl⟩
    | cons c others => simp [ends c rfl]
  rw [digitRun, List.takeWhile_append_of_pos digits, List.dropWhile_append_of_pos digits, none.1, none.2,
    List.append_nil]

/-- The whole part of a numeral is read up to its end. -/
theorem wholePart_append (whole : IsWhole run) (ends : EndsDigits rest) :
    wholePart (run ++ rest) = (run, rest) := by
  rcases whole.leading with rfl | noZero
  · rfl
  · obtain ⟨c, others, rfl⟩ := List.exists_cons_of_ne_nil whole.nonempty
    rw [List.cons_append, wholePart]
    · exact digitRun_append whole.digits ends
    · rintro _ same
      obtain ⟨rfl, -⟩ := List.cons.inj same
      exact noZero rfl

/-- The places behind the point are read up to their end. -/
theorem fractionPart_append {places : List Char} (nonempty : places ≠ []) (digits : ∀ c ∈ places, c.isDigit)
    (ends : EndsDigits rest) : fractionPart ('.' :: places ++ rest) = some (places, rest) := by
  obtain ⟨c, others, rfl⟩ := List.exists_cons_of_ne_nil nonempty
  have run := digitRun_append digits ends
  simp only [fractionPart, List.cons_append]
  rw [← List.cons_append, run]

/-- Without a point there are no places. -/
theorem fractionPart_none (ends : ∀ c ∈ rest.head?, c ≠ '.') : fractionPart rest = none := by
  cases rest with
  | nil => rfl
  | cons c others =>
    rw [fractionPart]
    rintro _ same
    exact ends c rfl (List.cons.inj same).1

/-- A signed exponent is read up to its end. -/
theorem exponentPart_append {sign : Char} {digits : List Char} (signed : sign = '+' ∨ sign = '-')
    (nonempty : digits ≠ []) (each : ∀ c ∈ digits, c.isDigit) (ends : EndsDigits rest) :
    exponentPart ('e' :: sign :: digits ++ rest) = some (powerOf ('e' :: sign :: digits), rest) := by
  obtain ⟨c, others, rfl⟩ := List.exists_cons_of_ne_nil nonempty
  have run := digitRun_append each ends
  rw [List.cons_append] at run
  rcases signed with rfl | rfl <;> simp [exponentPart, powerOf, run]

/-- Where a word ends, there is no exponent. -/
theorem exponentPart_none (ends : EndsWord rest) : exponentPart rest = none := by
  cases rest with
  | nil => rfl
  | cons c others =>
    have noWord := ends c rfl
    simp only [exponentPart]
    rw [if_neg]
    rintro (rfl | rfl) <;> cases noWord

/-- A numeral is read to its end if it is not too long. -/
theorem numberFrom_append {whole fraction exponent : List Char} (negative : Bool) (isWhole : IsWhole whole)
    (isFraction : IsFraction fraction) (isExponent : IsExponent exponent)
    (few : fraction = [] → exponent = [] → whole.length ≤ maxDigits) (ends : EndsWord rest) :
    numberFrom negative (whole ++ (fraction ++ (exponent ++ rest))) =
      some (.scalar (numeralValue negative whole fraction exponent), rest) := by
  have behindExponent : EndsDigits rest := endsDigits_of_endsWord ends
  have behindFraction : EndsDigits (exponent ++ rest) ∧ ∀ c ∈ (exponent ++ rest).head?, c ≠ '.' := by
    rcases isExponent with rfl | ⟨sign, digits, -, -, -, rfl⟩
    · refine ⟨behindExponent, fun c first => ?_⟩
      rintro rfl
      have noWord := ends '.' first
      cases noWord
    · exact ⟨by rintro c ⟨⟩; rfl, by rintro c ⟨⟩; decide⟩
  have behindWhole : EndsDigits (fraction ++ (exponent ++ rest)) := by
    rcases isFraction with rfl | ⟨places, -, -, rfl⟩
    · exact behindFraction.1
    · rintro c ⟨⟩
      rfl
  unfold numberFrom
  rw [wholePart_append isWhole behindWhole]
  obtain ⟨first, others, rfl⟩ := List.exists_cons_of_ne_nil isWhole.nonempty
  dsimp only
  rcases isFraction with rfl | ⟨places, nonempty, digits, rfl⟩
  · rw [List.nil_append, fractionPart_none behindFraction.2]
    rcases isExponent with rfl | ⟨sign, digits, signed, nonempty, each, rfl⟩
    · have short := few rfl rfl
      simp only [List.nil_append, exponentPart_none ends, Option.getD_none, Option.isNone_none, Bool.and_self,
        if_true]
      rw [if_neg (by omega)]
      rfl
    · simp only [Option.getD_none, exponentPart_append signed nonempty each behindExponent, Option.getD_some,
        Option.isNone_some, Bool.and_false]
      rfl
  · rw [fractionPart_append nonempty digits behindFraction.1]
    simp only [Option.getD_some, Option.isNone_some, Bool.false_and]
    rcases isExponent with rfl | ⟨sign, digits, signed, nonempty, each, rfl⟩
    · simp only [List.nil_append, exponentPart_none ends]
      rfl
    · simp only [exponentPart_append signed nonempty each behindExponent]
      rfl

/-- The exponent of a printed numeral stands for its number. -/
theorem powerOf_written (power : Int) (count : Nat) :
    powerOf ('e' :: (if power < 0 then '-' else '+') :: (List.replicate count '0' ++ Nat.toDigits 10 power.natAbs)) =
      power := by
  have magnitude : ofDigitRun (List.replicate count '0' ++ Nat.toDigits 10 power.natAbs) = power.natAbs := by
    rw [ofDigitRun_replicate_append, ofDigitRun_toDigits]
  split
  · rw [powerOf, magnitude]
    omega
  · rw [powerOf, magnitude]
    · omega
    · decide

/-! ### Layouts -/

/-- A text is a numeral with a decimal point or an exponent, which stands for a decimal. -/
def IsNumeral (text : List Char) (decimal : Number.Decimal) : Prop :=
  ∃ whole fraction exponent, text = whole ++ (fraction ++ exponent) ∧
    IsWhole whole ∧ IsFraction fraction ∧ IsExponent exponent ∧ ¬(fraction = [] ∧ exponent = []) ∧
    ∀ negative, Number.Binary64.ofDecimal negative (ofDigitRun (whole ++ fraction.tail))
      (powerOf exponent - fraction.tail.length) =
        Number.Binary64.ofDecimal negative decimal.digits decimal.power

section

variable {digits : List Char} {decimal : Number.Decimal}

/-- Padding consists of digits. -/
theorem isDigit_of_mem_replicate {count : Nat} {c : Char} (member : c ∈ List.replicate count '0') : c.isDigit := by
  rw [(List.mem_replicate.mp member).2]
  rfl

/-- The point stands in front of the digits, with zeros between. -/
theorem isNumeral_fraction (isWhole : IsWhole digits) (value : ofDigitRun digits = decimal.digits) {count : Nat}
    (point : digits.length + decimal.power = -count) :
    IsNumeral ("0.".toList ++ List.replicate count '0' ++ digits) decimal := by
  refine ⟨['0'], '.' :: (List.replicate count '0' ++ digits), [], by simp, ⟨by simp, by simp, .inl rfl⟩,
    .inr ⟨_, by simp [isWhole.nonempty], fun c member => ?_, rfl⟩, .inl rfl, nofun, fun negative => ?_⟩
  · exact (List.mem_append.mp member).elim isDigit_of_mem_replicate (isWhole.digits c)
  · have number : ofDigitRun (['0'] ++ (List.replicate count '0' ++ digits)) = decimal.digits := by
      rw [← value, ← ofDigitRun_replicate_append (count + 1) digits, List.replicate_succ]
      rfl
    rw [List.tail_cons, number, List.length_append, List.length_replicate]
    congr 1
    rw [powerOf]
    · omega
    all_goals nofun

/-- The point stands behind the digits, with zeros between. The zeros are worth as many powers of ten, and the
one behind the point comes off again. -/
theorem isNumeral_whole (isWhole : IsWhole digits) (leading : digits.head? ≠ some '0')
    (value : ofDigitRun digits = decimal.digits) {count : Nat} (power : decimal.power = count) :
    IsNumeral (digits ++ List.replicate count '0' ++ ".0".toList) decimal := by
  refine ⟨digits ++ List.replicate count '0', ['.', '0'], [], rfl, ⟨by simp [isWhole.nonempty], fun c member => ?_,
    .inr ?_⟩, .inr ⟨['0'], by simp, by simp, rfl⟩, .inl rfl, nofun, fun negative => ?_⟩
  · exact (List.mem_append.mp member).elim (isWhole.digits c) isDigit_of_mem_replicate
  · obtain ⟨c, others, rfl⟩ := List.exists_cons_of_ne_nil isWhole.nonempty
    exact leading
  · have number : ofDigitRun (digits ++ List.replicate count '0' ++ ['0']) = decimal.digits * 10 ^ (count + 1) := by
      rw [List.append_assoc, ← List.replicate_succ', ofDigitRun_append, ofDigitRun_replicate, value,
        List.length_replicate, Nat.add_zero]
    rw [List.tail_cons, number, Number.Binary64.ofDecimal_mul_pow]
    congr 1
    rw [powerOf]
    · simp only [List.length_singleton]
      omega
    all_goals nofun

/-- The point stands between the digits. -/
theorem isNumeral_split (isWhole : IsWhole digits) (leading : digits.head? ≠ some '0')
    (value : ofDigitRun digits = decimal.digits) {count : Nat} (point : digits.length + decimal.power = count)
    (positive : 0 < count) (short : count < digits.length) :
    IsNumeral (digits.take count ++ ['.'] ++ digits.drop count) decimal := by
  refine ⟨digits.take count, '.' :: digits.drop count, [], by simp, ⟨?_, fun c member => ?_, .inr ?_⟩,
    .inr ⟨_, ?_, fun c member => ?_, rfl⟩, .inl rfl, nofun, fun negative => ?_⟩
  · simp only [ne_eq, List.take_eq_nil_iff, not_or]
    exact ⟨by omega, isWhole.nonempty⟩
  · exact isWhole.digits c (List.mem_of_mem_take member)
  · rwa [List.head?_take, if_neg (by omega)]
  · simp only [ne_eq, List.drop_eq_nil_iff]
    omega
  · exact isWhole.digits c (List.mem_of_mem_drop member)
  · rw [List.tail_cons, List.take_append_drop, value, List.length_drop]
    congr 1
    rw [powerOf]
    · omega
    all_goals nofun

/-- The point stands behind the first digit, and an exponent behind the digits. -/
theorem isNumeral_exponent {first : Char} {others mantissa : List Char} (digit : first.isDigit) (leading : first ≠ '0')
    (further : ∀ c ∈ others, c.isDigit) (value : ofDigitRun (first :: others) = decimal.digits) (power : Int)
    (point : others.length + decimal.power = power) (count : Nat)
    (same : mantissa = if others = [] then [first] else first :: '.' :: others) :
    IsNumeral (mantissa ++ ['e', if power < 0 then '-' else '+'] ++ List.replicate count '0' ++
      Nat.toDigits 10 power.natAbs) decimal := by
  have exponent : IsExponent ('e' :: (if power < 0 then '-' else '+') ::
      (List.replicate count '0' ++ Nat.toDigits 10 power.natAbs)) := by
    refine .inr ⟨if power < 0 then '-' else '+', List.replicate count '0' ++ Nat.toDigits 10 power.natAbs,
      ?_, ?_, fun c member => ?_, rfl⟩
    · split
      · exact .inr rfl
      · exact .inl rfl
    · simp [Nat.toDigits_ne_nil]
    · exact (List.mem_append.mp member).elim isDigit_of_mem_replicate (isDigit_toDigits _ c)
  have whole : IsWhole [first] := ⟨by simp, by simpa using digit, .inr (by simpa using leading)⟩
  subst same
  refine ⟨[first], if others = [] then [] else '.' :: others, _, ?_, whole, ?_, exponent, nofun, fun negative => ?_⟩
  · split <;> simp
  · split
    · exact .inl rfl
    · exact .inr ⟨others, ‹_›, further, rfl⟩
  · have places : (if others = [] then [] else '.' :: others).tail = others := by
      split
      · exact (‹others = []›).symm
      · rfl
    rw [places, List.singleton_append, value, powerOf_written]
    congr 1
    omega

end

/-- The numeral of a decimal stands for the decimal, in every style. -/
theorem isNumeral_numeral (style : Number.NumeralStyle) {decimal : Number.Decimal} (nonzero : decimal.digits ≠ 0) :
    IsNumeral (style.numeral decimal).toList decimal := by
  have isWhole := isWhole_toDigits decimal.digits
  have value := ofDigitRun_toDigits decimal.digits
  have leading : (Nat.toDigits 10 decimal.digits).head? ≠ some '0' := by
    refine isWhole.leading.resolve_left fun same => ?_
    rw [same] at value
    exact nonzero value.symm
  unfold Number.NumeralStyle.numeral
  generalize Nat.toDigits 10 decimal.digits = digits at isWhole leading value
  dsimp only
  split
  · split
    · rw [String.toList_ofList]
      exact isNumeral_fraction isWhole value (by omega)
    split
    · rw [String.toList_ofList]
      exact isNumeral_whole isWhole leading value (by omega)
    · rw [String.toList_ofList]
      exact isNumeral_split isWhole leading value (by omega) (by omega) (by omega)
  · obtain ⟨first, others, rfl⟩ := List.exists_cons_of_ne_nil isWhole.nonempty
    obtain ⟨digit, further⟩ := List.forall_mem_cons.mp isWhole.digits
    rw [String.toList_ofList]
    refine isNumeral_exponent digit (by simpa using leading) further value _ ?_ _ ?_
    · simp only [List.length_cons]
      omega
    · cases others <;> rfl

/-- A numeral with its sign is one lexeme. -/
theorem tokenAt_numeral (negative : Bool) {text : List Char} {token : Token} {c : Char} {others : List Char}
    (first : text = c :: others) (digit : c.isDigit)
    (number : numberFrom negative (text ++ rest) = some (token, rest)) :
    tokenAt ((if negative then ['-'] else []) ++ text ++ rest) =
      (token, ((if negative then ['-'] else []) ++ text).length) := by
  subst first
  have differs (other : Char) (noDigit : other.isDigit = false) : other ≠ c := by
    rintro rfl
    rw [noDigit] at digit
    cases digit
  have apart (other : Char) (noDigit : other.isDigit = false) : (other == c) = false := by
    rw [beq_eq_false_iff_ne]
    exact differs other noDigit
  have unsigned (other : Char) (noDigit : other.isDigit = false) (back : List Char) :
      c :: (others ++ rest) ≠ other :: back := fun same => differs other noDigit (List.cons.inj same).1.symm
  cases negative with
  | false =>
    have noWord : words.find? (fun word => word.1.isPrefixOf (c :: (others ++ rest))) = none := by
      simp [words, List.isPrefixOf, apart]
    have number : numberFrom false (c :: (others ++ rest)) = some (token, rest) := number
    change tokenAt (c :: (others ++ rest)) = _
    rw [tokenAt, noWord]
    · dsimp only
      rw [number]
      simp only [List.length_cons, List.length_append, List.nil_append, Bool.false_eq_true, if_false,
        Prod.mk.injEq, true_and]
      omega
    all_goals exact unsigned _ rfl
  | true =>
    have noWord : words.find? (fun word => word.1.isPrefixOf ('-' :: c :: (others ++ rest))) = none := by
      simp [words, List.isPrefixOf, apart]
    have number : numberFrom true (c :: (others ++ rest)) = some (token, rest) := number
    change tokenAt ('-' :: c :: (others ++ rest)) = _
    rw [tokenAt, noWord]
    · dsimp only
      rw [number]
      simp only [List.length_cons, List.length_append, List.singleton_append, if_true, Prod.mk.injEq, true_and]
      omega

end

end TreeBuild.Json
