import Mathlib.Algebra.GroupWithZero.Nat
import TreeBuild.Json.Printer
import TreeBuild.Proofs.Json.Reading

/-!
# Printed lexemes

A text that has been printed is one lexeme, which stands for the text. Words and numbers are printed with
characters of their own, so that what stands behind them ends them.
-/
namespace TreeBuild.Json

/-! ### Texts -/

/-- The hexadecimal digits of a code, padded with zeros. -/
theorem toDigits_of_lt {code width : Nat} (bound : code < 16 ^ (width + 1)) :
    List.replicate (width + 1 - (Nat.toDigits 16 code).length) '0' ++ Nat.toDigits 16 code =
      ((List.range (width + 1)).map fun place => Nat.digitChar (code / 16 ^ place % 16)).reverse := by
  induction width generalizing code with
  | zero =>
    have small : code < 16 := by simpa using bound
    rw [Nat.toDigits_of_lt_base small]
    simp [Nat.mod_eq_of_lt small]
  | succ width inductionHypothesis =>
    have front := @inductionHypothesis (code / 16) (by
      rw [Nat.div_lt_iff_lt_mul (by decide), ← Nat.pow_succ]
      exact bound)
    have last : ((List.range (width + 2)).map fun place => Nat.digitChar (code / 16 ^ place % 16)).reverse =
        ((List.range (width + 1)).map fun place => Nat.digitChar (code / 16 / 16 ^ place % 16)).reverse ++
          [Nat.digitChar (code % 16)] := by
      rw [List.range_succ_eq_map, List.map_cons, List.reverse_cons, List.map_map]
      simp [Function.comp_def, Nat.pow_succ, Nat.div_div_eq_div_mul, Nat.mul_comm]
    rw [last, ← front, Nat.toDigits_eq_if (by decide)]
    split
    · rename_i small
      rw [Nat.div_eq_of_lt small, Nat.mod_eq_of_lt small]
      simp [Nat.toDigits_of_lt_base, List.replicate_succ']
    · rw [List.length_append, List.length_singleton, Nat.add_sub_add_right, List.append_assoc]

/-- A hexadecimal digit is read as the number that it was printed for. -/
theorem hexValue?_digitChar {digit : Nat} (bound : digit < 16) :
    hexValue? (Nat.digitChar digit) = some digit := by
  have all : ∀ digit < 16, hexValue? (Nat.digitChar digit) = some digit := by decide
  exact all digit bound

/-- A code unit is read from its four digits. -/
theorem hexUnit?_hex (unit : UInt16) : ∃ a b c d,
    (Text.hex 4 unit.toNat).toList = [a, b, c, d] ∧ hexUnit? a b c d = some unit := by
  have bound : unit.toNat < 65536 := unit.toNat_lt
  refine ⟨_, _, _, _, String.toList_ofList.trans (@toDigits_of_lt unit.toNat 3 bound), ?_⟩
  unfold hexUnit?
  simp only [hexValue?_digitChar (Nat.mod_lt _ (by decide)), bind, Option.bind, pure]
  congr 1
  have whole : ((unit.toNat / 16 ^ 3 % 16 * 16 + unit.toNat / 16 ^ 2 % 16) * 16 +
      unit.toNat / 16 ^ 1 % 16) * 16 + unit.toNat / 16 ^ 0 % 16 = unit.toNat := by omega
  rw [whole]
  exact UInt16.ofNat_toNat

/-- An escape by a letter stands for one character. -/
theorem textFrom_escape {letter stands : Char} (escape : escaped? letter = some stands)
    (distance : Nat) (before : List Text.Units) (c : Char) (rest : List Char) :
    textFrom distance before ('\\' :: letter :: c :: rest) =
      textFrom (distance + 2) (Text.unitsOfChar stands :: before) (c :: rest) := by
  have other : letter ≠ 'u' := by
    rintro rfl
    cases escape
  rw [textFrom]
  · rw [if_neg other, escape]
  · intro _ _ _ _ _ _ same
    exact absurd same other

/-- A character that stands for itself. -/
theorem textFrom_plain {plain : Char} (noQuote : plain ≠ '"') (noEscape : plain ≠ '\\')
    (visible : 32 ≤ plain.toNat) (distance : Nat) (before : List Text.Units) (rest : List Char) :
    textFrom distance before (plain :: rest) =
      textFrom (distance + 1) (Text.unitsOfChar plain :: before) rest := by
  rw [textFrom]
  · rw [if_neg (by omega)]
  · exact noQuote
  · intro same; exact absurd same noEscape
  · intro _ _ _ _ _ _ same; exact absurd same noEscape
  · intro _ _ same; exact absurd same noEscape

/-- How a code unit is printed: as an escape by a letter, as the character that it is, or by its number. -/
inductive Printed (unit : UInt16) : List Char → Prop where
  | letter {escape stands : Char} (known : escaped? escape = some stands)
      (same : Text.unitsOfChar stands = [unit]) : Printed unit ['\\', escape]
  | plain (noQuote : unit.toNat ≠ 34) (noEscape : unit.toNat ≠ 92) (least : 32 ≤ unit.toNat)
      (most : unit.toNat < 127) : Printed unit [Char.ofNat unit.toNat]
  | code : Printed unit ('\\' :: 'u' :: (Text.hex 4 unit.toNat).toList)

/-- Every code unit is printed in one of the three ways. -/
theorem printed_writeUnit (unit : UInt16) : Printed unit (writeUnit unit) := by
  have code {number : Nat} (known : unit.toNat = number) : [number.toUInt16] = [unit] := by
    rw [← known]
    exact congrArg (fun unit => [unit]) UInt16.ofNat_toNat
  unfold writeUnit
  dsimp only
  iterate 7
    split
    · exact .letter rfl (code ‹_›)
  split
  · exact .plain ‹_› ‹_› (by omega) (by omega)
  · exact .code

/-- A code unit that has been written is read as it was. -/
theorem textFrom_writeUnit (unit : UInt16) (distance : Nat) (before : List Text.Units) (c : Char)
    (rest : List Char) : textFrom distance before (writeUnit unit ++ c :: rest) =
      textFrom (distance + (writeUnit unit).length) ([unit] :: before) (c :: rest) := by
  have printed := printed_writeUnit unit
  generalize writeUnit unit = text at printed
  cases printed with
  | letter known same =>
    rw [← same]
    exact textFrom_escape known distance before c rest
  | plain noQuote noEscape least most =>
    have all : ∀ code < 127, (Char.ofNat code).toNat = code := by decide
    have value := all unit.toNat most
    have units : Text.unitsOfChar (Char.ofNat unit.toNat) = [unit] := by
      rw [Text.unitsOfChar, value, if_pos (by omega)]
      exact congrArg (fun unit => [unit]) UInt16.ofNat_toNat
    rw [← units]
    refine textFrom_plain ?_ ?_ (by omega) _ _ _
    · intro same
      exact noQuote (value ▸ congrArg Char.toNat same)
    · intro same
      exact noEscape (value ▸ congrArg Char.toNat same)
  | code =>
    obtain ⟨a, b, c', d, digits, known⟩ := hexUnit?_hex unit
    rw [digits]
    simp only [List.cons_append, List.nil_append]
    rw [textFrom, known]
    rfl

/-- A text that has been written is read as it was. -/
theorem textFrom_write (units : Text.Units) (distance : Nat) (before : List Text.Units) (rest : List Char) :
    textFrom distance before (units.flatMap writeUnit ++ '"' :: rest) =
      .ok (before.reverse.flatten ++ units, distance + (units.flatMap writeUnit).length + 1) := by
  induction units generalizing distance before with
  | nil => simp [textFrom]
  | cons unit units inductionHypothesis =>
    have quoted : ∃ c others, units.flatMap writeUnit ++ '"' :: rest = c :: others :=
      List.exists_cons_of_ne_nil (by simp)
    obtain ⟨c, others, same⟩ := quoted
    rw [List.flatMap_cons, List.append_assoc, same, textFrom_writeUnit, ← same, inductionHypothesis]
    simp [Nat.add_assoc]

/-- The lexeme of a text that has been written. -/
theorem writeText_front (units : Text.Units) (rest : List Char) : ∃ front,
    writeText units = '"' :: front ∧
      tokenAt ('"' :: front ++ rest) = (.text units, ('"' :: front).length) := by
  have opened {text : List Char} {units : Text.Units} {length : Nat}
      (read : textFrom 1 [] text = .ok (units, length)) : tokenAt ('"' :: text) = (.text units, length) := by
    simp only [tokenAt, read]
  refine ⟨units.flatMap writeUnit ++ ['"'], by simp [writeText], ?_⟩
  rw [List.cons_append, List.append_assoc, List.singleton_append, opened (textFrom_write _ _ _ _)]
  simp only [List.reverse_nil, List.flatten_nil, List.nil_append, List.length_cons, List.length_append,
    List.length_nil, Prod.mk.injEq, true_and]
  omega

/-! ### Numbers and names -/

/-- The digits of a printed number occur in words. -/
theorem isWordChar_of_mem_toDigits {number : Nat} {c : Char} (member : c ∈ Nat.toDigits 10 number) :
    isWordChar c :=
  isWordChar_of_isDigit (Nat.isDigit_of_mem_toDigits (by decide) (by decide) member)

/-- A printed whole number is a word. -/
theorem isWordChar_repr (number : Int) : number.repr.toList ≠ [] ∧
    ∀ c ∈ number.repr.toList, isWordChar c := by
  rw [Int.repr_eq_if]
  split
  · rw [Nat.repr_eq_ofList_toDigits, String.toList_ofList]
    exact ⟨Nat.toDigits_ne_nil, fun c => isWordChar_of_mem_toDigits⟩
  · rw [String.toList_append, Nat.repr_eq_ofList_toDigits, String.toList_ofList]
    refine ⟨by simp, fun c member => ?_⟩
    rcases List.mem_append.mp member with sign | digit
    · rw [List.mem_singleton.mp sign]
      decide
    · exact isWordChar_of_mem_toDigits (String.toList_ofList ▸ digit)

/-- A printed decimal number is a word, in either style. -/
theorem isWordChar_numeral (style : Number.NumeralStyle) (decimal : Number.Decimal) :
    (style.numeral decimal).toList ≠ [] ∧ ∀ c ∈ (style.numeral decimal).toList, isWordChar c := by
  have digit {c : Char} (member : c ∈ Nat.toDigits 10 decimal.digits) := isWordChar_of_mem_toDigits member
  have zero {c : Char} {count : Nat} (member : c ∈ List.replicate count '0') : isWordChar c := by
    rw [(List.mem_replicate.mp member).2]
    decide
  unfold Number.NumeralStyle.numeral
  dsimp only
  split
  · split
    · rw [String.toList_ofList]
      refine ⟨by simp, fun c member => ?_⟩
      simp only [List.mem_append] at member
      rcases member with (front | zeros) | digits
      · revert c
        decide
      · exact zero zeros
      · exact digit digits
    split
    · rw [String.toList_ofList]
      refine ⟨by simp, fun c member => ?_⟩
      simp only [List.mem_append] at member
      rcases member with (digits | zeros) | back
      · exact digit digits
      · exact zero zeros
      · revert c
        decide
    · rw [String.toList_ofList]
      refine ⟨by simp, fun c member => ?_⟩
      simp only [List.mem_append, List.mem_singleton] at member
      rcases member with (digits | rfl) | digits
      · exact digit (List.mem_of_mem_take digits)
      · decide
      · exact digit (List.mem_of_mem_drop digits)
  · rw [String.toList_ofList]
    refine ⟨by simp, fun c member => ?_⟩
    simp only [List.mem_append, List.mem_cons, List.not_mem_nil, or_false] at member
    rcases member with ((mantissa | rfl | sign) | zeros) | magnitude
    · have inside : c = '.' ∨ c ∈ Nat.toDigits 10 decimal.digits := by
        split at mantissa
        · cases mantissa
        · rename_i same
          exact .inr (same ▸ mantissa)
        · rename_i first others _ same
          rw [same]
          simp only [List.mem_cons] at mantissa ⊢
          exact or_left_comm.mp mantissa
      rcases inside with rfl | digits
      · decide
      · exact digit digits
    · decide
    · rw [sign]
      split <;> decide
    · exact zero zeros
    · exact isWordChar_of_mem_toDigits magnitude

/-- A word or a number is written with the characters that these consist of. -/
theorem isWordChar_writeScalar {value : Json} (word : value.isWord) :
    writeScalar value ≠ [] ∧ ∀ c ∈ writeScalar value, isWordChar c := by
  cases value with
  | null => exact ⟨by decide, by decide⟩
  | bool truth => cases truth <;> exact ⟨by decide, by decide⟩
  | int number => exact isWordChar_repr number
  | float number =>
    have signed {body : String} (negative : Bool) (letters : body.toList ≠ [] ∧
        ∀ c ∈ body.toList, isWordChar c) : ((if negative then "-" else "") ++ body).toList ≠ [] ∧
        ∀ c ∈ ((if negative then "-" else "") ++ body).toList, isWordChar c := by
      have minus : ∀ c ∈ (if negative then "-" else "").toList, isWordChar c := by
        cases negative <;> decide
      rw [String.toList_append]
      refine ⟨by simp [letters.1], fun c member => ?_⟩
      rcases List.mem_append.mp member with sign | rest
      · exact minus c sign
      · exact letters.2 c rest
    cases number with
    | nan => exact ⟨by decide, by decide⟩
    | infinity negative => exact signed negative ⟨by decide, by decide⟩
    | finite negative significand exponent =>
      refine signed negative ?_
      split
      · exact ⟨by decide, by decide⟩
      · exact isWordChar_numeral _ _
  | str _ | arr _ | obj _ => cases word

/-! ### Between the lexemes -/

/-- A new line is white space. -/
theorem isSpacing_newline {depth : Nat} {c : Char} (member : c ∈ newline depth) : isSpacing c := by
  rcases List.mem_cons.mp member with rfl | blank
  · decide
  · rw [(List.mem_replicate.mp blank).2]
    decide

/-- Behind a new line no word goes on. -/
theorem endsWord_newline (depth : Nat) (rest : List Char) : EndsWord (newline depth ++ rest) := by
  rintro c ⟨⟩
  decide

/-- Behind an item no word goes on. -/
theorem endsWord_items (depth : Nat) (items : List Json) (rest : List Char) :
    EndsWord (writeIndentedItems false (depth + 1) items (newline depth ++ rest)) := by
  cases items with
  | nil => exact endsWord_newline depth rest
  | cons item others =>
    rintro c ⟨⟩
    decide

/-- Behind a field no word goes on. -/
theorem endsWord_fields (depth : Nat) (fields : Fields) (rest : List Char) :
    EndsWord (writeIndentedFields false (depth + 1) fields (newline depth ++ rest)) := by
  cases fields with
  | nil => exact endsWord_newline depth rest
  | cons field others =>
    rintro c ⟨⟩
    decide

end TreeBuild.Json
