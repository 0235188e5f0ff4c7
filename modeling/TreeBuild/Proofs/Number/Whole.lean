import Mathlib.Algebra.Order.Field.Power
import Mathlib.Algebra.Order.Floor.Ring
import Mathlib.Data.List.TakeWhile
import Mathlib.Data.Nat.Digits.Defs
import Mathlib.Data.Rat.Floor
import Mathlib.Tactic.Positivity
import TreeBuild.Number.Binary64
import TreeBuild.Number.Whole

/-!
# Which texts write whole numbers

The grammar of whole numbers is given by rules, and a text is read as a number exactly if it is written by
them. No text writes two numbers, for the reader gives one answer. Digits are told from blanks by their code
points: no script has its digits where blanks are, so it is clear where the margins of a text end.

A binary number is cut to a whole one towards zero: down to the next whole number if it is not negative, and up
to it otherwise.
-/
namespace TreeBuild

namespace Text

/-! ### Digits and blanks -/

/-- A digit lies less than ten behind a zero. -/
theorem isDigit_iff (c : Char) : isDigit c ↔ ∃ first ∈ digitZeros, first ≤ c.toNat ∧ c.toNat < first + 10 := by
  rw [isDigit, digitValue?, Option.isSome_map, List.find?_isSome]
  simp

/-- No digit is a blank. -/
theorem isBlank_of_isDigit {c : Char} (digit : isDigit c) : isBlank c = false := by
  obtain ⟨first, among, near, far⟩ := (isDigit_iff c).mp digit
  have apart : ∀ first ∈ digitZeros, ∀ range ∈ blankRanges, range.2 < first ∨ first + 10 ≤ range.1 := by
    decide +kernel
  refine List.any_eq_false.mpr fun range member inside => ?_
  have within : range.1 ≤ c.toNat ∧ c.toNat ≤ range.2 := by simpa using inside
  have outside := apart first among range member
  omega

/-! ### Trimming -/

section

variable {drop : Char → Bool}

/-- What is trimmed off a text stands at its ends. -/
theorem exists_trim (drop : Char → Bool) (text : List Char) :
    ∃ before after, text = before ++ trim drop text ++ after ∧ (∀ c ∈ before, drop c) ∧ ∀ c ∈ after, drop c := by
  obtain ⟨rest, known⟩ : ∃ rest, text.dropWhile drop = rest := ⟨_, rfl⟩
  refine ⟨text.takeWhile drop, (rest.reverse.takeWhile drop).reverse, ?_, ?_, ?_⟩
  · have back : rest = (rest.reverse.dropWhile drop).reverse ++ (rest.reverse.takeWhile drop).reverse := by
      rw [← List.reverse_append, List.takeWhile_append_dropWhile, List.reverse_reverse]
    rw [trim, trimEnd, known, List.append_assoc, ← back, ← known, List.takeWhile_append_dropWhile]
  · intro c member
    exact List.mem_takeWhile_imp member
  · intro c member
    exact List.mem_takeWhile_imp (List.mem_reverse.mp member)

/-- What is dropped before a core ends at the core. -/
theorem dropWhile_between {before core : List Char} (goes : ∀ c ∈ before, drop c)
    (stays : ∀ c ∈ core, drop c = false) (nonempty : core ≠ []) (after : List Char) :
    (before ++ (core ++ after)).dropWhile drop = core ++ after := by
  cases core with
  | nil => exact absurd rfl nonempty
  | cons c others =>
    rw [List.dropWhile_append_of_pos goes, List.cons_append, List.dropWhile_cons, stays c List.mem_cons_self]
    rfl

/-- A text of characters that stay is what remains between others that go. -/
theorem trim_between {before core after : List Char} (goes : ∀ c ∈ before, drop c)
    (stays : ∀ c ∈ core, drop c = false) (nonempty : core ≠ []) (goesToo : ∀ c ∈ after, drop c) :
    trim drop (before ++ (core ++ after)) = core := by
  have turned := @dropWhile_between drop after.reverse core.reverse (by simpa using goesToo)
    (by simpa using stays) (by simpa using nonempty) []
  rw [trim, trimEnd, dropWhile_between goes stays nonempty, List.reverse_append]
  rw [List.append_nil] at turned
  rw [turned, List.reverse_reverse]

end

end Text

namespace Number

/-! ### The grammar -/

/-- Digits of any script with their values: one digit or more, with at most one underscore between two of
them. -/
inductive Grouped : List Char → List Nat → Prop where
  | single {c : Char} {digit : Nat} (isDigit : Text.digitValue? c = some digit) : Grouped [c] [digit]
  | next {c : Char} {digit : Nat} {rest : List Char} {digits : List Nat}
      (isDigit : Text.digitValue? c = some digit) (grouped : Grouped rest digits) :
      Grouped (c :: rest) (digit :: digits)
  | parted {c : Char} {digit : Nat} {rest : List Char} {digits : List Nat}
      (isDigit : Text.digitValue? c = some digit) (grouped : Grouped rest digits) :
      Grouped (c :: '_' :: rest) (digit :: digits)

/-- What can stand in front of digits, and whether it makes their number negative. -/
inductive IsSign : List Char → Bool → Prop where
  | none : IsSign [] false
  | plus : IsSign ['+'] false
  | minus : IsSign ['-'] true

/-- The number of digits by their places, the greatest place first. -/
def worth (digits : List Nat) : Nat := Nat.ofDigits 10 digits.reverse

/-- The whole number that a text writes: a sign or none and digits, with blanks around. There is a greatest
count of digits. -/
inductive Writes : List Char → Int → Prop where
  | between {before sign letters after : List Char} {negative : Bool} {digits : List Nat}
      (goes : ∀ c ∈ before, isMargin c) (isSign : IsSign sign negative) (grouped : Grouped letters digits)
      (short : digits.length ≤ maxDigits) (goesToo : ∀ c ∈ after, isMargin c) :
      Writes (before ++ ((sign ++ letters) ++ after))
        (if negative then -(worth digits : Int) else worth digits)

/-! ### What is read is what is written -/

/-- Digits are put together to what they are worth. -/
theorem ofDigits_eq (digits : List Nat) : ofDigits digits = worth digits := by
  rw [worth, Nat.ofDigits_eq_foldr, List.foldr_reverse, ofDigits]
  congr 1
  funext value digit
  simp [Nat.add_comm]

/-- A digit of any script is not a margin. -/
theorem isMargin_of_digitValue? {c : Char} {digit : Nat} (isDigit : Text.digitValue? c = some digit) :
    isMargin c = false := by
  have isDigit : Text.isDigit c := by rw [Text.isDigit, isDigit]; rfl
  rw [isMargin, Text.isBlank_of_isDigit isDigit, Bool.false_and]

section

variable {letters : List Char} {digits : List Nat}

/-- Digits begin with one. -/
theorem Grouped.begins (grouped : Grouped letters digits) :
    ∃ c others digit, letters = c :: others ∧ Text.digitValue? c = some digit := by
  cases grouped with
  | single isDigit | next isDigit _ | parted isDigit _ => exact ⟨_, _, _, rfl, isDigit⟩

/-- Neither digits nor what parts them can stand in a margin. -/
theorem Grouped.stays (grouped : Grouped letters digits) : ∀ c ∈ letters, isMargin c = false := by
  induction grouped with
  | single isDigit => exact List.forall_mem_singleton.mpr (isMargin_of_digitValue? isDigit)
  | next isDigit _ inductionHypothesis =>
    exact List.forall_mem_cons.mpr ⟨isMargin_of_digitValue? isDigit, inductionHypothesis⟩
  | parted isDigit _ inductionHypothesis =>
    refine List.forall_mem_cons.mpr ⟨isMargin_of_digitValue? isDigit, ?_⟩
    exact List.forall_mem_cons.mpr ⟨by decide, inductionHypothesis⟩

/-- The digits that are read are those of the grammar. The reader looks for an underscore first, which is no
digit, so its cases do not overlap. -/
theorem groupedDigits?_eq_some_iff : groupedDigits? letters = some digits ↔ Grouped letters digits := by
  constructor
  · intro read
    fun_induction groupedDigits? letters generalizing digits with
    | case1 => cases read
    | case2 c =>
      obtain ⟨digit, isDigit, rfl⟩ := Option.map_eq_some_iff.mp read
      exact .single isDigit
    | case3 c rest inductionHypothesis =>
      obtain ⟨digit, isDigit, others⟩ := Option.bind_eq_some_iff.mp read
      obtain ⟨more, grouped, same⟩ := Option.bind_eq_some_iff.mp others
      cases same
      exact .parted isDigit (inductionHypothesis grouped)
    | case4 c rest unparted nonempty inductionHypothesis =>
      obtain ⟨digit, isDigit, others⟩ := Option.bind_eq_some_iff.mp read
      obtain ⟨more, grouped, same⟩ := Option.bind_eq_some_iff.mp others
      cases same
      exact .next isDigit (inductionHypothesis grouped)
  · intro grouped
    induction grouped with
    | single isDigit => simp [groupedDigits?, isDigit]
    | next isDigit grouped inductionHypothesis =>
      obtain ⟨first, others, digit, rfl, firstIsDigit⟩ := grouped.begins
      have unparted : first ≠ '_' := by
        rintro rfl
        cases firstIsDigit.symm.trans (by decide : Text.digitValue? '_' = none)
      simp [groupedDigits?, unparted, isDigit, inductionHypothesis]
    | parted isDigit grouped inductionHypothesis => simp [groupedDigits?, isDigit, inductionHypothesis]

/-- A sign is cut off exactly where one stands in front of the digits. -/
theorem signed_eq_iff (grouped : Grouped letters digits) {text : List Char} {negative : Bool} :
    signed text = (negative, letters) ↔ ∃ sign, IsSign sign negative ∧ text = sign ++ letters := by
  constructor
  · intro cut
    unfold signed at cut
    split at cut <;> cases cut
    · exact ⟨['-'], .minus, rfl⟩
    · exact ⟨['+'], .plus, rfl⟩
    · exact ⟨[], .none, rfl⟩
  · rintro ⟨sign, isSign, rfl⟩
    cases isSign with
    | none =>
      obtain ⟨first, others, digit, rfl, isDigit⟩ := grouped.begins
      have unsigned : first ≠ '-' ∧ first ≠ '+' := by
        constructor
        · rintro rfl
          cases isDigit.symm.trans (by decide : Text.digitValue? '-' = none)
        · rintro rfl
          cases isDigit.symm.trans (by decide : Text.digitValue? '+' = none)
      simp [signed, unsigned]
    | plus => rfl
    | minus => rfl

/-- A sign is not a margin. -/
theorem isMargin_of_isSign {sign : List Char} {negative : Bool} (isSign : IsSign sign negative) :
    ∀ c ∈ sign, isMargin c = false := by
  cases isSign <;> decide

end

/-- A text is read as a number if and only if it writes the number. -/
theorem whole?_eq_some_iff (text : String) (number : Int) :
    whole? text = some number ↔ Writes text.toList number := by
  constructor
  · intro read
    obtain ⟨before, after, cut, goes, goesToo⟩ := Text.exists_trim isMargin text.toList
    rcases split : signed (Text.trim isMargin text.toList) with ⟨negative, letters⟩
    simp only [whole?, split] at read
    obtain ⟨digits, readDigits, rest⟩ := Option.bind_eq_some_iff.mp read
    have grouped := groupedDigits?_eq_some_iff.mp readDigits
    obtain ⟨sign, isSign, same⟩ := (signed_eq_iff grouped).mp split
    split at rest
    · cases rest
    · rename_i short
      cases rest
      rw [cut, same, ofDigits_eq, List.append_assoc]
      exact .between goes isSign grouped (Nat.le_of_not_lt short) goesToo
  · intro writes
    generalize shown : text.toList = written at writes
    cases writes with
    | @between before sign letters after negative digits goes isSign grouped short goesToo =>
      have stays : ∀ c ∈ sign ++ letters, isMargin c = false :=
        List.forall_mem_append.mpr ⟨isMargin_of_isSign isSign, grouped.stays⟩
      have nonempty : sign ++ letters ≠ [] := by
        obtain ⟨first, others, digit, rfl, -⟩ := grouped.begins
        simp
      unfold whole?
      rw [shown, Text.trim_between goes stays nonempty goesToo, (signed_eq_iff grouped).mpr ⟨sign, isSign, rfl⟩]
      simp [groupedDigits?_eq_some_iff.mpr grouped, Nat.not_lt.mpr short, ofDigits_eq]

/-- What is written is no blank text. -/
theorem Writes.visible {text : List Char} {number : Int} (writes : Writes text number) :
    ∃ c ∈ text, Text.isBlank c = false := by
  cases writes with
  | between goes isSign grouped short goesToo =>
    obtain ⟨first, others, digit, rfl, isDigit⟩ := grouped.begins
    refine ⟨first, by simp, Text.isBlank_of_isDigit ?_⟩
    rw [Text.isDigit, isDigit]
    rfl

/-! ### Cutting to a whole number -/

/-- The whole number that remains of a number without its fraction. -/
def cutOff (value : ℚ) : ℤ := if 0 ≤ value then ⌊value⌋ else ⌈value⌉

/-- The value of a finite binary number. -/
def valueOf (negative : Bool) (significand : Nat) (exponent : Int) : ℚ :=
  if negative then -(significand * 2 ^ exponent) else significand * 2 ^ exponent

/-- A number below zero is cut as the one above zero, so towards zero. -/
theorem cutOff_neg {value : ℚ} (natural : 0 ≤ value) : cutOff (-value) = -⌊value⌋ := by
  unfold cutOff
  split
  · rename_i other
    have zero : value = 0 := le_antisymm (neg_nonneg.mp other) natural
    simp [zero]
  · exact Int.ceil_neg

/-- Whole powers of two are multiplied and others divided by, which drops the fraction. -/
theorem floor_magnitude (significand : Nat) (exponent : Int) :
    ⌊(significand : ℚ) * 2 ^ exponent⌋ =
      ((if 0 ≤ exponent then significand * Nat.pow 2 exponent.toNat
        else significand / Nat.pow 2 (-exponent).toNat : Nat) : Int) := by
  split
  · rename_i natural
    obtain ⟨count, rfl⟩ := Int.eq_ofNat_of_zero_le natural
    have whole : (significand : ℚ) * 2 ^ (count : Int) = (significand * Nat.pow 2 count : Nat) := by simp
    rw [whole, Int.floor_natCast, Int.toNat_natCast]
  · rename_i negative
    obtain ⟨count, rfl⟩ : ∃ count : Nat, exponent = -count := ⟨exponent.natAbs, by omega⟩
    have divided : (significand : ℚ) * 2 ^ (-count : Int) = significand / (Nat.pow 2 count : Nat) := by
      simp [div_eq_mul_inv]
    rw [divided, Rat.floor_natCast_div_natCast, Int.neg_neg, Int.toNat_natCast, Int.natCast_div]

/-- A finite number is cut towards zero. -/
theorem truncate?_finite (negative : Bool) (significand : Nat) (exponent : Int) :
    (Binary64.finite negative significand exponent).truncate? =
      some (cutOff (valueOf negative significand exponent)) := by
  have natural : (0 : ℚ) ≤ significand * 2 ^ exponent := by positivity
  cases negative with
  | false => simp only [Binary64.truncate?, valueOf, cutOff, natural, ← floor_magnitude, if_true, if_false,
      Bool.false_eq_true]
  | true => simp only [Binary64.truncate?, valueOf, cutOff_neg natural, ← floor_magnitude, if_true]

end Number

end TreeBuild
