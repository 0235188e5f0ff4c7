import TreeBuild.Json.Reader
import TreeBuild.Proofs.Number.Whole
import TreeBuild.Session
import TreeBuild.Watch.Coordinator

/-!
# Settings that are whole numbers

A setting amounts to a whole number if it is one, is a truth value, is a number whose fraction can be dropped, or
is a text that writes one. A tolerant reader gives this number. For every other setting it gives the default, and
it complains unless the setting is missing or blank. One kind of setting has no place here: an infinite number,
which a long numeral is read as, amounts to nothing but is not tolerated either.

A setting from the environment is a text or missing, so it is always tolerated.
-/
namespace TreeBuild

namespace Text.Units

/-! ### Texts as code units -/

/-- A text that can be read as characters is read as the same ones if replacements are allowed. -/
theorem toStringLossy_of_toString? {units : Units} {text : String} (spelled : units.toString? = some text) :
    units.toStringLossy = text := by
  obtain ⟨letters, read, rfl⟩ := Option.map_eq_some_iff.mp spelled
  clear spelled
  rw [toStringLossy]
  congr 1
  generalize units.codes = codes at read ⊢
  induction codes generalizing letters with
  | nil =>
    cases read
    rfl
  | cons code rest inductionHypothesis =>
    rw [List.mapM_cons] at read
    obtain ⟨c, valid, others⟩ := Option.bind_eq_some_iff.mp read
    obtain ⟨more, behind, same⟩ := Option.bind_eq_some_iff.mp others
    cases same
    split at valid
    · rename_i isValid
      cases valid
      rw [List.map_cons, if_pos isValid, inductionHypothesis more behind]
    · cases valid

end Text.Units

namespace Setting

/-- The whole number that a setting amounts to. -/
inductive Amounts : Json → Int → Prop where
  | bool (value : Bool) : Amounts (.bool value) (if value then 1 else 0)
  | int (value : Int) : Amounts (.int value) value
  | float (negative : Bool) (significand : Nat) (exponent : Int) :
      Amounts (.float (.finite negative significand exponent))
        (Number.cutOff (Number.valueOf negative significand exponent))
  | str {units : Text.Units} {text : String} {number : Int} (spelled : units.toString? = some text)
      (writes : Number.Writes text.toList number) : Amounts (.str units) number

/-- A setting is read as a number if and only if it amounts to the number. -/
theorem whole_eq_number_iff (value : Json) (number : Int) :
    whole value = .number number ↔ Amounts value number := by
  constructor
  · intro read
    cases value with
    | null | arr _ | obj _ => cases read
    | bool truth =>
      cases read
      exact .bool truth
    | int =>
      cases read
      exact .int _
    | float value =>
      cases value with
      | finite negative significand exponent =>
        simp only [whole, Number.truncate?_finite] at read
        cases read
        exact .float negative significand exponent
      | infinity negative => cases read
      | nan => cases read
    | str units =>
      cases found : units.toString?.bind Number.whole? with
      | none => simp [whole, found] at read
      | some known =>
        simp only [whole, found] at read
        cases read
        obtain ⟨text, spelled, written⟩ := Option.bind_eq_some_iff.mp found
        exact .str spelled ((Number.whole?_eq_some_iff text number).mp written)
  · intro amounts
    cases amounts with
    | bool value => rfl
    | int value => rfl
    | float negative significand exponent => simp only [whole, Number.truncate?_finite]
    | str spelled writes => simp [whole, spelled, (Number.whole?_eq_some_iff _ number).mpr writes]

/-- A setting amounts to at most one number. -/
theorem Amounts.unique {value : Json} {number other : Int} (amounts : Amounts value number)
    (too : Amounts value other) : number = other := by
  have same := (whole_eq_number_iff value number).mpr amounts
  rw [(whole_eq_number_iff value other).mpr too] at same
  cases same
  rfl

/-- Only an infinite number is out of all bounds. -/
theorem whole_eq_unbounded_iff (value : Json) :
    whole value = .unbounded ↔ ∃ negative, value = .float (.infinity negative) := by
  constructor
  · intro read
    cases value with
    | null | bool _ | int _ | arr _ | obj _ => cases read
    | float value =>
      cases value with
      | finite negative significand exponent =>
        simp only [whole, Number.truncate?_finite] at read
        cases read
      | infinity negative => exact ⟨negative, rfl⟩
      | nan => cases read
    | str units =>
      simp only [whole] at read
      split at read <;> cases read
  · rintro ⟨negative, rfl⟩
    rfl

/-- A missing or blank setting amounts to no number. -/
theorem not_amounts_of_isBlank {value : Json} (blank : isBlank value) (number : Int) :
    ¬ Amounts value number := by
  intro amounts
  cases amounts with
  | bool | int | float => cases blank
  | str spelled writes =>
    obtain ⟨c, member, visible⟩ := writes.visible
    rw [isBlank, Text.Units.toStringLossy_of_toString? spelled] at blank
    have gone : Text.isBlank c := List.all_eq_true.mp blank c member
    rw [visible] at gone
    cases gone

/-! ### What a tolerant reader gives and says -/

section

variable {α : Type} {value : Json} {default : α} {ofNumber : Int → α} {context : String}

/-- A setting that is neither missing nor blank but amounts to no number. -/
structure IsOdd (value : Json) : Prop where
  visible : isBlank value = false
  numberless : ∀ number, ¬ Amounts value number

/-- A tolerant reader gives the number that a setting amounts to and says nothing. -/
theorem toWhole?_of_amounts {number : Int} (amounts : Amounts value number) :
    toWhole? value default ofNumber context = some { value := ofNumber number } := by
  have visible : ¬ isBlank value := fun blank => not_amounts_of_isBlank blank number amounts
  rw [toWhole?, if_neg visible, (whole_eq_number_iff value number).mpr amounts]

/-- A tolerant reader gives the default for a missing or blank setting and says nothing. -/
theorem toWhole?_of_isBlank (blank : isBlank value) :
    toWhole? value default ofNumber context = some { value := default } := by
  rw [toWhole?, if_pos blank]

/-- A tolerant reader gives the default for an odd setting and complains, unless the setting is infinite. -/
theorem toWhole?_of_isOdd (odd : IsOdd value) (bounded : ∀ negative, value ≠ .float (.infinity negative)) :
    toWhole? value default ofNumber context =
      some { value := default, complaint := some (complaint "integer" context value) } := by
  have visible : ¬ isBlank value := by simp [odd.visible]
  rw [toWhole?, if_neg visible]
  cases read : whole value with
  | number number => exact absurd ((whole_eq_number_iff value number).mp read) (odd.numberless number)
  | unusable => rfl
  | unbounded =>
    obtain ⟨negative, infinite⟩ := (whole_eq_unbounded_iff value).mp read
    exact absurd infinite (bounded negative)

/-- Every setting is blank, a number or odd. -/
theorem setting_cases (value : Json) : isBlank value ∨ (∃ number, Amounts value number) ∨ IsOdd value := by
  by_cases blank : isBlank value
  · exact .inl blank
  by_cases numbered : ∃ number, Amounts value number
  · exact .inr (.inl numbered)
  · exact .inr (.inr ⟨by simpa using blank, not_exists.mp numbered⟩)

/-- A tolerant reader gives an answer for every setting that is not infinite. -/
theorem exists_toWhole? (bounded : ∀ negative, value ≠ .float (.infinity negative)) :
    ∃ read, toWhole? value default ofNumber context = some read := by
  rcases setting_cases value with blank | ⟨number, amounts⟩ | odd
  · exact ⟨_, toWhole?_of_isBlank blank⟩
  · exact ⟨_, toWhole?_of_amounts amounts⟩
  · exact ⟨_, toWhole?_of_isOdd odd bounded⟩

end

/-- A setting from the environment is never infinite. -/
theorem ofVariable_bounded (environment : Environment) (name : String) (negative : Bool) :
    ofVariable environment name ≠ .float (.infinity negative) := by
  unfold ofVariable Json.ofOption
  split <;> simp [Json.ofString]

/-- The limit of rebuilds is what a tolerant reader gives for its variable, raised to one. -/
theorem limitOf_eq (environment : Environment) :
    ∃ read, toWhole? (ofVariable environment "WATCH_MAX_CONCURRENCY") (Coordinator.standardLimit : Int) id
        "WATCH_MAX_CONCURRENCY" = some read ∧
      Coordinator.limitOf environment = { read with value := max 1 read.value } := by
  have bounded := ofVariable_bounded environment "WATCH_MAX_CONCURRENCY"
  obtain ⟨read, given⟩ := @exists_toWhole? Int _ Coordinator.standardLimit id "WATCH_MAX_CONCURRENCY" bounded
  refine ⟨read, given, ?_⟩
  rw [Coordinator.limitOf, given]
  rfl

/-- Whatever a setting is, unless it is an infinite number, a tolerant reader gives an answer: the number that
the setting amounts to, or the default if it amounts to none. One complaint goes to the log, and only if a
logger takes it and the setting is neither missing nor blank nor a number. So the limit of rebuilds is at least
one, whatever its variable holds. -/
theorem toWhole_tolerates {α : Type} (value : Json) (default : α) (ofNumber : Int → α) (context : String)
    (bounded : ∀ negative, value ≠ .float (.infinity negative)) :
    (∃ read, toWhole? value default ofNumber context = some read ∧
      (∀ number, Amounts value number → read.value = ofNumber number) ∧
      ((∀ number, ¬ Amounts value number) → read.value = default) ∧
      (∀ logger, read.records logger ≠ [] ↔ logger.isSome ∧ IsOdd value) ∧
      (∀ source, IsOdd value → read.records (some source) =
        [{ source, level := .warning, message := complaint "integer" context value }])) ∧
    ∀ environment, 1 ≤ (Coordinator.limitOf environment).value := by
  constructor
  · rcases setting_cases value with blank | ⟨number, amounts⟩ | odd
    · have sober : ¬ IsOdd value := fun odd => absurd blank (by simp [odd.visible])
      refine ⟨_, toWhole?_of_isBlank blank, ?_, fun _ => rfl, ?_, fun _ odd => absurd odd sober⟩
      · exact fun number amounts => absurd amounts (not_amounts_of_isBlank blank number)
      · simp [Tolerated.records, sober]
    · have sober : ¬ IsOdd value := fun odd => odd.numberless number amounts
      refine ⟨_, toWhole?_of_amounts amounts, ?_, ?_, ?_, fun _ odd => absurd odd sober⟩
      · exact fun other too => congrArg ofNumber (amounts.unique too)
      · exact fun numberless => absurd amounts (numberless number)
      · simp [Tolerated.records, sober]
    · refine ⟨_, toWhole?_of_isOdd odd bounded, ?_, fun _ => rfl, ?_, fun _ _ => rfl⟩
      · exact fun number amounts => absurd amounts (odd.numberless number)
      · intro logger
        cases logger <;> simp [Tolerated.records, odd]
  · intro environment
    obtain ⟨read, -, limit⟩ := limitOf_eq environment
    rw [limit]
    exact le_max_left 1 read.value

/-- Two underscores side by side are no number: the default is given and one warning is logged, and a limit
below one that is written with digits of another script is raised to one. -/
theorem toWhole_tolerates_underscores :
    let value := Json.ofString "1__0"
    (∀ negative, value ≠ .float (.infinity negative)) ∧
    (∃ read, toWhole? value 42 id "limit" = some read ∧ read.value = 42 ∧
      read.records (some "modbuild.watch") =
        [{ source := "modbuild.watch", level := .warning, message := "Ignoring non-integer limit: '1__0'" }] ∧
      read.records none = []) ∧
    1 ≤ (Coordinator.limitOf [("WATCH_MAX_CONCURRENCY", " -٣\u00a0")]).value := by
  intro value
  have bounded (negative : Bool) : value ≠ .float (.infinity negative) := by simp [value, Json.ofString]
  have unusable : whole value = .unusable := by decide +kernel
  have odd : IsOdd value := by
    refine ⟨by decide +kernel, fun number amounts => ?_⟩
    rw [(whole_eq_number_iff value number).mpr amounts] at unusable
    cases unusable
  obtain ⟨⟨read, given, -, default, loud, said⟩, atLeast⟩ := toWhole_tolerates value 42 id "limit" bounded
  refine ⟨bounded, ⟨read, given, default odd.numberless, ?_, ?_⟩, atLeast _⟩
  · have shown : complaint "integer" "limit" value = "Ignoring non-integer limit: '1__0'" := by decide +kernel
    rw [said "modbuild.watch" odd, shown]
  · by_contra some
    cases ((loud none).mp some).1

/-- A numeral that is too great for a binary number is read as an infinite one, which is not tolerated: there is
no answer, not even the default. -/
theorem toWhole_fails_on_infinity :
    Json.read "1e400" = .ok (.float (.infinity false)) ∧
      ¬ ∃ read, toWhole? (.float (.infinity false)) (3 : Int) id "" = some read := by
  constructor
  · rfl
  · rintro ⟨read, given⟩
    cases given

end Setting

end TreeBuild
