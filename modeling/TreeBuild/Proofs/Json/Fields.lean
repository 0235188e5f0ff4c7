import TreeBuild.Json.Basic

/-!
# Stored fields

Storing a value under a name leaves the fields with other names as they are and where they are. A name that is
new comes last.
-/
namespace TreeBuild.Json.Fields

/-! ### What is stored -/

/-- The names of fields in which one was put are that name and those from before. -/
theorem mem_put {name other : Text.Units} {value : Json} {fields : Fields} :
    other ∈ (fields.put name value).map Prod.fst ↔ other = name ∨ other ∈ fields.map Prod.fst := by
  induction fields with
  | nil => simp [put]
  | cons field rest inductionHypothesis =>
    obtain ⟨key, old⟩ := field
    by_cases same : key = name
    · simp [put, same]
    · simp only [put, if_neg same, List.map_cons, List.mem_cons, inductionHypothesis]
      exact or_left_comm

/-- What is in an object that a value has been stored in is the value or has been there before. -/
theorem mem_values_put {name : Text.Units} {value other : Json} {fields : Fields}
    (member : other ∈ (fields.put name value).map Prod.snd) : other = value ∨ other ∈ fields.map Prod.snd := by
  induction fields with
  | nil => simpa [put] using member
  | cons field rest inductionHypothesis =>
    obtain ⟨key, old⟩ := field
    rw [put] at member
    split at member
    · exact (List.mem_cons.mp member).imp_right fun later => List.mem_cons_of_mem _ later
    · rcases List.mem_cons.mp member with rfl | later
      · exact .inr List.mem_cons_self
      · exact (inductionHypothesis later).imp_right fun later => List.mem_cons_of_mem _ later

/-- A value that is stored under a new name comes last. -/
theorem put_of_notMem {name : Text.Units} {fields : Fields} (fresh : name ∉ fields.map Prod.fst)
    (value : Json) : fields.put name value = fields ++ [(name, value)] := by
  induction fields with
  | nil => rfl
  | cons field rest inductionHypothesis =>
    obtain ⟨differs, others⟩ := not_or.mp (mt List.mem_cons.mpr fresh)
    rw [put, if_neg (Ne.symm differs), inductionHypothesis others, List.cons_append]

/-! ### What is left alone -/

/-- The fields that have none of some names. -/
def without (names : List String) (fields : Fields) : Fields :=
  fields.filter fun field => field.1 ∉ names.map Text.Units.ofString

variable {fields : Fields} {name : String} {value : Json}

/-- Storing a value leaves the fields with other names where they are. -/
theorem without_set {names : List String} (member : name ∈ names) :
    (fields.set name value).without names = fields.without names := by
  have named : Text.Units.ofString name ∈ names.map Text.Units.ofString := List.mem_map_of_mem member
  unfold set without
  induction fields with
  | nil => simp only [put, List.filter_cons, named, not_true, decide_false, Bool.false_eq_true, if_false]
  | cons field rest inductionHypothesis =>
    obtain ⟨key, old⟩ := field
    by_cases same : key = Text.Units.ofString name
    · simp only [put, same, if_true, List.filter_cons, named, not_true, decide_false, Bool.false_eq_true,
        if_false]
    · simp only [put, same, if_false, List.filter_cons, inductionHypothesis]

/-- A field that may be set does not matter without it. -/
theorem without_setIfGiven {names : List String} (member : name ∈ names) (value : Option Json) :
    (fields.setIfGiven name value).without names = fields.without names := by
  cases value with
  | none => rfl
  | some value => exact without_set member

/-- A field has the value that was set. -/
theorem find?_set : (fields.set name value).find? name = some value := get?_put_self _ _ _

/-- Every other field keeps its value. -/
theorem find?_set_of_ne {other : String}
    (different : Text.Units.ofString other ≠ Text.Units.ofString name) :
    (fields.set name value).find? other = fields.find? other := get?_put_of_ne different _ _

/-- A field that may be set has the new value if there is one, and otherwise its old value. -/
theorem find?_setIfGiven (value : Option Json) :
    (fields.setIfGiven name value).find? name = value.or (fields.find? name) := by
  cases value with
  | none => rfl
  | some value => exact find?_set

/-- Storing the value that is there changes nothing. -/
theorem set_of_find? (found : fields.find? name = some value) : fields.set name value = fields := by
  unfold find? set at *
  induction fields with
  | nil => cases found
  | cons field rest inductionHypothesis =>
    obtain ⟨key, old⟩ := field
    by_cases same : key = Text.Units.ofString name
    · simp only [get?, same, if_true, Option.some.injEq] at found
      simp [put, same, found]
    · simp only [get?, same, if_false] at found
      simp [put, same, inductionHypothesis found]

end TreeBuild.Json.Fields
