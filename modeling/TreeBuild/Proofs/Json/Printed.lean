import TreeBuild.Proofs.Json.Fields
import TreeBuild.Proofs.Json.Rereading
import TreeBuild.Proofs.Text.Encoding

/-!
# Printed values as files

What has been printed consists of ASCII characters, with no line ends but line feeds. It therefore comes
back unchanged when it is written to a file and read from there. The names in an object that is read differ from
each other. What every step of the reader keeps, the value that it comes to has.
-/
namespace TreeBuild

namespace Text

/-- A character of ASCII that is no carriage return. -/
def IsBasic (c : Char) : Prop := c.toNat < 128 ∧ c ≠ '\r'

instance (c : Char) : Decidable (IsBasic c) := inferInstanceAs (Decidable (_ ∧ _))

/-- A text without a carriage return has its line ends as they are. -/
theorem unifyLineEnds_of_isBasic {text : List Char} (basic : ∀ c ∈ text, IsBasic c) :
    unifyLineEnds text = text :=
  unifyLineEnds_of_notMem fun member => (basic _ member).2 rfl

end Text

namespace Json

open Text

/-! ### Characters -/

/-- The characters of numbers and names are basic. -/
theorem isBasic_of_isWordChar {c : Char} (word : isWordChar c) : IsBasic c := by
  obtain ⟨least, most⟩ := toNat_of_isWordChar word
  refine ⟨by omega, ?_⟩
  rintro rfl
  exact absurd least (by decide)

/-- The letters of escapes are basic. -/
theorem isBasic_of_escaped {letter stands : Char} (known : escaped? letter = some stands) : IsBasic letter := by
  unfold escaped? at known
  split at known <;> first | decide | cases known

/-- A code unit is printed in basic characters, whatever it is. -/
theorem isBasic_writeUnit (unit : UInt16) : ∀ c ∈ writeUnit unit, IsBasic c := by
  have escape : IsBasic '\\' := by decide
  have printed := printed_writeUnit unit
  generalize writeUnit unit = text at printed
  cases printed with
  | letter known => exact List.forall_mem_cons.mpr ⟨escape, List.forall_mem_singleton.mpr (isBasic_of_escaped known)⟩
  | plain _ _ least most =>
    have visible : ∀ code < 127, 32 ≤ code → IsBasic (Char.ofNat code) := by decide
    exact List.forall_mem_singleton.mpr (visible _ most least)
  | code =>
    have digit : ∀ code < 16, IsBasic (Nat.digitChar code) := by decide
    have digits := @toDigits_of_lt unit.toNat 3 unit.toNat_lt
    rw [Text.hex, String.toList_ofList, digits]
    refine List.forall_mem_cons.mpr ⟨escape, List.forall_mem_cons.mpr ⟨by decide, fun c member => ?_⟩⟩
    rw [List.mem_reverse, List.mem_map] at member
    obtain ⟨place, -, rfl⟩ := member
    exact digit _ (Nat.mod_lt _ (by decide))

/-- A text is printed in basic characters. -/
theorem isBasic_writeText (units : Text.Units) : ∀ c ∈ writeText units, IsBasic c := by
  intro c member
  simp only [writeText, List.cons_append, List.mem_cons, List.mem_append, List.mem_flatMap,
    List.not_mem_nil, or_false] at member
  rcases member with rfl | ⟨unit, -, member⟩ | rfl
  · decide
  · exact isBasic_writeUnit unit c member
  · decide

/-- A value without parts is printed in basic characters. -/
theorem isBasic_writeScalar (value : Json) : ∀ c ∈ writeScalar value, IsBasic c := by
  cases value with
  | null | bool _ | int _ | float _ =>
    exact fun c member => isBasic_of_isWordChar ((isWordChar_writeScalar rfl).2 c member)
  | str units => exact isBasic_writeText units
  | arr _ => exact (by decide : ∀ c ∈ ['[', ']'], IsBasic c)
  | obj _ => exact (by decide : ∀ c ∈ ['\x7b', '\x7d'], IsBasic c)

/-- What separates the members of a container is basic. -/
theorem isBasic_lineStart (first : Bool) (depth : Nat) : ∀ c ∈ lineStart first depth, IsBasic c := by
  have blank : ∀ c ∈ newline depth, IsBasic c := by
    intro c member
    rcases List.mem_cons.mp member with rfl | blank
    · decide
    · rw [(List.mem_replicate.mp blank).2]
      decide
  cases first with
  | true => exact blank
  | false =>
    intro c member
    rcases List.mem_cons.mp member with rfl | member
    · decide
    · exact blank c member

mutual

/-- A value is printed with basic characters. -/
theorem isBasic_writeIndented (depth : Nat) : ∀ (value : Json) {rest : List Char},
    (∀ c ∈ rest, IsBasic c) → ∀ c ∈ writeIndented depth value rest, IsBasic c
  | .null, _, others | .bool _, _, others | .int _, _, others | .float _, _, others
  | .str _, _, others | .arr [], _, others | .obj [], _, others =>
    List.forall_mem_append.mpr ⟨isBasic_writeScalar _, others⟩
  | .arr (item :: items), _, others => by
    rw [writeIndented]
    exact List.forall_mem_cons.mpr ⟨by decide, isBasic_writeIndentedItems true (depth + 1) (item :: items)
      (List.forall_mem_append.mpr ⟨isBasic_lineStart true depth,
        List.forall_mem_cons.mpr ⟨by decide, others⟩⟩)⟩
  | .obj ((name, item) :: fields), _, others => by
    rw [writeIndented]
    exact List.forall_mem_cons.mpr ⟨by decide, isBasic_writeIndentedFields true (depth + 1)
      ((name, item) :: fields) (List.forall_mem_append.mpr ⟨isBasic_lineStart true depth,
        List.forall_mem_cons.mpr ⟨by decide, others⟩⟩)⟩

/-- Items are printed in basic characters. -/
theorem isBasic_writeIndentedItems (first : Bool) (depth : Nat) : ∀ (items : List Json) {rest : List Char},
    (∀ c ∈ rest, IsBasic c) → ∀ c ∈ writeIndentedItems first depth items rest, IsBasic c
  | [], _, others => others
  | item :: items, _, others => by
    rw [writeIndentedItems]
    exact List.forall_mem_append.mpr ⟨isBasic_lineStart first depth, isBasic_writeIndented depth item
      (isBasic_writeIndentedItems false depth items others)⟩

/-- Fields are printed in basic characters. -/
theorem isBasic_writeIndentedFields (first : Bool) (depth : Nat) : ∀ (fields : Fields) {rest : List Char},
    (∀ c ∈ rest, IsBasic c) → ∀ c ∈ writeIndentedFields first depth fields rest, IsBasic c
  | [], _, others => others
  | (name, item) :: fields, _, others => by
    rw [writeIndentedFields]
    exact List.forall_mem_append.mpr ⟨List.forall_mem_append.mpr
      ⟨isBasic_lineStart first depth, isBasic_writeText name⟩, List.forall_mem_cons.mpr ⟨by decide,
        List.forall_mem_cons.mpr ⟨by decide, isBasic_writeIndented depth item
          (isBasic_writeIndentedFields false depth fields others)⟩⟩⟩

end

/-! ### Names -/

/-- The names of fields differ from each other. -/
def Fields.IsDistinct (fields : Fields) : Prop := (fields.map Prod.fst).Nodup

/-- Putting in a field keeps the names apart. -/
theorem Fields.IsDistinct.put {fields : Fields} (distinct : fields.IsDistinct) (name : Text.Units)
    (value : Json) : (fields.put name value).IsDistinct := by
  induction fields with
  | nil => exact List.nodup_cons.mpr ⟨List.not_mem_nil, List.nodup_nil⟩
  | cons field rest inductionHypothesis =>
    obtain ⟨key, old⟩ := field
    obtain ⟨fresh, others⟩ := List.nodup_cons.mp distinct
    by_cases same : key = name
    · rw [Fields.put, if_pos same]
      exact distinct
    · rw [Fields.put, if_neg same]
      refine List.nodup_cons.mpr ⟨?_, inductionHypothesis others⟩
      rw [mem_put]
      rintro (here | there)
      · exact same here
      · exact fresh there

/-- The names in a value differ from each other, if it is an object. -/
def IsDistinct : Json → Prop
  | .obj fields => Fields.IsDistinct fields
  | _ => True

/-- The names in a container that is open differ from each other. -/
def Frame.IsDistinct : Frame → Prop
  | .array _ => True
  | .object before | .named before _ => before.IsDistinct

/-- The names in every object that a reader has begun or ended differ from each other. -/
structure State.IsDistinct (state : State) : Prop where
  frames : ∀ frame ∈ state.frames, frame.IsDistinct
  after : ∀ value, state.expecting = .after value → value.IsDistinct

/-- A word or a number is no object. -/
theorem isDistinct_of_isWord {value : Json} (word : value.isWord) : value.IsDistinct := by
  cases value <;> trivial

/-- No lexeme stands for an object. -/
theorem isWord_of_tokenAt {text : List Char} {value : Json} (scalar : (tokenAt text).1 = .scalar value) :
    value.isWord := by
  have names : ∀ name ∈ words, name.2.isWord := by decide
  unfold tokenAt at scalar
  split at scalar
  case h_7 => split at scalar <;> cases scalar
  case h_8 =>
    split at scalar
    · rename_i name found _
      cases scalar
      exact names _ (List.mem_of_find?_eq_some ‹_›)
    · split at scalar
      split at scalar
      · rename_i number
        cases scalar
        obtain ⟨other, same, isWord⟩ := (numberFrom_front number).1 rfl
        cases same
        exact isWord
      · cases scalar
  all_goals cases scalar

/-- A step keeps names apart. -/
theorem State.IsDistinct.advance {state next : State} {token : Token}
    (scalar : ∀ value, token = .scalar value → value.isWord) (advances : Advances state token next)
    (distinct : state.IsDistinct) : next.IsDistinct := by
  have inside := distinct.frames
  cases advances with
  | openArray => exact ⟨List.forall_mem_cons.mpr ⟨trivial, inside⟩, nofun⟩
  | openObject => exact ⟨List.forall_mem_cons.mpr ⟨List.nodup_nil, inside⟩, nofun⟩
  | text => exact ⟨inside, by rintro _ ⟨⟩; trivial⟩
  | scalar _ value => exact ⟨inside, by rintro _ ⟨⟩; exact isDistinct_of_isWord (scalar value rfl)⟩
  | name => exact ⟨inside, nofun⟩
  | colon | nextItem =>
    obtain ⟨before, outside⟩ := List.forall_mem_cons.mp inside
    exact ⟨List.forall_mem_cons.mpr ⟨before, outside⟩, nofun⟩
  | nextField =>
    obtain ⟨before, outside⟩ := List.forall_mem_cons.mp inside
    exact ⟨List.forall_mem_cons.mpr ⟨Fields.IsDistinct.put before _ _, outside⟩, nofun⟩
  | emptyArray | closeArray => exact ⟨(List.forall_mem_cons.mp inside).2, by rintro _ ⟨⟩; trivial⟩
  | emptyObject => exact ⟨(List.forall_mem_cons.mp inside).2, by rintro _ ⟨⟩; exact List.nodup_nil⟩
  | closeObject =>
    obtain ⟨before, outside⟩ := List.forall_mem_cons.mp inside
    exact ⟨outside, by rintro _ ⟨⟩; exact Fields.IsDistinct.put before _ _⟩

/-- What is read from a text is read from the first state on. -/
theorem reads_of_read {text : String} {value : Json} (told : read text = .ok value) :
    Reads ⟨.value, []⟩ text.toList value := by
  unfold read at told
  dsimp only at told
  split at told
  · cases told
  · refine ⟨text.toList.length, 0, ?_⟩
    rcases found : readLexemes text.toList with stop | other
    · rw [found] at told
      cases told
    · rw [found] at told
      cases told
      exact found

/-- What the first state has, and a step keeps if the words and numbers in the text are of a kind, the last state
has. -/
theorem kept_of_read {known : Json → Prop} {kept : State → Prop}
    (words : ∀ {text value}, (tokenAt text).1 = .scalar value → known value)
    (steps : ∀ {state next token}, (∀ value, token = .scalar value → known value) → Advances state token next →
      kept state → kept next)
    (start : kept ⟨.value, []⟩) {text : String} {value : Json} (told : read text = .ok value) :
    kept ⟨.after value, []⟩ := by
  obtain ⟨length, offset, told⟩ := reads_of_read told
  refine ends_of_readFrom steps (fun lexeme member value scalar => ?_) start told
  obtain ⟨place, same⟩ := exists_tokenAt _ _ _ member
  exact words (same ▸ scalar)

mutual

/-- What stands behind a printed value is put there in any case. -/
theorem writeIndented_append (depth : Nat) (more : List Char) : ∀ (value : Json) (rest : List Char),
    writeIndented depth value (rest ++ more) = writeIndented depth value rest ++ more
  | .null, _ | .bool _, _ | .int _, _ | .float _, _ | .str _, _ | .arr [], _ | .obj [], _ =>
    (List.append_assoc _ _ _).symm
  | .arr (item :: items), rest => by
    rw [writeIndented, writeIndented, List.cons_append,
      ← writeIndentedItems_append true (depth + 1) more (item :: items), List.append_assoc, List.cons_append]
  | .obj ((name, item) :: fields), rest => by
    rw [writeIndented, writeIndented, List.cons_append,
      ← writeIndentedFields_append true (depth + 1) more ((name, item) :: fields), List.append_assoc,
      List.cons_append]

/-- What follows printed items does not change them. -/
theorem writeIndentedItems_append (first : Bool) (depth : Nat) (more : List Char) :
    ∀ (items : List Json) (rest : List Char), writeIndentedItems first depth items (rest ++ more) =
      writeIndentedItems first depth items rest ++ more
  | [], _ => rfl
  | item :: items, rest => by
    rw [writeIndentedItems, writeIndentedItems, writeIndentedItems_append false depth more items,
      writeIndented_append depth more item, List.append_assoc]

/-- What follows printed fields does not change them. -/
theorem writeIndentedFields_append (first : Bool) (depth : Nat) (more : List Char) :
    ∀ (fields : Fields) (rest : List Char), writeIndentedFields first depth fields (rest ++ more) =
      writeIndentedFields first depth fields rest ++ more
  | [], _ => rfl
  | (name, item) :: fields, rest => by
    rw [writeIndentedFields, writeIndentedFields, writeIndentedFields_append false depth more fields,
      writeIndented_append depth more item]
    simp

end

end Json

end TreeBuild
