import TreeBuild.Path.Basic

/-!
# Paths and their texts

The parts that a path gets from a text are neither empty nor a single dot, and hold no slash. A path
all of whose parts are like this is read back from its own text, so what is written on a command line
and read there again is the same path.
-/
namespace TreeBuild

/-- Cutting at a separator is what the library calls splitting. -/
theorem Text.splitAt_eq_splitOn (separator : Char) (text : List Char) :
    Text.splitAt separator text = text.splitOn separator := by
  induction text with
  | nil => rfl
  | cons c rest inductionHypothesis =>
    rw [List.splitOn_cons_eq_if_modifyHead, Text.splitAt, inductionHypothesis]
    by_cases same : c = separator
    · simp [same]
    · cases pieces : rest.splitOn separator with
      | nil => exact absurd pieces (List.splitOn_ne_nil separator rest)
      | cons piece others => simp [same]

namespace Path

/-- A part as texts have it. Two dots are such a part. -/
structure IsPart (part : String) : Prop where
  nonempty : part ≠ ""
  notDot : part ≠ "."
  noSlash : '/' ∉ part.toList

/-- A name: a part that does not lead back. -/
structure IsName (part : String) : Prop extends IsPart part where
  notBack : part ≠ ".."

/-- Every part is one that a text can have. -/
def IsProper (path : Path) : Prop := ∀ part ∈ path.parts, IsPart part

/-- Every part is a name. -/
def IsPlain (path : Path) : Prop := ∀ part ∈ path.parts, IsName part

instance (part : String) : Decidable (IsName part) :=
  decidable_of_iff ((part ≠ "" ∧ part ≠ "." ∧ '/' ∉ part.toList) ∧ part ≠ "..")
    ⟨fun ⟨⟨nonempty, notDot, noSlash⟩, notBack⟩ => ⟨⟨nonempty, notDot, noSlash⟩, notBack⟩,
      fun ⟨⟨nonempty, notDot, noSlash⟩, notBack⟩ => ⟨⟨nonempty, notDot, noSlash⟩, notBack⟩⟩

instance (path : Path) : Decidable path.IsPlain :=
  inferInstanceAs (Decidable (∀ part ∈ path.parts, IsName part))

/-- A path without special parts has no empty parts. -/
theorem IsPlain.proper {path : Path} (plain : path.IsPlain) : path.IsProper :=
  fun part member => (plain part member).toIsPart

/-- A piece between slashes has none. -/
theorem noSlash_of_mem_split {text piece : String} (member : piece ∈ Text.split '/' text) :
    '/' ∉ piece.toList := by
  rw [Text.split, Text.splitAt_eq_splitOn] at member
  obtain ⟨letters, found, rfl⟩ := List.mem_map.mp member
  rw [String.toList_ofList]
  have pieces : ∀ rest : List Char, ∀ letters ∈ rest.splitOn '/', '/' ∉ letters := by
    intro rest
    induction rest with
    | nil => simp
    | cons c rest inductionHypothesis =>
      intro letters found
      rw [List.splitOn_cons_eq_if_modifyHead] at found
      split at found
      · rcases List.mem_cons.mp found with rfl | later
        · simp
        · exact inductionHypothesis letters later
      · rename_i other
        cases cut : rest.splitOn '/' with
        | nil => exact absurd cut (List.splitOn_ne_nil _ _)
        | cons piece others =>
          rw [cut] at found inductionHypothesis
          rcases List.mem_cons.mp found with rfl | later
          · have first := inductionHypothesis piece List.mem_cons_self
            have different : '/' ≠ c := fun same => other (beq_iff_eq.mpr same.symm)
            simp [different, first]
          · exact inductionHypothesis letters (List.mem_cons_of_mem _ later)
  exact pieces text.toList letters found

/-- The path of a text has proper parts. -/
theorem ofString_proper (text : String) : (ofString text).IsProper := by
  intro part member
  obtain ⟨found, kept⟩ := List.mem_filter.mp member
  have bounds : part ≠ "" ∧ part ≠ "." := by simpa using kept
  exact ⟨bounds.1, bounds.2, noSlash_of_mem_split found⟩

/-- A single part is read as a relative path. -/
theorem ofString_of_isPart {part : String} (isPart : IsPart part) :
    ofString part = ⟨.relative, [part]⟩ := by
  have parts : partsOf part = [part] := by
    rw [partsOf, Text.split, Text.splitAt_eq_splitOn, List.splitOn_eq_singleton isPart.noSlash]
    simp [isPart.nonempty, isPart.notDot]
  have anchor : anchorOf part.toList = .relative := by
    cases letters : part.toList with
    | nil => rfl
    | cons c rest =>
      have different : c ≠ '/' := fun same => isPart.noSlash (by simp [letters, same])
      simp [anchorOf, different]
  simp only [ofString, parts, anchor]

/-- A part is put behind a path as it stands. -/
theorem div_of_isPart (path : Path) {part : String} (isPart : IsPart part) :
    path / part = ⟨path.anchor, path.parts ++ [part]⟩ := by
  change path.join (ofString part) = _
  rw [ofString_of_isPart isPart]
  rfl

/-- The name of a path is its last part, if it has any. -/
theorem name_cases (path : Path) : path.parts = [] ∧ path.name = "" ∨ path.name ∈ path.parts := by
  unfold name
  cases last : path.parts.getLast? with
  | none => exact .inl ⟨List.getLast?_eq_none_iff.mp last, rfl⟩
  | some part => exact .inr (List.mem_of_getLast? last)

/-- The letters of the parts with slashes between them. -/
def body (parts : List String) : List Char := ['/'].intercalate (parts.map String.toList)

/-- Parts that are put together with slashes are spelled as the body of a path. -/
theorem toList_intercalate_slash (parts : List String) :
    (String.intercalate "/" parts).toList = body parts := by
  simp [body]

/-- Reading the body of proper parts gives the parts, whatever of the rest is left out besides nothing. -/
theorem filter_split_body {parts : List String} (proper : ∀ part ∈ parts, IsPart part)
    {keep : String → Bool} (drops : keep "" = false) (keeps : ∀ part ∈ parts, keep part) :
    (((body parts).splitOn '/').map String.ofList).filter keep = parts := by
  cases parts with
  | nil => simp [body, drops]
  | cons first rest =>
    have pieces : ∀ letters ∈ (first :: rest).map String.toList, '/' ∉ letters := by
      intro letters member
      obtain ⟨part, found, rfl⟩ := List.mem_map.mp member
      exact (proper part found).noSlash
    have letters : ((first :: rest).map String.toList).map String.ofList = first :: rest := by
      simp
    rw [body, List.splitOn_intercalate '/' pieces (by simp), letters]
    exact List.filter_eq_self.mpr keeps

/-- The body of proper parts does not start with a slash. -/
theorem takeWhile_body {parts : List String} (proper : ∀ part ∈ parts, IsPart part) :
    (body parts).takeWhile (· = '/') = [] := by
  cases parts with
  | nil => rfl
  | cons first rest =>
    have part := proper first List.mem_cons_self
    cases letters : first.toList with
    | nil => exact absurd (String.toList_eq_nil_iff.mp letters) part.nonempty
    | cons c others =>
      have noSlash : c ≠ '/' := by
        intro slash
        exact part.noSlash (by simp [letters, slash])
      cases rest <;> simp [body, letters, noSlash]

/-- The text of an absolute path is its slashes and its body. -/
theorem toList_toString_of_isAbsolute {path : Path} (absolute : path.isAbsolute) :
    path.toString.toList = (anchorText path.anchor).toList ++ body path.parts := by
  have nonempty : anchorText path.anchor ++ String.intercalate "/" path.parts ≠ "" := by
    cases anchor : path.anchor with
    | relative => simp [isAbsolute, anchor] at absolute
    | root => simp [anchorText]
    | doubleRoot => simp [anchorText]
  rw [toString, if_neg nonempty, String.toList_append, toList_intercalate_slash]

/-- The parts of an absolute path stand between the slashes of its text. -/
theorem filter_split_toString {path : Path} (absolute : path.isAbsolute) (proper : path.IsProper)
    {keep : String → Bool} (drops : keep "" = false) (keeps : ∀ part ∈ path.parts, keep part) :
    (Text.split '/' path.toString).filter keep = path.parts := by
  have body := filter_split_body proper drops keeps
  rw [Text.split, Text.splitAt_eq_splitOn, toList_toString_of_isAbsolute absolute]
  cases anchor : path.anchor with
  | relative => simp [isAbsolute, anchor] at absolute
  | root => simpa [anchorText, List.splitOn_cons_eq_if_modifyHead, drops] using body
  | doubleRoot => simpa [anchorText, List.splitOn_cons_eq_if_modifyHead, drops] using body

/-- An absolute path with proper parts is read back from its text. -/
theorem ofString_toString {path : Path} (absolute : path.isAbsolute) (proper : path.IsProper) :
    ofString path.toString = path := by
  have text := toList_toString_of_isAbsolute absolute
  have leading := takeWhile_body proper
  have parts : partsOf path.toString = path.parts := by
    refine filter_split_toString absolute proper (by decide) fun part member => ?_
    simpa using And.intro (proper part member).nonempty (proper part member).notDot
  have anchor : anchorOf path.toString.toList = path.anchor := by
    rw [anchorOf, text]
    cases anchor : path.anchor with
    | relative => simp [isAbsolute, anchor] at absolute
    | root => simp [anchorText, leading]
    | doubleRoot => simp [anchorText, leading]
  simp only [ofString, parts, anchor]

/-- The body of proper parts does not end with a slash. -/
theorem getLast?_body {parts : List String} (proper : ∀ part ∈ parts, IsPart part)
    (nonempty : parts ≠ []) : ∃ c, (body parts).getLast? = some c ∧ c ≠ '/' := by
  induction parts with
  | nil => exact absurd rfl nonempty
  | cons first rest inductionHypothesis =>
    have part := proper first List.mem_cons_self
    cases rest with
    | nil =>
      have letters : first.toList ≠ [] := fun none => part.nonempty (String.toList_eq_nil_iff.mp none)
      obtain ⟨c, last⟩ := Option.isSome_iff_exists.mp (List.getLast?_isSome.mpr letters)
      refine ⟨c, by simpa [body] using last, fun slash => part.noSlash ?_⟩
      exact slash ▸ List.mem_of_getLast? last
    | cons second others =>
      obtain ⟨c, last, noSlash⟩ := inductionHypothesis
        (fun other member => proper other (List.mem_cons_of_mem _ member)) (by simp)
      have cut : body (first :: second :: others) = first.toList ++ '/' :: body (second :: others) := by
        simp [body]
      refine ⟨c, ?_, noSlash⟩
      rw [cut, List.getLast?_append, List.getLast?_cons, last]
      rfl

/-- The text of an absolute path with parts does not end with a slash. -/
theorem getLast?_toString {path : Path} (absolute : path.isAbsolute) (proper : path.IsProper)
    (nonempty : path.parts ≠ []) : ∃ c, path.toString.toList.getLast? = some c ∧ c ≠ '/' := by
  obtain ⟨c, last, noSlash⟩ := getLast?_body proper nonempty
  refine ⟨c, ?_, noSlash⟩
  rw [toList_toString_of_isAbsolute absolute, List.getLast?_append, last]
  rfl

end Path

end TreeBuild
