import TreeBuild.Text.Scan

/-!
# Scanned texts

What a finding covers is passed over, and a text in which nothing is found comes out of a scan as it was.
The front of a text may be scanned before the rest. Findings can be replaced by others before the pieces of a
text are written.
-/
namespace TreeBuild.Text

variable {α : Type} (pattern : Pattern α)

/-- What a finding covers is passed over. -/
theorem segmentsFrom_skip (front rest : List Char) (c : Char) (before : Option Char) :
    segmentsFrom pattern before (front.length + 1) (front ++ c :: rest) =
      segmentsFrom pattern (some c) 0 rest := by
  induction front generalizing before with
  | nil => rfl
  | cons first others inductionHypothesis => exact inductionHypothesis (some first)

/-- A text without findings is written as it was. -/
theorem render_segmentsFrom_of_none {text : List Char} (write : α → List Char) (before : Option Char)
    (clean : ∀ before place, place <:+ text → pattern before place = none) :
    render write (segmentsFrom pattern before 0 text) = text := by
  induction text generalizing before with
  | nil => rfl
  | cons c rest inductionHypothesis =>
    rw [segmentsFrom, clean before _ List.suffix_rfl]
    exact congrArg (c :: ·) (inductionHypothesis (some c) fun before place inside =>
      clean before place (inside.trans (List.suffix_cons c rest)))

/-! ### A scan along a text

A pattern that does not look back finds the same at a place whatever stands before it.
-/

section

variable {pattern : Pattern α} (blind : ∀ before text, pattern before text = pattern none text)
  (write : α → List Char) {front : List Char} (back : List Char)
include blind

/-- A pattern that does not look back cuts a text the same whatever is before it. -/
theorem segmentsFrom_blind (before : Option Char) (skip : Nat) (text : List Char) :
    segmentsFrom pattern before skip text = segmentsFrom pattern none skip text := by
  induction text generalizing before skip with
  | nil => cases skip <;> rfl
  | cons c rest inductionHypothesis =>
    cases skip with
    | zero => rw [segmentsFrom, segmentsFrom, blind]
    | succ skip => rfl

/-- A front in which nothing is found is written as it was. -/
theorem render_append_of_none
    (clean : ∀ part, part ≠ [] → part <:+ front → pattern none (part ++ back) = none) :
    render write (segments pattern (front ++ back)) = front ++ render write (segments pattern back) := by
  induction front with
  | nil => rfl
  | cons c rest inductionHypothesis =>
    have later := inductionHypothesis fun part nonempty inside =>
      clean part nonempty (inside.trans (List.suffix_cons c rest))
    have here := clean (c :: rest) (List.cons_ne_nil c rest) List.suffix_rfl
    rw [List.cons_append] at here
    rw [segments, List.cons_append, segmentsFrom, here]
    dsimp only
    rw [segmentsFrom_blind blind, List.cons_append]
    exact congrArg (c :: ·) later

/-- A front that is found is replaced. -/
theorem render_append_of_found {value : α} (nonempty : front ≠ [])
    (found : pattern none (front ++ back) = some (value, front.length)) :
    render write (segments pattern (front ++ back)) = write value ++ render write (segments pattern back) := by
  obtain ⟨c, others, rfl⟩ := List.exists_cons_of_ne_nil nonempty
  have behind (others : List Char) :
      segmentsFrom pattern none others.length (others ++ back) = segmentsFrom pattern none 0 back := by
    induction others with
    | nil => rfl
    | cons c rest inductionHypothesis =>
      rw [List.length_cons, List.cons_append, segmentsFrom, segmentsFrom_blind blind]
      exact inductionHypothesis
  rw [List.cons_append] at found
  rw [segments, List.cons_append, segmentsFrom, found]
  dsimp only
  rw [segmentsFrom_blind blind, List.length_cons, Nat.add_sub_cancel, behind]
  rfl

end

/-! ### Findings and their replacements -/

section

variable {First Second : Type}

/-- A piece of a text with its finding replaced. -/
def Segment.map (change : First → Second) : Segment First → Segment Second
  | .char c => .char c
  | .found value => .found (change value)

/-- The finding of a piece, if it is one. -/
def Segment.value? : Segment First → Option First
  | .char _ => none
  | .found value => some value

/-- What a changed segment has found is what the segment has found, changed. -/
theorem Segment.value?_map (change : First → Second) (segment : Segment First) :
    (segment.map change).value? = segment.value?.map change := by
  cases segment <;> rfl

/-- What is found in a text are the values of its segments. -/
theorem findings_eq (pattern : Pattern First) (text : List Char) :
    findings pattern text = (segments pattern text).filterMap Segment.value? := by
  unfold findings
  congr 1

/-- Pieces are written alike whether their findings are replaced first or while they are written. -/
theorem render_map (write : Second → List Char) (change : First → Second) (pieces : List (Segment First)) :
    render write (pieces.map (.map change)) = render (fun value => write (change value)) pieces := by
  induction pieces with
  | nil => rfl
  | cons first rest inductionHypothesis =>
    simp only [render, List.map_cons, List.flatMap_cons] at inductionHypothesis ⊢
    rw [inductionHypothesis]
    cases first <;> rfl

end

end TreeBuild.Text
