/-!
Scanning a text for findings: at every place that no earlier finding covers, a pattern may match a
non-empty stretch; the text is cut into these findings and the characters between them.
-/
namespace TreeBuild.Text

/-- A piece of a scanned text. -/
inductive Segment (α : Type) where
  | char (c : Char)
  | found (value : α)
  deriving DecidableEq, Repr

/-- A pattern: what it finds at a place, given the character before and the text from there on,
and the length of the stretch that the finding covers. -/
abbrev Pattern (α : Type) := Option Char → List Char → Option (α × Nat)

/-- The segments of a text of which the first `skip` characters belong to a finding. -/
def segmentsFrom {α : Type} (pattern : Pattern α) :
    (before : Option Char) → (skip : Nat) → List Char → List (Segment α)
  | _, _, [] => []
  | _, skip + 1, c :: rest => segmentsFrom pattern (some c) skip rest
  | before, 0, c :: rest =>
    match pattern before (c :: rest) with
    | some (value, length) => .found value :: segmentsFrom pattern (some c) (length - 1) rest
    | none => .char c :: segmentsFrom pattern (some c) 0 rest

/-- The segments of a text. -/
def segments {α : Type} (pattern : Pattern α) (text : List Char) : List (Segment α) :=
  segmentsFrom pattern none 0 text

/-- The findings of a text, in order. -/
def findings {α : Type} (pattern : Pattern α) (text : List Char) : List α :=
  (segments pattern text).filterMap fun segment =>
    match segment with
    | .char _ => none
    | .found value => some value

/-- The text of segments, each finding written by `write`. -/
def render {α : Type} (write : α → List Char) (segments : List (Segment α)) : List Char :=
  segments.flatMap fun segment =>
    match segment with
    | .char c => [c]
    | .found value => write value

end TreeBuild.Text
