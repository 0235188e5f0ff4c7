/-!
White space: the characters that separate words and that trimming removes. Besides the blanks of
ASCII these are the four separator controls, the next-line control and the Unicode spaces.
-/
namespace TreeBuild.Text

/-- The white-space characters, as ranges of code points. -/
def blankRanges : List (Nat × Nat) :=
  [(9, 13), (28, 32), (133, 133), (160, 160), (5760, 5760), (8192, 8202), (8232, 8233),
   (8239, 8239), (8287, 8287), (12288, 12288)]

/-- Whether a character is white space. -/
def isBlank (c : Char) : Bool :=
  blankRanges.any fun range => range.1 ≤ c.toNat && c.toNat ≤ range.2

end TreeBuild.Text
