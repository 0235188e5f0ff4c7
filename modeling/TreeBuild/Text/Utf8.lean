import TreeBuild.Text.Basic

/-!
UTF-8. Bytes are cut into pieces, each a character or a flaw: a longest run of bytes that begins
a character but cannot end one. A strict reading stops at the first flaw and says where it is; a
tolerant one puts one replacement character for each.
-/
namespace TreeBuild.Text

/-- The content of a file or a stream. -/
abbrev Bytes := List UInt8

namespace Utf8

/-- The bytes of a text. -/
def encode (text : String) : Bytes :=
  text.toList.flatMap String.utf8EncodeChar

/-- Why a run of bytes is no character. -/
inductive Flaw where
  /-- No character begins with this byte. -/
  | start
  /-- The byte after the run cannot go on with it. -/
  | continuation
  /-- The bytes end within a character. -/
  | truncated
  deriving DecidableEq, Repr

/-- The reason, as an error message gives it. -/
def Flaw.reason : Flaw → String
  | .start => "invalid start byte"
  | .continuation => "invalid continuation byte"
  | .truncated => "unexpected end of data"

/-- A character that has begun: what it still owes and what was read of it. -/
structure Begun where
  /-- How many continuation bytes are still to come. -/
  owed : Nat
  /-- The least value of the next one. -/
  low : Nat
  /-- The greatest value of the next one. -/
  high : Nat
  /-- The bits read so far. -/
  value : Nat
  /-- The bytes read so far, last first. -/
  taken : Bytes
  deriving DecidableEq, Repr

/-- A piece of a byte sequence. -/
inductive Piece where
  | char (c : Char)
  | flaw (cause : Flaw) (bytes : Bytes)
  deriving DecidableEq, Repr

/-- What the first byte of a character announces. -/
inductive Lead where
  | ascii (c : Char)
  | begun (state : Begun)
  | wrong
  deriving DecidableEq, Repr

/-- The announcement of a first byte. The bounds on the second byte exclude spellings that are too
long, surrogates and what lies above the last code point. -/
def lead (byte : UInt8) : Lead :=
  let n := byte.toNat
  if n < 0x80 then .ascii (Char.ofNat n)
  else if n < 0xC2 then .wrong
  else if n < 0xE0 then .begun ⟨1, 0x80, 0xBF, n - 0xC0, [byte]⟩
  else if n = 0xE0 then .begun ⟨2, 0xA0, 0xBF, 0, [byte]⟩
  else if n = 0xED then .begun ⟨2, 0x80, 0x9F, 0xD, [byte]⟩
  else if n < 0xF0 then .begun ⟨2, 0x80, 0xBF, n - 0xE0, [byte]⟩
  else if n = 0xF0 then .begun ⟨3, 0x90, 0xBF, 0, [byte]⟩
  else if n < 0xF4 then .begun ⟨3, 0x80, 0xBF, n - 0xF0, [byte]⟩
  else if n = 0xF4 then .begun ⟨3, 0x80, 0x8F, 4, [byte]⟩
  else .wrong

/-- The state and the pieces after one byte that begins a character. -/
def beginWith (byte : UInt8) : Option Begun × List Piece :=
  match lead byte with
  | .ascii c => (none, [.char c])
  | .begun state => (some state, [])
  | .wrong => (none, [.flaw .start [byte]])

/-- The state and the pieces after one byte. A byte that cannot go on with the character begun
ends it as a flaw and begins anew. -/
def step (state : Option Begun) (byte : UInt8) : Option Begun × List Piece :=
  match state with
  | none => beginWith byte
  | some begun =>
    if begun.low ≤ byte.toNat ∧ byte.toNat ≤ begun.high then
      let value := begun.value * 64 + (byte.toNat - 0x80)
      if begun.owed = 1 then (none, [.char (Char.ofNat value)])
      else (some ⟨begun.owed - 1, 0x80, 0xBF, value, byte :: begun.taken⟩, [])
    else
      let (next, pieces) := beginWith byte
      (next, .flaw .continuation begun.taken.reverse :: pieces)

/-- The pieces of the bytes that follow a state. -/
def piecesFrom : Option Begun → Bytes → List Piece
  | none, [] => []
  | some begun, [] => [.flaw .truncated begun.taken.reverse]
  | state, byte :: rest => (step state byte).2 ++ piecesFrom (step state byte).1 rest

/-- The pieces of a byte sequence. -/
def pieces (bytes : Bytes) : List Piece :=
  piecesFrom none bytes

/-- The text with one replacement character for each flaw. -/
def decodeLossy (bytes : Bytes) : String :=
  String.ofList ((pieces bytes).map fun piece =>
    match piece with
    | .char c => c
    | .flaw _ _ => Char.ofNat 0xFFFD)

/-- The first flaw of a byte sequence and where it lies. -/
structure Error where
  position : Nat
  bytes : Bytes
  cause : Flaw
  deriving DecidableEq, Repr

/-- The message for bytes that are not UTF-8. -/
def Error.message (error : Error) : String :=
  let place :=
    match error.bytes with
    | [byte] => s!"byte 0x" ++ hex 2 byte.toNat ++ s!" in position {error.position}"
    | _ => s!"bytes in position {error.position}-{error.position + error.bytes.length - 1}"
  "'utf-8' codec can't decode " ++ place ++ ": " ++ error.cause.reason

/-- The characters of pieces without flaw, or the first flaw, counted from `position`. -/
def collect (position : Nat) : List Piece → Except Error (List Char)
  | [] => .ok []
  | .char c :: rest => (collect (position + c.utf8Size) rest).map (c :: ·)
  | .flaw cause bytes :: _ => .error ⟨position, bytes, cause⟩

/-- The text that the bytes encode, or the first flaw. -/
def decode (bytes : Bytes) : Except Error String :=
  (collect 0 (pieces bytes)).map String.ofList

end Utf8

/-- Line ends of every kind become line feeds: a carriage return, with the line feed after it if
there is one, counts as one line end. -/
def unifyLineEnds : List Char → List Char
  | [] => []
  | '\r' :: '\n' :: rest => '\n' :: unifyLineEnds rest
  | c :: rest => (if c = '\r' then '\n' else c) :: unifyLineEnds rest

end TreeBuild.Text
