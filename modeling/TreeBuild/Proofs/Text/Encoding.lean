import Mathlib.Algebra.Group.Nat.Defs
import TreeBuild.Text.Utf8

/-!
# Texts as bytes and back

A text that is encoded is decoded to itself: the first byte of a character announces how many bytes
follow and within which bounds the next one lies, and the bytes of a character keep to what was
announced. Bytes that are decoded are encoded to themselves, because what has been read of a character
begins every character that is still possible. A text without carriage returns also comes through the
reading of line ends unchanged.
-/
namespace TreeBuild.Text

/-- Only carriage returns are changed by the reading of line ends. -/
theorem unifyLineEnds_of_notMem {text : List Char} (none : '\r' ∉ text) :
    unifyLineEnds text = text := by
  induction text with
  | nil => rfl
  | cons c rest inductionHypothesis =>
    have other : c ≠ '\r' := fun same => none (same ▸ List.mem_cons_self)
    rw [unifyLineEnds, if_neg other,
      inductionHypothesis fun member => none (List.mem_cons_of_mem _ member)]
    exact fun _ same => absurd same other

/-- No carriage return is left by the reading of line ends. -/
theorem notMem_unifyLineEnds (text : List Char) : '\r' ∉ unifyLineEnds text := by
  fun_induction unifyLineEnds text with
  | case1 => simp
  | case2 rest inductionHypothesis => simp [inductionHypothesis]
  | case3 c rest _ inductionHypothesis =>
    by_cases same : c = '\r' <;> simp [same, inductionHypothesis, Ne.symm]

namespace Utf8

/-- A number below 256 is kept by a byte. -/
theorem toNat_byte {n : Nat} (byte : n < 256) : (UInt8.ofNat n).toNat = n :=
  UInt8.toNat_ofNat_of_lt' byte

/-- The last byte of a character completes it. -/
theorem step_last {low high value n : Nat} {taken : Bytes} (inside : low ≤ n ∧ n ≤ high)
    (byte : n < 256) :
    step (some ⟨1, low, high, value, taken⟩) (UInt8.ofNat n) =
      (none, [.char (Char.ofNat (value * 64 + (n - 0x80)))]) := by
  have same := toNat_byte byte
  simp [step, same, inside]

/-- A byte in between is remembered. -/
theorem step_between {owed low high value n : Nat} {taken : Bytes} (more : owed ≠ 1)
    (inside : low ≤ n ∧ n ≤ high) (byte : n < 256) :
    step (some ⟨owed, low, high, value, taken⟩) (UInt8.ofNat n) =
      (some ⟨owed - 1, 0x80, 0xBF, value * 64 + (n - 0x80), UInt8.ofNat n :: taken⟩, []) := by
  have same := toNat_byte byte
  simp [step, same, inside, more]

/-! ### First bytes -/

section

variable {byte : UInt8} {n : Nat} (same : byte.toNat = n)
include same

/-- A number below 128 leads a character of ASCII. -/
theorem lead_of_ascii (most : n < 0x80) : lead byte = .ascii (Char.ofNat n) := by
  unfold lead
  dsimp only
  rw [same, if_pos most]

/-- A first byte announces one more byte. -/
theorem lead_of_two (least : 0xC2 ≤ n) (most : n < 0xE0) :
    lead byte = .begun ⟨1, 0x80, 0xBF, n - 0xC0, [byte]⟩ := by
  unfold lead
  dsimp only
  rw [same, if_neg (by omega), if_neg (by omega), if_pos most]

/-- A first byte announces two more bytes, the next of which is bounded more closely behind the least
and behind the one that leads to surrogates. -/
theorem lead_of_three (least : 0xE0 ≤ n) (most : n < 0xF0) :
    lead byte = .begun ⟨2, if n = 0xE0 then 0xA0 else 0x80, if n = 0xED then 0x9F else 0xBF, n - 0xE0,
      [byte]⟩ := by
  unfold lead
  dsimp only
  rw [same, if_neg (by omega), if_neg (by omega), if_neg (by omega)]
  by_cases lowest : n = 0xE0
  · simp [lowest]
  · by_cases surrogates : n = 0xED
    · simp [surrogates]
    · simp [lowest, surrogates, most]

/-- A first byte announces three more bytes, the next of which is bounded more closely behind the least
and behind the greatest. -/
theorem lead_of_four (least : 0xF0 ≤ n) (most : n < 0xF5) :
    lead byte = .begun ⟨3, if n = 0xF0 then 0x90 else 0x80, if n = 0xF4 then 0x8F else 0xBF, n - 0xF0,
      [byte]⟩ := by
  unfold lead
  dsimp only
  rw [same, if_neg (by omega), if_neg (by omega), if_neg (by omega), if_neg (by omega),
    if_neg (by omega), if_neg (by omega)]
  by_cases lowest : n = 0xF0
  · simp [lowest]
  · by_cases greatest : n = 0xF4
    · simp [greatest]
    · have between : n < 0xF4 := by omega
      simp [lowest, greatest, between]

/-- The bytes that only go on with a character, and those above the last code point, announce nothing. -/
theorem lead_of_wrong (wrong : 0x80 ≤ n ∧ n < 0xC2 ∨ 0xF5 ≤ n) : lead byte = .wrong := by
  unfold lead
  dsimp only
  rw [same]
  rcases wrong with ⟨least, most⟩ | above
  · rw [if_neg (by omega), if_pos most]
  · rw [if_neg (by omega), if_neg (by omega), if_neg (by omega), if_neg (by omega), if_neg (by omega),
      if_neg (by omega), if_neg (by omega), if_neg (by omega), if_neg (by omega)]

end

/-- The bounds between the kinds of first bytes. -/
theorem first_cases (n : Nat) :
    n < 0x80 ∨ (0xC2 ≤ n ∧ n < 0xE0) ∨ (0xE0 ≤ n ∧ n < 0xF0) ∨ (0xF0 ≤ n ∧ n < 0xF5) ∨
      (0x80 ≤ n ∧ n < 0xC2 ∨ 0xF5 ≤ n) := by
  omega

/-- What a first byte announces is waited for. -/
theorem step_first {byte : UInt8} {begun : Begun} (begins : lead byte = .begun begun) :
    step none byte = (some begun, []) := by
  simp only [step, beginWith, begins]

/-- The bytes of a character are read as this character. -/
theorem piecesFrom_encodeChar (c : Char) (rest : Bytes) :
    piecesFrom none (String.utf8EncodeChar c ++ rest) = .char c :: piecesFrom none rest := by
  have same : Char.ofNat c.val.toNat = c := Char.ofNat_toNat c
  have valid : c.val.toNat < 55296 ∨ 57343 < c.val.toNat ∧ c.val.toNat < 1114112 := c.valid
  unfold String.utf8EncodeChar
  dsimp only
  generalize c.val.toNat = n at same valid
  subst same
  split
  · have byte : (UInt8.ofNat n).toNat = n := toNat_byte (by omega)
    have opens := lead_of_ascii byte (by omega)
    simp [piecesFrom, step, beginWith, opens]
  · split
    · have whole : (n / 64 % 32 + 192 - 192) * 64 + (n % 64 + 128 - 128) = n := by omega
      simp only [List.cons_append, List.nil_append, piecesFrom]
      rw [step_first (lead_of_two (toNat_byte (by omega)) (by omega) (by omega)),
        step_last (by omega) (by omega), whole]
      rfl
    · split
      · have whole : ((n / 4096 % 16 + 224 - 224) * 64 + (n / 64 % 64 + 128 - 128)) * 64 +
            (n % 64 + 128 - 128) = n := by omega
        simp only [List.cons_append, List.nil_append, piecesFrom]
        rw [step_first (lead_of_three (toNat_byte (by omega)) (by omega) (by omega)),
          step_between (by omega) (by constructor <;> split <;> omega) (by omega),
          step_last (by omega) (by omega), whole]
        rfl
      · have whole : (((n / 262144 % 8 + 240 - 240) * 64 + (n / 4096 % 64 + 128 - 128)) * 64 +
            (n / 64 % 64 + 128 - 128)) * 64 + (n % 64 + 128 - 128) = n := by omega
        simp only [List.cons_append, List.nil_append, piecesFrom]
        rw [step_first (lead_of_four (toNat_byte (by omega)) (by omega) (by omega)),
          step_between (by omega) (by constructor <;> split <;> omega) (by omega),
          step_between (by omega) (by omega) (by omega), step_last (by omega) (by omega), whole]
        rfl

/-- A text that is encoded is decoded to itself. -/
theorem decode_encode (text : String) : decode (encode text) = .ok text := by
  have collected (letters : List Char) : ∀ position,
      collect position (piecesFrom none (letters.flatMap String.utf8EncodeChar)) = .ok letters := by
    induction letters with
    | nil => exact fun _ => rfl
    | cons c rest inductionHypothesis =>
      intro position
      rw [List.flatMap_cons, piecesFrom_encodeChar, collect, inductionHypothesis]
      rfl
  unfold decode pieces encode
  rw [collected text.toList 0]
  simp [Except.map]

/-! ### Bytes that are texts -/

/-- The last bytes of the character with this code, as many as are owed. -/
def owedBytes (code : Nat) : Nat → Bytes
  | 0 => []
  | owed + 1 => UInt8.ofNat (0x80 + code / 64 ^ owed % 64) :: owedBytes code owed

section

variable {code : Nat}

/-- A code point that is no half of a pair is kept by a character. -/
theorem toNat_val_ofNat (valid : code < 0xD800 ∨ 0xDFFF < code ∧ code < 0x110000) :
    (Char.ofNat code).val.toNat = code := by
  rw [Char.ofNat, dif_pos (by unfold Nat.isValidChar; omega)]
  rfl

/-- Code points from 128 on have two bytes. -/
theorem encodeChar_of_two (least : 0x80 ≤ code) (most : code < 0x800) :
    String.utf8EncodeChar (Char.ofNat code) = UInt8.ofNat (0xC0 + code / 64) :: owedBytes code 1 := by
  have lead : code / 64 % 32 + 192 = 0xC0 + code / 64 := by omega
  unfold String.utf8EncodeChar
  dsimp only
  rw [toNat_val_ofNat (by omega), if_neg (by omega), if_pos (by omega), lead]
  simp [owedBytes, Nat.add_comm]

/-- Code points from 2048 on have three bytes. -/
theorem encodeChar_of_three (least : 0x800 ≤ code) (most : code < 0x10000)
    (valid : code < 0xD800 ∨ 0xDFFF < code) :
    String.utf8EncodeChar (Char.ofNat code) = UInt8.ofNat (0xE0 + code / 4096) :: owedBytes code 2 := by
  have lead : code / 4096 % 16 + 224 = 0xE0 + code / 4096 := by omega
  unfold String.utf8EncodeChar
  dsimp only
  rw [toNat_val_ofNat (by omega), if_neg (by omega), if_neg (by omega), if_pos (by omega), lead]
  simp [owedBytes, Nat.add_comm]

/-- Code points from 65536 on have four bytes. -/
theorem encodeChar_of_four (least : 0x10000 ≤ code) (most : code < 0x110000) :
    String.utf8EncodeChar (Char.ofNat code) = UInt8.ofNat (0xF0 + code / 262144) :: owedBytes code 3 := by
  have lead : code / 262144 % 8 + 240 = 0xF0 + code / 262144 := by omega
  unfold String.utf8EncodeChar
  dsimp only
  rw [toNat_val_ofNat (by omega), if_neg (by omega), if_neg (by omega), if_neg (by omega), lead]
  simp [owedBytes, Nat.add_comm]

end

/-- What has been read of a character begins every character that can come of it. -/
structure Begun.IsSound (begun : Begun) : Prop where
  owes : 0 < begun.owed
  low : 0x80 ≤ begun.low
  high : begun.high ≤ 0xBF
  taken : ∀ code, code / 64 ^ begun.owed = begun.value →
    begun.low ≤ 0x80 + code / 64 ^ (begun.owed - 1) % 64 →
    0x80 + code / 64 ^ (begun.owed - 1) % 64 ≤ begun.high →
    String.utf8EncodeChar (Char.ofNat code) = begun.taken.reverse ++ owedBytes code begun.owed

/-- The first byte of a character begins every character that can come of it. -/
theorem isSound_of_lead {byte : UInt8} {begun : Begun} (begins : lead byte = .begun begun) :
    begun.IsSound ∧ begun.taken = [byte] := by
  have first {n : Nat} (same : n = byte.toNat) : UInt8.ofNat n = byte := by
    rw [same, UInt8.ofNat_toNat]
  rcases first_cases byte.toNat with ascii | ⟨least, most⟩ | ⟨least, most⟩ | ⟨least, most⟩ | wrong
  · rw [lead_of_ascii rfl ascii] at begins
    cases begins
  · rw [lead_of_two rfl least most] at begins
    cases begins
    refine ⟨⟨Nat.zero_lt_succ _, Nat.le_refl _, Nat.le_refl _, fun code value _ _ => ?_⟩, rfl⟩
    simp only [Nat.pow_one] at value
    rw [encodeChar_of_two (by omega) (by omega), first (by omega)]
    rfl
  · rw [lead_of_three rfl least most] at begins
    cases begins
    refine ⟨⟨Nat.zero_lt_succ _, ?_, ?_, fun code value low high => ?_⟩, rfl⟩
    · dsimp only
      split <;> omega
    · dsimp only
      split <;> omega
    · simp only [Nat.reduceSub, Nat.pow_one, Nat.reducePow] at value low high
      have valid : 0x800 ≤ code ∧ (code < 0xD800 ∨ 0xDFFF < code) := by
        constructor
        · split at low <;> omega
        · split at high <;> omega
      rw [encodeChar_of_three valid.1 (by omega) valid.2, first (by omega)]
      rfl
  · rw [lead_of_four rfl least most] at begins
    cases begins
    refine ⟨⟨Nat.zero_lt_succ _, ?_, ?_, fun code value low high => ?_⟩, rfl⟩
    · dsimp only
      split <;> omega
    · dsimp only
      split <;> omega
    · simp only [Nat.reduceSub, Nat.reducePow] at value low high
      have valid : 0x10000 ≤ code ∧ code < 0x110000 := by
        constructor
        · split at low <;> omega
        · split at high <;> omega
      rw [encodeChar_of_four valid.1 valid.2, first (by omega)]
      rfl
  · rw [lead_of_wrong rfl wrong] at begins
    cases begins

/-- A character of ASCII has one byte. -/
theorem encodeChar_of_ascii {byte : UInt8} {c : Char} (ascii : lead byte = .ascii c) :
    String.utf8EncodeChar c = [byte] := by
  rcases first_cases byte.toNat with small | ⟨least, most⟩ | ⟨least, most⟩ | ⟨least, most⟩ | wrong
  · rw [lead_of_ascii rfl small] at ascii
    cases ascii
    unfold String.utf8EncodeChar
    dsimp only
    rw [toNat_val_ofNat (by omega), if_pos (by omega), UInt8.ofNat_toNat]
  · rw [lead_of_two rfl least most] at ascii
    cases ascii
  · rw [lead_of_three rfl least most] at ascii
    cases ascii
  · rw [lead_of_four rfl least most] at ascii
    cases ascii
  · rw [lead_of_wrong rfl wrong] at ascii
    cases ascii

/-- A byte that goes on with a character completes it, or begins every character that can come of it then. -/
theorem Begun.IsSound.next {begun : Begun} (sound : begun.IsSound) {byte : UInt8}
    (inside : begun.low ≤ byte.toNat ∧ byte.toNat ≤ begun.high) :
    (begun.owed = 1 → String.utf8EncodeChar (Char.ofNat (begun.value * 64 + (byte.toNat - 0x80))) =
      begun.taken.reverse ++ [byte]) ∧
    (begun.owed ≠ 1 → Begun.IsSound
      ⟨begun.owed - 1, 0x80, 0xBF, begun.value * 64 + (byte.toNat - 0x80), byte :: begun.taken⟩) := by
  obtain ⟨least, most⟩ := inside
  have low := sound.low
  have high := sound.high
  have last : UInt8.ofNat (0x80 + (byte.toNat - 0x80)) = byte := by
    rw [Nat.add_sub_cancel' (by omega), UInt8.ofNat_toNat]
  refine ⟨fun one => ?_, fun more => ⟨?_, Nat.le_refl _, Nat.le_refl _, fun code value _ _ => ?_⟩⟩
  · have here := sound.taken (begun.value * 64 + (byte.toNat - 0x80))
    simp only [one, Nat.sub_self, Nat.pow_zero, Nat.div_one, Nat.pow_one, owedBytes] at here
    have digit : (begun.value * 64 + (byte.toNat - 0x80)) % 64 = byte.toNat - 0x80 := by omega
    rw [here (by omega) (by omega) (by omega), digit, last]
  · have owes := sound.owes
    change 0 < begun.owed - 1
    omega
  · obtain ⟨owed, same⟩ : ∃ owed, begun.owed = owed + 2 := ⟨begun.owed - 2, by have := sound.owes; omega⟩
    simp only [same, Nat.add_one_sub_one] at value ⊢
    have whole : code / 64 ^ (owed + 2) = begun.value := by
      rw [Nat.pow_succ, ← Nat.div_div_eq_div_mul, value]
      omega
    have here := sound.taken code
    rw [same] at here
    have digit : code / 64 ^ (owed + 1) % 64 = byte.toNat - 0x80 := by omega
    simp only [Nat.add_one_sub_one, digit] at here
    rw [here whole (by omega) (by omega), owedBytes, digit, last]
    simp

/-- The bytes that have been read of a character that is not complete. -/
def bytesOf : Option Begun → Bytes
  | none => []
  | some begun => begun.taken.reverse

/-- Bytes that are read without a flaw are those of the characters that come of them. -/
theorem encode_of_collect {state : Option Begun} {bytes : Bytes} {position : Nat} {letters : List Char}
    (sound : ∀ begun ∈ state, begun.IsSound)
    (told : collect position (piecesFrom state bytes) = .ok letters) :
    letters.flatMap String.utf8EncodeChar = bytesOf state ++ bytes := by
  induction bytes generalizing state position letters with
  | nil =>
    cases state with
    | none => cases told; rfl
    | some begun => cases told
  | cons byte rest inductionHypothesis =>
    rw [piecesFrom] at told
    -- with the byte a character is complete, or it is read on; a flaw would have been told
    have complete {c : Char} (stepped : step state byte = (none, [.char c]))
        (whole : String.utf8EncodeChar c = bytesOf state ++ [byte]) :
        letters.flatMap String.utf8EncodeChar = bytesOf state ++ byte :: rest := by
      simp only [stepped, List.singleton_append, collect] at told
      cases behind : collect (position + c.utf8Size) (piecesFrom none rest) with
      | error flaw => rw [behind] at told; cases told
      | ok others =>
        rw [behind] at told
        cases told
        rw [List.flatMap_cons, whole, inductionHypothesis (by simp) behind]
        simp [bytesOf]
    have further {begun : Begun} (stepped : step state byte = (some begun, []))
        (beginning : begun.taken.reverse = bytesOf state ++ [byte]) (sound : begun.IsSound) :
        letters.flatMap String.utf8EncodeChar = bytesOf state ++ byte :: rest := by
      simp only [stepped, List.nil_append] at told
      rw [inductionHypothesis (by simpa using sound) told, bytesOf, beginning]
      simp
    cases state with
    | none =>
      cases begins : lead byte with
      | ascii c =>
        exact complete (by simp [step, beginWith, begins]) (encodeChar_of_ascii begins)
      | begun begun =>
        obtain ⟨sound, taken⟩ := isSound_of_lead begins
        exact further (by simp [step, beginWith, begins]) (by simp [taken, bytesOf]) sound
      | wrong => simp [step, beginWith, begins, collect] at told
    | some begun =>
      by_cases inside : begun.low ≤ byte.toNat ∧ byte.toNat ≤ begun.high
      · obtain ⟨last, between⟩ := (sound begun rfl).next inside
        by_cases one : begun.owed = 1
        · exact complete (by simp [step, inside, one]) (last one)
        · exact further (by simp [step, inside, one]) (by simp [bytesOf]) (between one)
      · simp [step, inside, collect] at told

/-- Bytes that are decoded are those of their text. -/
theorem encode_of_decode {bytes : Bytes} {text : String} (told : decode bytes = .ok text) :
    encode text = bytes := by
  unfold decode at told
  cases collected : collect 0 (pieces bytes) with
  | error flaw => rw [collected] at told; cases told
  | ok letters =>
    rw [collected] at told
    cases told
    rw [encode, String.toList_ofList, encode_of_collect (by simp) collected]
    rfl

end Utf8

end TreeBuild.Text
