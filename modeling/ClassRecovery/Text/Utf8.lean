import ClassRecovery.Bytes

/-!
UTF-8 and its lenient reading. A sequence is judged by its first byte, which fixes the range of the
second; every byte after that is a plain continuation.
-/

namespace ClassRecovery.Text.Utf8

def isContinuation (b : UInt8) : Bool := 0x80 ≤ b && b ≤ 0xBF

/-- The low six bits, all that a continuation byte carries. -/
def payload (b : UInt8) : Nat := b.toNat % 64

def encodeScalar (n : Nat) : Bytes :=
  if n < 0x80 then [UInt8.ofNat n]
  else if n < 0x800 then [UInt8.ofNat (0xC0 + n / 64), UInt8.ofNat (0x80 + n % 64)]
  else if n < 0x10000 then
    [UInt8.ofNat (0xE0 + n / 4096), UInt8.ofNat (0x80 + n / 64 % 64), UInt8.ofNat (0x80 + n % 64)]
  else
    [UInt8.ofNat (0xF0 + n / 262144), UInt8.ofNat (0x80 + n / 4096 % 64),
      UInt8.ofNat (0x80 + n / 64 % 64), UInt8.ofNat (0x80 + n % 64)]

def encodeChar (c : Char) : Bytes := encodeScalar c.toNat

def encode (s : String) : Bytes := s.toList.flatMap encodeChar

/-- How many bytes follow a first byte, and the range of the second. -/
structure Lead where
  following : Nat
  low : UInt8
  high : UInt8
  deriving DecidableEq, Repr

/-- Narrower ranges for the second byte keep out overlong forms, surrogates and all above
`U+10FFFF`. -/
def lead? (b : UInt8) : Option Lead :=
  if b < 0x80 then some ⟨0, 0, 0⟩
  else if 0xC2 ≤ b && b ≤ 0xDF then some ⟨1, 0x80, 0xBF⟩
  else if b = 0xE0 then some ⟨2, 0xA0, 0xBF⟩
  else if b = 0xED then some ⟨2, 0x80, 0x9F⟩
  else if 0xE1 ≤ b && b ≤ 0xEF then some ⟨2, 0x80, 0xBF⟩
  else if b = 0xF0 then some ⟨3, 0x90, 0xBF⟩
  else if 0xF1 ≤ b && b ≤ 0xF3 then some ⟨3, 0x80, 0xBF⟩
  else if b = 0xF4 then some ⟨3, 0x80, 0x8F⟩
  else none

/-- One step of reading: a character, or the number of bytes that no sequence continues. -/
inductive Step
  | char (c : Char) (rest : Bytes)
  | invalid (skipped : Nat) (rest : Bytes)

/-- The bits a first byte carries beside its mark. -/
def leadPayload (following : Nat) (b : UInt8) : Nat :=
  match following with
  | 0 => b.toNat
  | 1 => b.toNat % 32
  | 2 => b.toNat % 16
  | _ => b.toNat % 8

def continueChar : (due : Nat) → (seen value : Nat) → Bytes → Step
  | 0, _, value, rest => .char (Char.ofNat value) rest
  | _ + 1, seen, _, [] => .invalid seen []
  | due + 1, seen, value, b :: rest =>
    if isContinuation b then continueChar due (seen + 1) (value * 64 + payload b) rest
    else .invalid seen (b :: rest)

def readChar (first : UInt8) (rest : Bytes) : Step :=
  match lead? first with
  | none => .invalid 1 rest
  | some ⟨0, _, _⟩ => .char (Char.ofNat first.toNat) rest
  | some ⟨due + 1, low, high⟩ =>
    match rest with
    | [] => .invalid 1 []
    | second :: rest' =>
      if low ≤ second && second ≤ high then
        continueChar due 2 (leadPayload (due + 1) first * 64 + payload second) rest'
      else .invalid 1 rest

def Step.rest : Step → Bytes
  | .char _ rest => rest
  | .invalid _ rest => rest

theorem length_continueChar_rest (due seen value : Nat) (b : Bytes) :
    (continueChar due seen value b).rest.length ≤ b.length := by
  induction due generalizing seen value b with
  | zero => simp [continueChar, Step.rest]
  | succ due ih =>
    cases b with
    | nil => simp [continueChar, Step.rest]
    | cons x rest =>
      simp only [continueChar]
      split
      · exact Nat.le_trans (ih _ _ _) (by simp)
      · simp [Step.rest]

theorem length_readChar_rest (first : UInt8) (b : Bytes) :
    (readChar first b).rest.length ≤ b.length := by
  unfold readChar
  split
  · simp [Step.rest]
  · simp [Step.rest]
  · split
    · simp [Step.rest]
    · split
      · exact Nat.le_trans (length_continueChar_rest _ _ _ _) (by simp)
      · simp [Step.rest]

/-- The characters of a byte string, read strictly. -/
def decodeChars (b : Bytes) (read : List Char) : Option (List Char) :=
  match b with
  | [] => some read.reverse
  | first :: rest =>
    match h : readChar first rest with
    | .char c rest' =>
      have : rest'.length ≤ rest.length := by
        simpa [h, Step.rest] using length_readChar_rest first rest
      decodeChars rest' (c :: read)
    | .invalid .. => none
termination_by b.length
decreasing_by simp; omega

def decode? (b : Bytes) : Option String := (decodeChars b []).map .ofList

def replacement : Char := '\uFFFD'

/-- Each longest run of bytes that begins a sequence but does not finish it counts as one fault. -/
def decodeLossyChars (b : Bytes) (read : List Char) : List Char :=
  match b with
  | [] => read.reverse
  | first :: rest =>
    match h : readChar first rest with
    | .char c rest' =>
      have : rest'.length ≤ rest.length := by
        simpa [h, Step.rest] using length_readChar_rest first rest
      decodeLossyChars rest' (c :: read)
    | .invalid _ rest' =>
      have : rest'.length ≤ rest.length := by
        simpa [h, Step.rest] using length_readChar_rest first rest
      decodeLossyChars rest' (replacement :: read)
termination_by b.length
decreasing_by all_goals (simp; omega)

/-- Reads every byte string, with `U+FFFD` for each fault. -/
def decodeLossy (b : Bytes) : String := .ofList (decodeLossyChars b [])

end ClassRecovery.Text.Utf8
