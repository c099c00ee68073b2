/-!
Whole numbers in decimal. A sign may come first, the rest is digits, and the first character that
makes the text wrong decides which of the faults is reported.
-/

namespace ClassRecovery.Text

inductive DecimalFault
  | empty
  | invalidDigit
  | tooLarge
  | tooSmall
  deriving DecidableEq, Repr

def DecimalFault.message : DecimalFault → String
  | .empty => "cannot parse integer from empty string"
  | .invalidDigit => "invalid digit found in string"
  | .tooLarge => "number too large to fit in target type"
  | .tooSmall => "number too small to fit in target type"

/-- The whole numbers a field can hold. A minus sign is read only where negative numbers fit. -/
structure IntRange where
  least : Int
  greatest : Int
  deriving DecidableEq, Repr

namespace IntRange

def signed32 : IntRange := ⟨-2147483648, 2147483647⟩

def unsigned32 : IntRange := ⟨0, 4294967295⟩

end IntRange

def digit? (c : Char) : Option Nat :=
  if '0' ≤ c ∧ c ≤ '9' then some (c.toNat - '0'.toNat) else none

/-- Appends the digits to `value`, upwards or downwards from zero. -/
def readDigits (range : IntRange) (negative : Bool) (value : Int) :
    List Char → Except DecimalFault Int
  | [] => .ok value
  | c :: rest =>
    match digit? c with
    | none => .error .invalidDigit
    | some d =>
      if negative then
        let next := value * 10 - d
        if next < range.least then .error .tooSmall else readDigits range negative next rest
      else
        let next := value * 10 + d
        if range.greatest < next then .error .tooLarge else readDigits range negative next rest

/-- Reads a decimal number that lies in `range`. A sign alone is no number. -/
def readDecimal (range : IntRange) (s : String) : Except DecimalFault Int :=
  match s.toList with
  | [] => .error .empty
  | ['+'] => .error .invalidDigit
  | ['-'] => .error .invalidDigit
  | '+' :: digits => readDigits range false 0 digits
  | '-' :: digits =>
    if range.least < 0 then readDigits range true 0 digits else .error .invalidDigit
  | digits => readDigits range false 0 digits

/-- Digits that were read leave a number of the range. -/
theorem readDigits_mem {range : IntRange} {negative : Bool} {value n : Int} {s : List Char}
    (hl : range.least ≤ value) (hg : value ≤ range.greatest)
    (hs : if negative then value ≤ 0 ∧ 0 ≤ range.greatest else 0 ≤ value ∧ range.least ≤ 0)
    (h : readDigits range negative value s = .ok n) :
    range.least ≤ n ∧ n ≤ range.greatest := by
  induction s generalizing value with
  | nil =>
    obtain rfl : value = n := by simpa [readDigits] using h
    exact ⟨hl, hg⟩
  | cons c rest ih =>
    simp only [readDigits] at h
    split at h
    · simp at h
    · next d _ =>
      cases negative
      · simp only [Bool.false_eq_true, ↓reduceIte] at h hs
        split at h
        · simp at h
        · exact ih (by omega) (by omega) (by simp; omega) h
      · simp only [↓reduceIte] at h hs
        split at h
        · simp at h
        · exact ih (by omega) (by omega) (by simp; omega) h

end ClassRecovery.Text
