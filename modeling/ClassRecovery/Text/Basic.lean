/-!
Cutting text apart. Blank characters are those of Unicode's `White_Space` property, and a line ends
at a line feed, which takes a carriage return before it along.
-/

namespace ClassRecovery.Text

/-- The characters with Unicode's `White_Space` property. -/
def isBlank (c : Char) : Bool :=
  let n := c.toNat
  (0x9 ≤ n && n ≤ 0xD) || n == 0x20 || n == 0x85 || n == 0xA0 || n == 0x1680 ||
    (0x2000 ≤ n && n ≤ 0x200A) || n == 0x2028 || n == 0x2029 || n == 0x202F || n == 0x205F ||
    n == 0x3000

theorem isBlank_of_isWhitespace {c : Char} (h : c.isWhitespace) : isBlank c := by
  simp only [Char.isWhitespace, Bool.or_eq_true, decide_eq_true_eq] at h
  rcases h with ((rfl | rfl) | rfl) | rfl <;> decide

def trimStartChars (s : List Char) : List Char := s.dropWhile isBlank

def trimEndChars (s : List Char) : List Char := (s.reverse.dropWhile isBlank).reverse

def trimChars (s : List Char) : List Char := trimEndChars (trimStartChars s)

/-- `s` without the blank characters at its two ends. -/
def trim (s : String) : String := .ofList (trimChars s.toList)

/-- The pieces between the separators: one more than there are separators. -/
def splitChars (sep : Char) : List Char → List (List Char)
  | [] => [[]]
  | c :: rest =>
    if c = sep then [] :: splitChars sep rest
    else
      match splitChars sep rest with
      | [] => [[c]]
      | piece :: pieces => (c :: piece) :: pieces

def split (sep : Char) (s : String) : List String :=
  (splitChars sep s.toList).map .ofList

/-- What stands before and after the first separator. -/
def splitFirst (sep : Char) : List Char → Option (List Char × List Char)
  | [] => none
  | c :: rest =>
    if c = sep then some ([], rest)
    else (splitFirst sep rest).map fun (before, after) => (c :: before, after)

def splitFirst? (sep : Char) (s : String) : Option (String × String) :=
  (splitFirst sep s.toList).map fun (before, after) => (.ofList before, .ofList after)

/-- What stands after the last character that `sep` accepts; everything if it accepts none. -/
def afterLast (sep : Char → Bool) (s : List Char) : List Char :=
  (s.reverse.takeWhile (!sep ·)).reverse

def occurs (part : List Char) : List Char → Bool
  | [] => part.isEmpty
  | c :: rest => part.isPrefixOf (c :: rest) || occurs part rest

/-- The lines of a text. A line feed ends a line, so one at the very end opens no further line. -/
def lines (s : String) : List String :=
  let pieces := splitChars '\n' s.toList
  let ended := pieces.dropLast.map dropReturn
  let last := (pieces.getLast?.getD [])
  (if last.isEmpty then ended else ended ++ [last]).map .ofList
where
  dropReturn (line : List Char) : List Char :=
    if line.getLast? = some '\r' then line.dropLast else line

theorem splitChars_ne_nil (sep : Char) (s : List Char) : splitChars sep s ≠ [] := by
  cases s with
  | nil => simp [splitChars]
  | cons c rest =>
    simp only [splitChars]
    split
    · simp
    · split <;> simp

/-- Putting the separators back gives the text. -/
theorem intercalate_splitChars (sep : Char) (s : List Char) :
    [sep].intercalate (splitChars sep s) = s := by
  induction s with
  | nil => rfl
  | cons c rest ih =>
    simp only [splitChars]
    split
    · next h =>
      obtain ⟨p, ps, hp⟩ := List.exists_cons_of_ne_nil (splitChars_ne_nil sep rest)
      rw [hp] at ih ⊢
      simp [List.intercalate, List.intersperse] at ih ⊢
      exact ⟨h.symm, ih⟩
    · split
      · next h => exact absurd h (splitChars_ne_nil sep rest)
      · next p ps h =>
        rw [h] at ih
        cases ps <;> simp_all [List.intercalate, List.intersperse]

end ClassRecovery.Text
