import ClassRecovery.Text.Unmarked
import ClassRecovery.Text.Utf8

/-!
Text in quotes, for messages: whatever stands in the text, the quoted form is one line of characters
that can be seen.
-/

namespace ClassRecovery.Text

/-- Lower-case digits in base 16, without leading zeros. -/
def hexNumber (n : Nat) : String := .ofList (Nat.toDigits 16 n)

def quotedChar (c : Char) : String :=
  match c with
  | '\t' => "\\t"
  | '\r' => "\\r"
  | '\n' => "\\n"
  | '"' => "\\\""
  | '\\' => "\\\\"
  | _ =>
    if c.toNat = 0 then "\\0"
    else if isUnmarked c then "\\u\x7b" ++ hexNumber c.toNat ++ "\x7d"
    else String.singleton c

def quoted (s : String) : String :=
  "\"" ++ String.join (s.toList.map quotedChar) ++ "\""

def hexByte (b : UInt8) : String :=
  let digits := (Nat.toDigits 16 b.toNat).map Char.toUpper
  .ofList (List.replicate (2 - digits.length) '0' ++ digits)

/-- Raw bytes in quotes: characters where the bytes are UTF-8, and each byte that is not by its
number. -/
def quotedBytes (b : Bytes) : String :=
  "\"" ++ String.join (pieces b []) ++ "\""
where
  pieces (b : Bytes) (written : List String) : List String :=
    match b with
    | [] => written.reverse
    | first :: rest =>
      match h : Utf8.readChar first rest with
      | .char c rest' =>
        have : rest'.length ≤ rest.length := by
          simpa [h, Utf8.Step.rest] using Utf8.length_readChar_rest first rest
        pieces rest' (quotedChar c :: written)
      | .invalid skipped rest' =>
        have : rest'.length ≤ rest.length := by
          simpa [h, Utf8.Step.rest] using Utf8.length_readChar_rest first rest
        pieces rest' (((first :: rest).take skipped).reverse.map ("\\x" ++ hexByte ·) ++ written)
  termination_by b.length
  decreasing_by all_goals (simp; omega)

/-- One character of a JSON string. Only what cannot stand there is spelled out. -/
def jsonChar (c : Char) : String :=
  match c with
  | '"' => "\\\""
  | '\\' => "\\\\"
  | '\t' => "\\t"
  | '\r' => "\\r"
  | '\n' => "\\n"
  | '\x08' => "\\b"
  | '\x0c' => "\\f"
  | _ =>
    if c.toNat < 0x20 then
      let digits := Nat.toDigits 16 c.toNat
      "\\u" ++ .ofList (List.replicate (4 - digits.length) '0' ++ digits)
    else String.singleton c

def jsonString (s : String) : String :=
  "\"" ++ String.join (s.toList.map jsonChar) ++ "\""

end ClassRecovery.Text
