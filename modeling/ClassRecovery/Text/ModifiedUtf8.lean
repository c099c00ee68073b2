import ClassRecovery.Text.Utf8

/-!
Modified UTF-8, the encoding of text in class files and at the native interface of a virtual
machine. It differs from UTF-8 in two ways: NUL takes two bytes, so that no zero byte occurs, and a
character beyond `U+FFFF` is written as its two surrogates, three bytes each.
-/

namespace ClassRecovery.Text.ModifiedUtf8

open Utf8 (isContinuation payload encodeScalar)

def encodeChar (c : Char) : Bytes :=
  let n := c.toNat
  if n = 0 then [0xC0, 0x80]
  else if n < 0x10000 then encodeScalar n
  else
    let offset := n - 0x10000
    encodeScalar (0xD800 + offset / 1024) ++ encodeScalar (0xDC00 + offset % 1024)

def encode (s : String) : Bytes := s.toList.flatMap encodeChar

/-- The character that two surrogates stand for, from the four bytes that carry their bits. -/
def surrogatePair (second third fifth sixth : UInt8) : Char :=
  Char.ofNat (0x10000 + (((second.toNat % 16) * 64 + payload third) * 16 + fifth.toNat % 16) * 64
    + payload sixth)

/-- Reads the characters one form at a time; the first byte tells the form apart. -/
def decodeChars (b : Bytes) (read : List Char) : Option (List Char) :=
  match b with
  | [] => some read.reverse
  | first :: rest =>
    if first = 0 then none
    else if first < 0x80 then decodeChars rest (Char.ofNat first.toNat :: read)
    else
      match rest with
      | [] => none
      | second :: rest =>
        if first = 0xC0 then
          if second = 0x80 then decodeChars rest (Char.ofNat 0 :: read) else none
        else if !isContinuation second then none
        else if 0xC2 ≤ first && first ≤ 0xDF then
          decodeChars rest (Char.ofNat (first.toNat % 32 * 64 + payload second) :: read)
        else
          match rest with
          | [] => none
          | third :: rest =>
            if !isContinuation third then none
            else if threeByteForm first second then
              decodeChars rest
                (Char.ofNat ((first.toNat % 16 * 64 + payload second) * 64 + payload third) :: read)
            else if first = 0xED && 0xA0 ≤ second && second ≤ 0xAF then
              match rest with
              | fourth :: fifth :: sixth :: rest =>
                if fourth = 0xED && 0xB0 ≤ fifth && fifth ≤ 0xBF && isContinuation sixth then
                  decodeChars rest (surrogatePair second third fifth sixth :: read)
                else none
              | _ => none
            else none
where
  /-- The three-byte forms that UTF-8 has too. -/
  threeByteForm (first second : UInt8) : Bool :=
    (first = 0xE0 && 0xA0 ≤ second) || (0xE1 ≤ first && first ≤ 0xEC) ||
      (first = 0xED && second ≤ 0x9F) || (0xEE ≤ first && first ≤ 0xEF)

/-- Text that was never modified is taken as it stands, so plain UTF-8 is accepted as a whole. -/
def decode? (b : Bytes) : Option String :=
  match Utf8.decode? b with
  | some s => some s
  | none => (decodeChars b []).map .ofList

/-- Reads every byte string; one that is no modified UTF-8 is read as faulty UTF-8. -/
def decodeLossy (b : Bytes) : String := (decode? b).getD (Utf8.decodeLossy b)

end ClassRecovery.Text.ModifiedUtf8
