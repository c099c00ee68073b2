import ClassRecovery.Bytes
import ClassRecovery.Text.Quoted

/-!
Reading class data from front to back. Every fault carries the offset at which it was found.
-/

namespace ClassRecovery.ClassFile

inductive Defect
  | truncated (needed left : Nat)
  | wrongMagic (found : Nat)
  | unknownTag (tag slot : Nat)
  | notText
  | notClass (slot : Nat)
  | unnamedClass (slot name : Nat)
  | thisClass (cause : Defect)
  deriving DecidableEq, Repr

/-- Eight digits, however small the number. -/
def hexWord (n : Nat) : String :=
  let digits := Nat.toDigits 16 n
  "0x" ++ .ofList (List.replicate (8 - digits.length) '0' ++ digits)

def Defect.message : Defect → String
  | .truncated needed left =>
    s!"unexpected end of class data (needed {needed} bytes, {left} left)"
  | .wrongMagic found => s!"invalid magic {hexWord found}"
  | .unknownTag tag slot => s!"unknown constant pool tag {tag} at entry #{slot}"
  | .notText => "invalid modified UTF-8 in Utf8 entry"
  | .notClass slot => s!"constant pool #{slot} is not a Class entry"
  | .unnamedClass slot name =>
    s!"Class entry #{slot} points at #{name}, which is not a Utf8 entry"
  | .thisClass cause => "this_class: " ++ cause.message

structure Malformed where
  offset : Nat
  defect : Defect
  deriving DecidableEq, Repr

/-- The bytes not read yet, and how many were read before them. -/
structure Cursor where
  offset : Nat
  rest : Bytes

namespace Cursor

def start (b : Bytes) : Cursor := ⟨0, b⟩

def take (n : Nat) (c : Cursor) : Except Malformed (Bytes × Cursor) :=
  match c.rest.take? n with
  | some (front, rest) => .ok (front, ⟨c.offset + n, rest⟩)
  | none => .error ⟨c.offset, .truncated n c.rest.length⟩

def number (n : Nat) (c : Cursor) : Except Malformed (Nat × Cursor) :=
  match c.take n with
  | .ok (b, c) => .ok (Bytes.bigEndian b, c)
  | .error e => .error e

end Cursor

end ClassRecovery.ClassFile
