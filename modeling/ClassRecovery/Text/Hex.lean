import ClassRecovery.Bytes

/-!
Byte strings written in hexadecimal digits, two to a byte.
-/

namespace ClassRecovery.Text

def hexDigit (n : UInt8) : Char := Nat.digitChar n.toNat

def hex (b : Bytes) : String :=
  b.foldl (fun s x => (s.push (hexDigit (x / 16))).push (hexDigit (x % 16))) ""

end ClassRecovery.Text
