/-!
Byte strings, and the unsigned numbers that file formats write in them. A byte string is a plain
list: a format is then a list equation, and a reader takes the front off and hands on the rest.
-/

namespace ClassRecovery

abbrev Bytes := List UInt8

namespace Bytes

/-- Fails when fewer than `n` bytes are left; it looks at no byte beyond the `n` it takes. -/
def take? (n : Nat) (b : Bytes) : Option (Bytes × Bytes) :=
  go n b []
where
  go : Nat → Bytes → Bytes → Option (Bytes × Bytes)
    | 0, rest, taken => some (taken.reverse, rest)
    | _ + 1, [], _ => none
    | n + 1, x :: rest, taken => go n rest (x :: taken)

/-- The number whose digits in base 256 are `b`, the most significant first. -/
def bigEndian (b : Bytes) : Nat :=
  b.foldl (fun n x => n * 256 + x.toNat) 0

/-- The number whose digits in base 256 are `b`, the least significant first. -/
def littleEndian (b : Bytes) : Nat :=
  b.foldr (fun x n => n * 256 + x.toNat) 0

def ofLittleEndian : (width : Nat) → (n : Nat) → Bytes
  | 0, _ => []
  | width + 1, n => UInt8.ofNat n :: ofLittleEndian width (n / 256)

def ofBigEndian (width n : Nat) : Bytes := (ofLittleEndian width n).reverse

end Bytes

end ClassRecovery
