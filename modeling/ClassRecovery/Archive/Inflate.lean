import ClassRecovery.Bytes

/-!
Unpacking of DEFLATE streams. Bits are taken from the low end of each byte. A stream is found to be
corrupt as soon as the bits show it, so one that ends before that is only incomplete.
-/

namespace ClassRecovery.Archive.Inflate

inductive Stop
  | truncated
  | corrupt
  deriving DecidableEq, Repr

/-- How many bits were taken, and what was unpacked from them. -/
structure State where
  taken : Nat := 0
  out : Array UInt8 := #[]

abbrev Unpack := ExceptT Stop (StateM State)

/-- Takes `n` bits; the first is the lowest of the number. -/
def bits (data : Array UInt8) (n : Nat) : Unpack Nat := do
  let s ← get
  if s.taken + n ≤ 8 * data.size then
    set { s with taken := s.taken + n }
    let bit (i : Nat) : Nat := (data[(s.taken + i) / 8]?.getD 0).toNat >>> ((s.taken + i) % 8) % 2
    return (List.range n).foldl (fun v i => v + bit i <<< i) 0
  else throw .truncated

/-- A prefix code, in which codes of one length follow each other: how many codes each length has,
and the symbols in the order of their codes. A sparse code has no symbol at all, or a single one of
one bit, and leaves the other codes unused. -/
structure PrefixCode where
  counts : Array Nat
  symbols : Array Nat
  sparse : Bool

/-- The code in which symbol `i` has `lengths[i]` bits, if that uses up the codes or is sparse. -/
def PrefixCode.ofLengths? (lengths : List Nat) : Option PrefixCode :=
  let counts := (List.range 16).map fun n => if n = 0 then 0 else lengths.count n
  let used := (counts.drop 1).foldl (· + ·) 0
  let total := (List.range 16).foldl (fun t n => t * 2 + counts.getD n 0) 0
  let symbols := (List.range 16).flatMap fun n =>
    if n = 0 then [] else (lengths.zipIdx.filter (·.1 = n)).map (·.2)
  if total = 0x8000 then some ⟨counts.toArray, symbols.toArray, false⟩
  else if used = 0 ∨ used = 1 ∧ counts.getD 1 0 = 1 then
    some ⟨counts.toArray, symbols.toArray, true⟩
  else none

/-- Takes bits until they make up a code; in a sparse code the first bit shows whether they do. -/
def symbol (data : Array UInt8) (code : PrefixCode) : Unpack Nat :=
  go 15 1 0 0 0
where
  go : (left length value first index : Nat) → Unpack Nat
    | 0, _, _, _, _ => throw .corrupt
    | left + 1, length, value, first, index => do
      let value := value + (← bits data 1)
      let count := code.counts[length]?.getD 0
      if value < first + count then return code.symbols[index + (value - first)]?.getD 0
      else if code.sparse then throw .corrupt
      else go left (length + 1) (value * 2) ((first + count) * 2) (index + count)

def put (b : UInt8) : Unpack Unit :=
  modify fun s => { s with out := s.out.push b }

/-- Repeats what stands `distance` bytes back; before the start there are zeros. -/
def copy (distance : Nat) : (length : Nat) → Unpack Unit
  | 0 => pure ()
  | length + 1 => do
    modify fun s =>
      let b := if distance ≤ s.out.size then s.out[s.out.size - distance]?.getD 0 else 0
      { s with out := s.out.push b }
    copy distance length

/-- Base and extra bits of the length symbols from 257 on. -/
def lengthTable : Array (Nat × Nat) :=
  #[(3, 0), (4, 0), (5, 0), (6, 0), (7, 0), (8, 0), (9, 0), (10, 0), (11, 1), (13, 1), (15, 1),
    (17, 1), (19, 2), (23, 2), (27, 2), (31, 2), (35, 3), (43, 3), (51, 3), (59, 3), (67, 4),
    (83, 4), (99, 4), (115, 4), (131, 5), (163, 5), (195, 5), (227, 5), (258, 0)]

/-- Base and extra bits of the distance symbols. -/
def distanceTable : Array (Nat × Nat) :=
  #[(1, 0), (2, 0), (3, 0), (4, 0), (5, 1), (7, 1), (9, 2), (13, 2), (17, 3), (25, 3), (33, 4),
    (49, 4), (65, 5), (97, 5), (129, 6), (193, 6), (257, 7), (385, 7), (513, 8), (769, 8),
    (1025, 9), (1537, 9), (2049, 10), (3073, 10), (4097, 11), (6145, 11), (8193, 12), (12289, 12),
    (16385, 13), (24577, 13)]

/-- The value of a symbol of one of the tables, with its extra bits. -/
def extended (data : Array UInt8) (table : Array (Nat × Nat)) (i : Nat) : Unpack Nat :=
  match table[i]? with
  | some (base, extra) => return base + (← bits data extra)
  | none => throw .corrupt

/-- The symbols of a packed block up to its end mark. Each takes a bit at least, so there are no
more of them than `fuel`, the number of bits. -/
def packed (data : Array UInt8) (literals distances : PrefixCode) : (fuel : Nat) → Unpack Unit
  | 0 => throw .truncated
  | fuel + 1 => do
    let s ← symbol data literals
    if s < 256 then
      put (UInt8.ofNat s)
      packed data literals distances fuel
    else if s = 256 then pure ()
    else
      let length ← extended data lengthTable (s - 257)
      let distance ← extended data distanceTable (← symbol data distances)
      copy distance length
      packed data literals distances fuel

/-- A block of plain bytes, from the next full byte on. -/
def plain (data : Array UInt8) : Unpack Unit := do
  modify fun s => { s with taken := (s.taken + 7) / 8 * 8 }
  let size ← bits data 16
  let check ← bits data 16
  if size + check ≠ 0xFFFF then throw .corrupt
  bytes size
where
  bytes : Nat → Unpack Unit
    | 0 => pure ()
    | n + 1 => do
      put (UInt8.ofNat (← bits data 8))
      bytes n

def fixedLiterals : List Nat :=
  List.replicate 144 8 ++ List.replicate 112 9 ++ List.replicate 24 7 ++ List.replicate 8 8

/-- The order in which the lengths of the code for lengths are written. -/
def lengthOrder : List Nat := [16, 17, 18, 0, 8, 7, 9, 6, 10, 5, 11, 4, 12, 3, 13, 2, 14, 1, 15]

/-- Code lengths up to `wanted` of them; repetitions may not go beyond. -/
def codeLengths (data : Array UInt8) (code : PrefixCode) (wanted : Nat) :
    (fuel : Nat) → (read : Array Nat) → Unpack (Array Nat)
  | 0, read => pure read
  | fuel + 1, read => do
    if read.size = wanted then return read
    if wanted < read.size then throw .corrupt
    let s ← symbol data code
    if s < 16 then codeLengths data code wanted fuel (read.push s)
    else if s = 16 then
      match read.back? with
      | some last =>
        let n ← bits data 2
        codeLengths data code wanted fuel (read ++ Array.replicate (n + 3) last)
      | none => throw .corrupt
    else
      let n ← if s = 17 then (· + 3) <$> bits data 3 else (· + 11) <$> bits data 7
      codeLengths data code wanted fuel (read ++ Array.replicate n 0)

def codeOf (lengths : List Nat) : Unpack PrefixCode :=
  match PrefixCode.ofLengths? lengths with
  | some code => pure code
  | none => throw .corrupt

def ownCodes (data : Array UInt8) : Unpack (PrefixCode × PrefixCode) := do
  let literals := 257 + (← bits data 5)
  let distances := 1 + (← bits data 5)
  let orders := 4 + (← bits data 4)
  if 286 < literals ∨ 30 < distances then throw .corrupt
  let raw ← (lengthOrder.take orders).mapM fun i => (i, ·) <$> bits data 3
  let code ← codeOf ((List.range 19).map fun i => (raw.lookup i).getD 0)
  if code.sparse then throw .corrupt
  let lengths := (← codeLengths data code (literals + distances) 320 #[]).toList
  return (← codeOf (lengths.take literals), ← codeOf (lengths.drop literals))

def block (data : Array UInt8) (kind : Nat) : Unpack Unit :=
  match kind with
  | 0 => plain data
  | 1 => do
    let literals ← codeOf fixedLiterals
    let distances ← codeOf (List.replicate 32 5)
    packed data literals distances (8 * data.size + 1)
  | 2 => do
    let codes ← ownCodes data
    packed data codes.1 codes.2 (8 * data.size + 1)
  | _ => throw .corrupt

/-- The blocks up to the last; each takes three bits at least. -/
def blocks (data : Array UInt8) : (fuel : Nat) → Unpack Unit
  | 0 => throw .truncated
  | fuel + 1 => do
    let last ← bits data 1
    block data (← bits data 2)
    if last = 1 then pure () else blocks data fuel

/-- What a stream unpacks to. Bytes after its end do not count. -/
def inflate (b : Bytes) : Except Stop Bytes :=
  let data := b.toArray
  match (blocks data (8 * data.size + 1)).run.run {} with
  | (.ok (), s) => .ok s.out.toList
  | (.error stop, _) => .error stop

end ClassRecovery.Archive.Inflate
