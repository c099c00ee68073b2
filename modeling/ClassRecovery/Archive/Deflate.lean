import ClassRecovery.Archive.Deflate.Code
import ClassRecovery.Archive.Deflate.Match
import ClassRecovery.Archive.Inflate

/-!
Packing into DEFLATE streams. A match waits for the next place, which may have a longer one. A block
is written with codes of its own unless it is short, and as it is if packing does not make it
smaller.
-/

namespace ClassRecovery.Archive.Deflate

/-- A byte, or a repetition of what stands some way back. -/
inductive Piece
  | literal (b : UInt8)
  | copy (m : Match)
  deriving DecidableEq, Repr

structure Block where
  /-- Where the block starts, and how many bytes its pieces stand for. -/
  start : Nat
  covered : Nat := 0
  /-- The latest first. -/
  pieces : List Piece := []
  count : Nat := 0
  /-- The room its pieces take in memory. -/
  room : Nat := 1

/-- A literal takes one byte, a copy three, and every eight pieces a byte of marks. -/
def Block.add (b : Block) (p : Piece) : Block :=
  let (bytes, size) := match p with
    | .literal _ => (1, 1)
    | .copy m => (m.length, 3)
  { b with
    covered := b.covered + bytes
    pieces := p :: b.pieces
    count := b.count + 1
    room := b.room + size + if (b.count + 1) % 8 = 0 then 1 else 0 }

/-- A block ends when its room is used up, or when it is long and its pieces take almost as much
room as its bytes. -/
def Block.isFull (b : Block) : Bool :=
  64 * 1024 - 8 < b.room || 31 * 1024 < b.covered && b.covered ≤ b.room * 115 / 128

/-- Bits written so far: the full bytes, and a number with the last few bits. -/
structure Bits where
  bytes : Array UInt8 := #[]
  last : Nat := 0
  width : Nat := 0

namespace Bits

def drain : (fuel : Nat) → Bits → Bits
  | 0, w => w
  | fuel + 1, w =>
    if w.width < 8 then w
    else drain fuel ⟨w.bytes.push (UInt8.ofNat w.last), w.last / 256, w.width - 8⟩

/-- Writes the `n` low bits of a number, the lowest first. -/
def put (value n : Nat) (w : Bits) : Bits :=
  drain (n / 8 + 1) { w with last := w.last + value <<< w.width, width := w.width + n }

def pad (w : Bits) : Bits := w.put 0 ((8 - w.width % 8) % 8)

def putCode (codes : Array (Nat × Nat)) (symbol : Nat) (w : Bits) : Bits :=
  let (value, n) := codes[symbol]?.getD (0, 0)
  w.put value n

end Bits

/-- The last row of a table whose base is not above a number. -/
def rowOf (table : Array (Nat × Nat)) (n : Nat) : Nat :=
  (table.toList.takeWhile fun row => row.1 ≤ n).length - 1

/-- The symbol of a row, and what is above its base. -/
def putRow (table codes : Array (Nat × Nat)) (shift n : Nat) (w : Bits) : Bits :=
  let row := rowOf table n
  let (base, extra) := table[row]?.getD (0, 0)
  (w.putCode codes (shift + row)).put (n - base) extra

def putPiece (literals distances : Array (Nat × Nat)) (w : Bits) : Piece → Bits
  | .literal b => w.putCode literals b.toNat
  | .copy m =>
    putRow Inflate.distanceTable distances 0 m.distance
      (putRow Inflate.lengthTable literals 257 m.length w)

def endMark : Nat := 256

def putPieces (literals distances : List Nat) (pieces : List Piece) (w : Bits) : Bits :=
  let ls := codes literals
  let ds := codes distances
  (pieces.foldl (putPiece ls ds) w).putCode ls endMark

/-- How often each length or literal occurs, and each distance; the end mark occurs once. -/
def tally (pieces : List Piece) : Array Nat × Array Nat :=
  let count (a : Array Nat) (i : Nat) := a.modify i (· + 1)
  pieces.foldl (fun (ls, ds) p =>
    match p with
    | .literal b => (count ls b.toNat, ds)
    | .copy m => (count ls (257 + rowOf Inflate.lengthTable m.length),
        count ds (rowOf Inflate.distanceTable m.distance)))
    (count (Array.replicate 286 0) endMark, Array.replicate 30 0)

/-- A symbol of the code for lengths, and a number that follows it in some bits. -/
structure LengthSymbol where
  symbol : Nat
  extra : Nat := 0
  width : Nat := 0

/-- A number as a sum of as many `most` as possible and what is left. -/
def portions (most n : Nat) : List Nat :=
  List.replicate (n / most) most ++ if n % most = 0 then [] else [n % most]

/-- A run of one length. A run of zeros needs no first one to repeat. -/
def lengthRun (length n : Nat) : List LengthSymbol :=
  if length = 0 then
    (portions 138 n).flatMap fun n =>
      if n < 3 then List.replicate n ⟨0, 0, 0⟩
      else if n ≤ 10 then [⟨17, n - 3, 3⟩]
      else [⟨18, n - 11, 7⟩]
  else
    ⟨length, 0, 0⟩ :: (portions 6 (n - 1)).flatMap fun n =>
      if n < 3 then List.replicate n ⟨length, 0, 0⟩ else [⟨16, n - 3, 2⟩]

def lengthSymbols (lengths : List Nat) : List LengthSymbol :=
  (lengths.splitBy (· == ·)).flatMap fun run => lengthRun (run.headD 0) run.length

/-- The list without the zeros at its end, except for the first `least` elements. -/
def trimZeros (least : Nat) (l : List Nat) : List Nat :=
  l.take least ++ ((l.drop least).reverse.dropWhile (· = 0)).reverse

def putLengths (literals distances : List Nat) (w : Bits) : Bits :=
  let ls := trimZeros 257 literals
  let ds := trimZeros 1 distances
  let symbols := lengthSymbols (ls ++ ds)
  let lengths := codeLengths 7 ((List.range 19).map fun i => (symbols.map (·.symbol)).count i)
  let ordered := trimZeros 4 (Inflate.lengthOrder.map fun i => lengths.getD i 0)
  let w := ((w.put (ls.length - 257) 5).put (ds.length - 1) 5).put (ordered.length - 4) 4
  let w := ordered.foldl (fun w n => w.put n 3) w
  let cs := codes lengths
  symbols.foldl (fun w s => (w.putCode cs s.symbol).put s.extra s.width) w

def putFixed (pieces : List Piece) (w : Bits) : Bits :=
  putPieces Inflate.fixedLiterals (List.replicate 32 5) pieces (w.put 1 2)

def putOwn (pieces : List Piece) (w : Bits) : Bits :=
  let (ls, ds) := tally pieces
  let literals := codeLengths 15 ls.toList
  let distances := codeLengths 15 ds.toList
  putPieces literals distances pieces (putLengths literals distances (w.put 2 2))

def putPlain (bytes : Array UInt8) (w : Bits) : Bits :=
  let w := (w.put 0 2).pad
  let w := (w.put (bytes.size % 0x10000) 16).put (0xFFFF - bytes.size % 0x10000) 16
  bytes.foldl (fun w b => w.put b.toNat 8) w

/-- Writes a block. Its bytes can only be written as they are if they are still in the window. -/
def putBlock (data : Array UInt8) (b : Block) (inWindow last : Bool) (w : Bits) : Bits :=
  let w := w.put last.toNat 1
  let pieces := b.pieces.reverse
  let packed := if b.covered < 48 then putFixed pieces w else putOwn pieces w
  if 32 < b.covered ∧ b.covered ≤ packed.bytes.size - w.bytes.size + 1 ∧ inWindow then
    putPlain (data.extract b.start (b.start + b.covered)) w
  else packed

/-- The way through the data: where it has come to, the match that waits there since the place
before, the open block, and what was written. -/
structure Packer where
  place : Nat := 0
  waiting : Option Match := none
  block : Block := { start := 0 }
  written : Bits := {}

def windowSize : Nat := 32 * 1024

def longestLength : Nat := 258

/-- A match longer than this is taken at once. -/
def longEnough : Nat := 127

/-- A match of three bytes pays only if it is near, and none starts where the window wraps. -/
def Match.pays (m : Match) (place : Nat) : Bool :=
  !(m.length = 3 && 8 * 1024 ≤ m.distance) && place % windowSize ≠ m.distance

/-- Adds the pieces for the next place to the block; says how far that goes. -/
def Packer.choose (data : Array UInt8) (links : Array Nat) (p : Packer) : Packer × Nat :=
  let ahead := min longestLength (data.size - p.place)
  let farthest := min p.place (windowSize - ahead)
  let least := (p.waiting.map (·.length)).getD 2
  let found := longest data links p.place farthest ahead least
  let found := if found.pays p.place then found else ⟨0, 0⟩
  let before := Piece.literal (data[p.place - 1]?.getD 0)
  match p.waiting with
  | some m =>
    if m.length < found.length then
      let block := p.block.add before
      if longEnough < found.length then
        ({ p with block := block.add (.copy found), waiting := none }, found.length)
      else ({ p with block, waiting := some found }, 1)
    else ({ p with block := p.block.add (.copy m), waiting := none }, m.length - 1)
  | none =>
    if found.distance = 0 then
      ({ p with block := p.block.add (.literal (data[p.place]?.getD 0)) }, 1)
    else if longEnough < found.length then
      ({ p with block := p.block.add (.copy found) }, found.length)
    else ({ p with waiting := some found }, 1)

/-- Whether the block that is open at a place lies in the window, having come there by a move. -/
def inWindow (size start place moved : Nat) : Bool :=
  let ahead := min longestLength (size - (place - moved))
  place - start ≤ min (min (place - moved) (windowSize - ahead) + moved) windowSize

/-- Goes on to the end of the data; every move is by one byte at least. -/
def Packer.run (data : Array UInt8) (links : Array Nat) : (fuel moved : Nat) → Packer → Bits
  | 0, _, p => p.written
  | fuel + 1, moved, p =>
    if data.size ≤ p.place then
      (putBlock data p.block (inWindow data.size p.block.start p.place moved) true p.written).pad
    else
      let (p, moved) := p.choose data links
      let p := { p with place := p.place + moved }
      if p.block.isFull then
        let inside := inWindow data.size p.block.start p.place moved
        run data links fuel moved { p with
          written := putBlock data p.block inside false p.written
          block := { start := p.block.start + p.block.covered } }
      else run data links fuel moved p

def deflate (b : Bytes) : Bytes :=
  let data := b.toArray
  (Packer.run data (links data) (data.size + 1) 0 {}).bytes.toList

end ClassRecovery.Archive.Deflate
