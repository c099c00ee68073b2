/-!
Prefix codes for symbols that occur with known counts. An optimal code is found by merging the two
rarest trees over and over; of a tree only the number of leaves at each depth is kept.
-/

namespace ClassRecovery.Archive.Deflate

structure Tree where
  weight : Nat
  depths : List Nat

def addDepths : List Nat → List Nat → List Nat
  | [], bs => bs
  | as, [] => as
  | a :: as, b :: bs => (a + b) :: addDepths as bs

def Tree.merge (s t : Tree) : Tree := ⟨s.weight + t.weight, 0 :: addDepths s.depths t.depths⟩

/-- Takes the lightest of the leaves and merged trees, both in ascending order; of two that weigh
the same, the leaf. -/
def takeLightest : List Nat → List Tree → Option (Tree × List Nat × List Tree)
  | [], [] => none
  | [], t :: merged => some (t, [], merged)
  | w :: leaves, [] => some (⟨w, [1]⟩, leaves, [])
  | w :: leaves, t :: merged =>
    if t.weight < w then some (t, w :: leaves, merged) else some (⟨w, [1]⟩, leaves, t :: merged)

/-- Merges until one tree is left; each merge leaves one tree less. -/
def mergeAll : (fuel : Nat) → List Nat → List Tree → List Nat
  | 0, _, _ => []
  | fuel + 1, leaves, merged =>
    match takeLightest leaves merged with
    | none => []
    | some (s, leaves, merged) =>
      match takeLightest leaves merged with
      | none => s.depths
      | some (t, leaves, merged) => mergeAll fuel leaves (merged ++ [s.merge t])

/-- How much of all codes of `limit` bits codes with these depths use up. -/
def used (limit : Nat) (depths : List Nat) : Nat :=
  depths.zipIdx.foldl (fun total (n, depth) => total + n <<< (limit - depth)) 0

/-- Moves one leaf up from the lowest depth to make a pair with the lowest leaf above it. -/
def lift (limit : Nat) (depths : List Nat) : List Nat :=
  let depths := depths.modify limit (· - 1)
  match (List.range limit).reverse.find? fun i => i ≠ 0 ∧ depths.getD i 0 ≠ 0 with
  | some i => (depths.modify i (· - 1)).modify (i + 1) (· + 2)
  | none => depths

/-- Depths of at most `limit`, near those that were best. -/
def limitDepths (limit : Nat) (depths : List Nat) : List Nat :=
  let front := (List.range limit).map fun i => depths.getD i 0
  let capped := front ++ [(depths.drop limit).foldl (· + ·) 0]
  (List.range (used limit capped - 1 <<< limit)).foldl (fun depths _ => lift limit depths) capped

/-- The length of each symbol's code, by the symbols' counts; symbols that do not occur have none. A
single symbol takes one bit. -/
def codeLengths (limit : Nat) (counts : List Nat) : List Nat :=
  let sorted := (counts.zipIdx.filter (·.1 ≠ 0)).mergeSort fun a b => a.1 ≤ b.1
  let depths :=
    if sorted.length ≤ 1 then [0, sorted.length]
    else limitDepths limit (mergeAll sorted.length (sorted.map (·.1)) [])
  let lengths := depths.zipIdx.flatMap fun (n, depth) => List.replicate n depth
  let given := sorted.reverse.zip lengths
  (given.foldl (fun a (e, length) => a.setIfInBounds e.2 length)
    (Array.replicate counts.length 0)).toList

def reverseBits (value : Nat) : (n : Nat) → Nat
  | 0 => 0
  | n + 1 => (value % 2) <<< n + reverseBits (value / 2) n

/-- The first code of each length, if codes follow each other in the order of their lengths. -/
def firstCodes (lengths : List Nat) : Array Nat :=
  ((List.range 15).foldl (fun (codes, last) n =>
    let next := (last + if n = 0 then 0 else lengths.count n) * 2
    (codes.push next, next)) (#[0], 0)).1

/-- The codes with given lengths, with their first bits lowest, and those lengths. -/
def codes (lengths : List Nat) : Array (Nat × Nat) :=
  (lengths.foldl (fun (codes, next) length =>
    if length = 0 then (codes.push (0, 0), next)
    else
      let code : Nat := next[length]?.getD 0
      (codes.push (reverseBits code length, length), next.setIfInBounds length (code + 1)))
    ((#[] : Array (Nat × Nat)), firstCodes lengths)).1

end ClassRecovery.Archive.Deflate
