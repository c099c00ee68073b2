import ClassRecovery.Bytes
import Std.Data.TreeMap

/-!
The search for repetitions. Every place is linked to the last one before it whose three bytes have
the same key, and links are followed back from the place where a repetition is wanted. Links are
numbers of 16 bits, and zero is no link.
-/

namespace ClassRecovery.Archive.Deflate

/-- Three bytes, as places are looked up by them. -/
def key (data : Array UInt8) (i : Nat) : Nat :=
  let byte (j : Nat) : Nat := (data[j]?.getD 0).toNat
  (byte i <<< 10 ^^^ byte (i + 1) <<< 5 ^^^ byte (i + 2)) % 0x8000

/-- For each place with three bytes, the last place before it with its key, or zero. -/
def links (data : Array UInt8) : Array Nat :=
  let add (s : Std.TreeMap Nat Nat × Array Nat) (i : Nat) :=
    (s.1.insert (key data i) i, s.2.push (s.1.getD (key data i) 0))
  ((List.range (data.size - 2)).foldl add (∅, #[])).2

/-- The length of a repetition, and how far back it starts; none if that is nothing. -/
structure Match where
  distance : Nat
  length : Nat
  deriving DecidableEq, Repr

/-- How many bytes from two places on are the same, up to a limit. -/
def common (data : Array UInt8) (i j : Nat) : (most : Nat) → Nat
  | 0 => 0
  | most + 1 => if data[i]? = data[j]? then common data (i + 1) (j + 1) most + 1 else 0

def agree (data : Array UInt8) (i j : Nat) : Bool :=
  data[i]? = data[j]? && data[i + 1]? = data[j + 1]?

/-- Follows at most `left` links from `place` for a longer match of what stands at `i`. Links are
counted in threes: whatever comes to be compared uses up its three. -/
def search (data : Array UInt8) (links : Array Nat) (i farthest most : Nat) :
    (left skipped place : Nat) → Match → Match
  | 0, _, _, best => best
  | left + 1, skipped + 1, place, best => search data links i farthest most left skipped place best
  | left + 1, 0, place, best =>
    let link := links[place]?.getD 0
    let distance := (i - link) % 0x10000
    let place := i - distance
    if link % 0x10000 = 0 ∨ farthest < distance then best
    else if !agree data (place + best.length - 1) (i + best.length - 1) then
      search data links i farthest most left 0 place best
    else if distance = 0 then best
    else
      let length := if agree data place i then common data place i most else 0
      if length ≤ best.length then search data links i farthest most left (left % 3) place best
      else if length = most then ⟨distance, length⟩
      else search data links i farthest most left (left % 3) place ⟨distance, length⟩

/-- The longest match that was found and is longer than `least`. After a long one the search is
short. -/
def longest (data : Array UInt8) (links : Array Nat) (i farthest most least : Nat) : Match :=
  if most ≤ least then ⟨0, least⟩
  else search data links i farthest most (if least < 32 then 129 else 33) 0 i ⟨0, least⟩

end ClassRecovery.Archive.Deflate
