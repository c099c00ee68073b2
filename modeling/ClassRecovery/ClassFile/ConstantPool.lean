import ClassRecovery.ClassFile.Cursor
import ClassRecovery.Text.ModifiedUtf8

/-!
The constant pool of a class file, as far as it names classes. Slots are numbered from one, and an
eight-byte number takes two, so that the numbers are those which the rest of the file uses.
-/

namespace ClassRecovery.ClassFile

inductive Entry
  | text (value : String)
  | classRef (name : Nat)
  /-- An entry that names no class and takes one slot. -/
  | narrow
  /-- An eight-byte number, which takes two slots. -/
  | wide
  deriving DecidableEq, Repr

def Entry.width : Entry → Nat
  | .wide => 2
  | _ => 1

/-- How many bytes follow the tag of an entry that is passed over. -/
def skippedSize? (tag : Nat) : Option Nat :=
  if tag ∈ [3, 4, 9, 10, 11, 12, 17, 18] then some 4
  else if tag ∈ [5, 6] then some 8
  else if tag ∈ [8, 16, 19, 20] then some 2
  else if tag = 15 then some 3
  else none

def readEntry (slot : Nat) (c : Cursor) : Except Malformed (Entry × Cursor) := do
  let (tag, c₁) ← c.number 1
  if tag = 1 then
    let (size, c₂) ← c₁.number 2
    let (raw, c₃) ← c₂.take size
    match Text.ModifiedUtf8.decode? raw with
    | some value => .ok (.text value, c₃)
    | none => .error ⟨c₂.offset, .notText⟩
  else if tag = 7 then
    let (name, c₂) ← c₁.number 2
    .ok (.classRef name, c₂)
  else
    match skippedSize? tag with
    | some size =>
      let (_, c₂) ← c₁.take size
      .ok (if size = 8 then .wide else .narrow, c₂)
    | none => .error ⟨c.offset, .unknownTag tag slot⟩

/-- A slot and the offset of the entry it belongs to; `none` where no entry starts. -/
structure Slot where
  offset : Nat
  entry : Option Entry
  deriving DecidableEq, Repr

def Entry.slots (offset : Nat) : Entry → List Slot
  | .wide => [⟨offset, some .wide⟩, ⟨offset, none⟩]
  | e => [⟨offset, some e⟩]

structure ConstantPool where
  slots : Array Slot
  deriving DecidableEq, Repr

namespace ConstantPool

/-- Reads entries until `left` more slots are filled; a wide entry may fill one beyond. -/
def readSlots : (left : Nat) → Array Slot → Cursor → Except Malformed (Array Slot × Cursor)
  | 0, slots, c => .ok (slots, c)
  | 1, slots, c =>
    match readEntry slots.size c with
    | .error e => .error e
    | .ok (entry, c') => .ok (slots.appendList (entry.slots c.offset), c')
  | left + 2, slots, c =>
    match readEntry slots.size c with
    | .error e => .error e
    | .ok (entry, c') =>
      let slots := slots.appendList (entry.slots c.offset)
      if entry.width = 2 then readSlots left slots c' else readSlots (left + 1) slots c'

def readHeader (c : Cursor) : Except Malformed (Unit × Cursor) := do
  let (magic, c) ← c.number 4
  if magic ≠ 0xCAFEBABE then throw ⟨0, .wrongMagic magic⟩
  let (_, c) ← c.take 4
  return ((), c)

/-- Reads the count and that many slots, slot zero included, which holds nothing. -/
def read (c : Cursor) : Except Malformed (ConstantPool × Cursor) := do
  let (count, c) ← c.number 2
  let (slots, c) ← readSlots (count - 1) #[⟨c.offset, none⟩] c
  return (⟨slots⟩, c)

def readFile (c : Cursor) : Except Malformed (ConstantPool × Cursor) := do
  let (_, c) ← readHeader c
  read c

def parse (b : Bytes) : Except Malformed ConstantPool :=
  (readFile (.start b)).map (·.1)

def count (pool : ConstantPool) : Nat := pool.slots.size

def entry? (pool : ConstantPool) (slot : Nat) : Option Entry :=
  pool.slots[slot]?.bind Slot.entry

def text? (pool : ConstantPool) (slot : Nat) : Option String :=
  match pool.entry? slot with
  | some (.text value) => some value
  | _ => none

/-- Where to look for a fault at `slot`; the last entry stands in for a slot beyond the pool. -/
def offsetOf (pool : ConstantPool) (slot : Nat) : Nat :=
  ((pool.slots[slot]?.orElse fun _ => pool.slots.back?).map Slot.offset).getD 0

def className (pool : ConstantPool) (slot : Nat) : Except Malformed String :=
  match pool.entry? slot with
  | some (.classRef name) =>
    match pool.text? name with
    | some value => .ok value
    | none => .error ⟨pool.offsetOf slot, .unnamedClass slot name⟩
  | _ => .error ⟨pool.offsetOf slot, .notClass slot⟩

def isClass (pool : ConstantPool) (slot : Nat) : Bool :=
  match pool.entry? slot with
  | some (.classRef _) => true
  | _ => false

/-- The slots at which class entries start, in ascending order. -/
def classSlots (pool : ConstantPool) : List Nat :=
  (List.range pool.count).filter pool.isClass

end ConstantPool

end ClassRecovery.ClassFile
