import ClassRecovery.Archive.Crc32
import ClassRecovery.Archive.Deflate
import ClassRecovery.Archive.Format
import ClassRecovery.Text.Utf8

/-!
Writing archives. Packed entries come one after the other, and the directory follows in the same
order. A packed form that would not unpack to what it stands for is not written, so every entry can
be read back.
-/

namespace ClassRecovery.Archive

/-- The names of an archive are UTF-8; a flag says so where plain ASCII does not do. -/
def nameFlags (name : String) : Nat :=
  if name.toList.all (·.toNat < 0x80) then 0 else 0x800

def firstDay : Nat := 0x21

def unpacksTo (packed content : Bytes) : Bool :=
  match Inflate.inflate packed with
  | .ok b => b == content
  | .error _ => false

structure Item where
  name : String
  checksum : UInt32
  size : Nat
  method : Method
  packed : Bytes
  deriving DecidableEq, Repr

def Item.ofContent (name : String) (content : Bytes) : Item :=
  let packed := Deflate.deflate content
  let form := if unpacksTo packed content then (Method.deflated, packed) else (.stored, content)
  ⟨name, Crc32.checksum content, content.length, form.1, form.2⟩

namespace Item

/-- The fields that both records of an entry share. -/
def sharedFields (e : Item) : Bytes :=
  Bytes.ofLittleEndian 2 (nameFlags e.name) ++
  Bytes.ofLittleEndian 2 e.method.number ++
  Bytes.ofLittleEndian 2 0 ++
  Bytes.ofLittleEndian 2 firstDay ++
  Bytes.ofLittleEndian 4 e.checksum.toNat ++
  Bytes.ofLittleEndian 4 e.packed.length ++
  Bytes.ofLittleEndian 4 e.size ++
  Bytes.ofLittleEndian 2 (Text.Utf8.encode e.name).length

def localRecord (e : Item) : Bytes :=
  Bytes.ofLittleEndian 4 Format.localSignature ++
  Bytes.ofLittleEndian 2 20 ++
  e.sharedFields ++
  Bytes.ofLittleEndian 2 0 ++
  Text.Utf8.encode e.name ++
  e.packed

def centralRecord (e : Item) (offset : Nat) : Bytes :=
  Bytes.ofLittleEndian 4 Format.centralSignature ++
  Bytes.ofLittleEndian 2 (3 * 256 + 46) ++
  Bytes.ofLittleEndian 2 20 ++
  e.sharedFields ++
  Bytes.ofLittleEndian 2 0 ++
  Bytes.ofLittleEndian 2 0 ++
  Bytes.ofLittleEndian 2 0 ++
  Bytes.ofLittleEndian 2 0 ++
  Bytes.ofLittleEndian 4 (0o100644 <<< 16) ++
  Bytes.ofLittleEndian 4 offset ++
  Text.Utf8.encode e.name

end Item

def endRecord (count size offset : Nat) : Bytes :=
  Bytes.ofLittleEndian 4 Format.endSignature ++
  Bytes.ofLittleEndian 2 0 ++
  Bytes.ofLittleEndian 2 0 ++
  Bytes.ofLittleEndian 2 count ++
  Bytes.ofLittleEndian 2 count ++
  Bytes.ofLittleEndian 4 size ++
  Bytes.ofLittleEndian 4 offset ++
  Bytes.ofLittleEndian 2 0

def localPart (items : List Item) : Bytes := items.flatMap Item.localRecord

/-- The directory of entries that are written from `offset` on. -/
def centralPart : (offset : Nat) → List Item → Bytes
  | _, [] => []
  | offset, e :: rest =>
    e.centralRecord offset ++ centralPart (offset + e.localRecord.length) rest

def write (entries : List (String × Bytes)) : Bytes :=
  let items := entries.map fun (name, content) => Item.ofContent name content
  let front := localPart items
  let directory := centralPart 0 items
  front ++ directory ++ endRecord items.length directory.length front.length

end ClassRecovery.Archive
