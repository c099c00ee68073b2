import ClassRecovery.Archive.CodePage
import ClassRecovery.Archive.Crc32
import ClassRecovery.Archive.Extra
import ClassRecovery.Archive.Format
import ClassRecovery.Archive.Inflate
import ClassRecovery.Text.Utf8

/-!
Reading archives. The end record is searched from the end of the file backwards, so a comment may
follow it, and all offsets are counted from where the archive begins, so other data may precede it.
-/

namespace ClassRecovery.Archive

abbrev Read (α : Type) := Except Fault α

def slice (data : Array UInt8) (start n : Nat) : Read Bytes :=
  if start + n ≤ data.size then .ok (data.extract start (start + n)).toList
  else .error .endOfFile

def number (data : Array UInt8) (start width : Nat) : Read Nat := do
  return Bytes.littleEndian (← slice data start width)

def fieldOf (record : Bytes) (start width : Nat) : Nat :=
  Bytes.littleEndian ((record.drop start).take width)

structure EndRecord where
  disk : Nat
  directoryDisk : Nat
  entriesHere : Nat
  entries : Nat
  directorySize : Nat
  directoryOffset : Nat
  commentSize : Nat
  deriving Repr

/-- A field that holds the greatest number stands for one that did not fit. -/
def EndRecord.tooSmall (r : EndRecord) : Bool :=
  r.disk = 0xFFFF || r.directoryDisk = 0xFFFF || r.entriesHere = 0xFFFF || r.entries = 0xFFFF ||
    r.directorySize = 0xFFFFFFFF || r.directoryOffset = 0xFFFFFFFF

def readEndRecord (data : Array UInt8) (start : Nat) : Read EndRecord := do
  let r ← slice data start 22
  let commentSize := fieldOf r 20 2
  let _ ← slice data (start + 22) commentSize
  return ⟨fieldOf r 4 2, fieldOf r 6 2, fieldOf r 8 2, fieldOf r 10 2, fieldOf r 12 4,
    fieldOf r 16 4, commentSize⟩

def isEndAt (data : Array UInt8) (start : Nat) : Bool :=
  match number data start 4 with
  | .ok n => n = Format.endSignature
  | .error _ => false

/-- The last place at or before `start`, and not before `least`, where an end record starts. -/
def findEnd (data : Array UInt8) (least : Nat) : (start : Nat) → Option Nat
  | 0 => if least = 0 && isEndAt data 0 then some 0 else none
  | start + 1 =>
    if start + 1 < least then none
    else if isEndAt data (start + 1) then some (start + 1)
    else findEnd data least start

/-- Where the directory is, how much precedes the archive, and how many entries there are. -/
structure Location where
  offset : Nat
  start : Nat
  entries : Nat

def multiDisk : Fault := .unsupported "Support for multi-disk files is not implemented"

def badDirectory : Fault := .invalid "Invalid central directory size or offset"

/-- The end record with wide fields is searched forwards, from where it should be if nothing
preceded the archive. -/
def findWideEnd (data : Array UInt8) (nominal limit : Nat) : (tries : Nat) → Nat → Read Nat
  | 0, _ => .error (.invalid "Could not find ZIP64 central directory end")
  | tries + 1, start =>
    if limit < start then .error (.invalid "Could not find ZIP64 central directory end")
    else do
      if (← number data start 4) = Format.wideEndSignature then return start
      findWideEnd data nominal limit tries (start + 1)

def locateWide (data : Array UInt8) (r : EndRecord) (endStart locator : Nat) : Read Location := do
  let l ← slice data locator 20
  if !r.tooSmall && r.disk ≠ fieldOf l 4 4 then throw multiDisk
  if endStart < 60 then throw (.invalid "File cannot contain ZIP64 central directory end")
  let nominal := fieldOf l 8 8
  let start ← findWideEnd data nominal (endStart - 60) (endStart + 1) nominal
  let w ← slice data start 56
  if fieldOf w 16 4 ≠ fieldOf w 20 4 then throw multiDisk
  let offset := start - nominal
  if 1 <<< 64 ≤ fieldOf w 48 8 + offset then throw badDirectory
  return ⟨offset, fieldOf w 48 8 + offset, fieldOf w 32 8⟩

def locate (data : Array UInt8) (r : EndRecord) (endStart : Nat) : Read Location := do
  let back := 20 + 22 + r.commentSize
  if back ≤ data.size then
    let locator := data.size - back
    if (← number data locator 4) = Format.wideLocatorSignature then
      return ← locateWide data r endStart locator
  if endStart < r.directorySize + r.directoryOffset then throw badDirectory
  let offset := endStart - r.directorySize - r.directoryOffset
  return ⟨offset, r.directoryOffset + offset, r.entriesHere⟩

def readEntry (data : Array UInt8) (offset start : Nat) : Read (Entry × Nat) := do
  if (← number data start 4) ≠ Format.centralSignature then
    throw (.invalid "Invalid Central Directory header")
  let r ← slice data start 46
  let nameSize := fieldOf r 28 2
  let extraSize := fieldOf r 30 2
  let commentSize := fieldOf r 32 2
  let name ← slice data (start + 46) nameSize
  let extra ← slice data (start + 46 + nameSize) extraSize
  let _ ← slice data (start + 46 + nameSize + extraSize) commentSize
  let flags := fieldOf r 8 2
  let entry : Entry := {
    name := if flags >>> 11 % 2 = 1 then Text.Utf8.decodeLossy name else CodePage.decode name
    encrypted := flags % 2 = 1
    method := .ofNumber (fieldOf r 10 2)
    checksum := UInt32.ofNat (fieldOf r 16 4)
    packedSize := fieldOf r 20 4
    size := fieldOf r 24 4
    header := fieldOf r 42 4 }
  let ⟨entry, strong, _⟩ ← Extra.apply entry extra
  if entry.method = .other 99 ∧ !strong then
    throw (.invalid "AES encryption without AES extra data field")
  if 1 <<< 64 ≤ entry.header + offset then throw (.invalid "Archive header is too large")
  return ({ entry with header := entry.header + offset },
    start + 46 + nameSize + extraSize + commentSize)

def readEntries (data : Array UInt8) (offset : Nat) : (count start : Nat) → Read (List Entry)
  | 0, _ => .ok []
  | count + 1, start => do
    let (entry, next) ← readEntry data offset start
    return entry :: (← readEntries data offset count next)

/-- Positions in a file are less than this. -/
def positions : Nat := 1 <<< 63

def Directory.read (data : Array UInt8) : Read Directory := do
  if data.size < 22 then throw (.invalid "Invalid zip header")
  let some start := findEnd data (data.size - (22 + 0xFFFF)) (data.size - 22)
    | throw (.invalid "Could not find central directory end")
  let r ← readEndRecord data start
  if !r.tooSmall && r.disk ≠ r.directoryDisk then throw multiDisk
  let l ← locate data r start
  if positions ≤ l.start then throw (.invalid "Could not seek to start of central directory")
  return ⟨← readEntries data l.offset l.entries l.start⟩

def packedBytes (data : Array UInt8) (e : Entry) : Read Bytes := do
  if e.encrypted then throw (.unsupported "Password required to decrypt file")
  if positions ≤ e.header then throw (.io .invalidArgument)
  if (← number data e.header 4) ≠ Format.localSignature then
    throw (.invalid "Invalid local file header")
  let nameSize ← number data (e.header + 26) 2
  let extraSize ← number data (e.header + 28) 2
  let start := e.header + 30 + nameSize + extraSize
  return (data.extract start (start + e.packedSize)).toList

/-- A sum that does not fit is noticed at the end, after everything was read. -/
def checked (e : Entry) (content : Bytes) : Except IoError Bytes :=
  if Crc32.checksum content = e.checksum then .ok content
  else .error ⟨.other, "Invalid checksum"⟩

/-- The content of an entry; the two kinds of failure are those of opening and of reading it. -/
def content (data : Array UInt8) (e : Entry) : Except Fault (Except IoError Bytes) := do
  let packed ← packedBytes data e
  match e.method with
  | .stored => return checked e packed
  | .deflated =>
    match Inflate.inflate packed with
    | .ok unpacked => return checked e unpacked
    | .error .corrupt => return .error ⟨.invalidInput, "corrupt deflate stream"⟩
    | .error .truncated => return .error ⟨.unexpectedEof, "incomplete deflate stream"⟩
  | .other _ => throw (.unsupported "Compression method not supported")

def readContent (data : Array UInt8) (e : Entry) : Except IoError Bytes :=
  match content data e with
  | .ok r => r
  | .error fault => .error fault.toIoError

end ClassRecovery.Archive
