import ClassRecovery.Error

/-!
The records of an archive file: a header before each entry, a central directory with one record for
each entry, and a record that ends the file and says where the directory is.
-/

namespace ClassRecovery.Archive

inductive Fault
  | io (cause : IoError)
  | invalid (reason : String)
  | unsupported (reason : String)
  deriving DecidableEq, Repr

def Fault.toIoError : Fault → IoError
  | .io cause => cause
  | .invalid reason => ⟨.invalidData, "invalid Zip archive: " ++ reason⟩
  | .unsupported reason => ⟨.invalidData, "unsupported Zip archive: " ++ reason⟩

/-- What reading past the end of the file comes to. -/
def Fault.endOfFile : Fault := .io ⟨.unexpectedEof, "failed to fill whole buffer"⟩

inductive Method
  | stored
  | deflated
  | other (number : Nat)
  deriving DecidableEq, Repr

def Method.ofNumber : Nat → Method
  | 0 => .stored
  | 8 => .deflated
  | n => .other n

def Method.number : Method → Nat
  | .stored => 0
  | .deflated => 8
  | .other n => n

structure Entry where
  name : String
  encrypted : Bool
  method : Method
  checksum : UInt32
  packedSize : Nat
  size : Nat
  /-- Where the header in front of the entry starts. -/
  header : Nat
  deriving DecidableEq, Repr

namespace Format

def localSignature : Nat := 0x04034b50
def centralSignature : Nat := 0x02014b50
def endSignature : Nat := 0x06054b50
def wideEndSignature : Nat := 0x06064b50
def wideLocatorSignature : Nat := 0x07064b50

end Format

/-- An open archive: its entries in the order of the central directory. -/
structure Directory where
  entries : List Entry
  deriving DecidableEq, Repr

/-- Of two entries of one name the later one counts. -/
def Directory.find? (d : Directory) (name : String) : Option Entry :=
  d.entries.reverse.find? (·.name = name)

end ClassRecovery.Archive
