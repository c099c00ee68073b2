import ClassRecovery.Bytes

/-!
The check sum of archive entries: the remainder of a division by a fixed polynomial over bits, with
the bits of each byte taken from the low end.
-/

namespace ClassRecovery.Archive.Crc32

def polynomial : UInt32 := 0xEDB88320

def shift (r : UInt32) : UInt32 :=
  if r &&& 1 = 1 then (r >>> 1) ^^^ polynomial else r >>> 1

def update (r : UInt32) (b : UInt8) : UInt32 :=
  let r := r ^^^ b.toUInt32
  shift (shift (shift (shift (shift (shift (shift (shift r)))))))

def checksum (b : Bytes) : UInt32 := (b.foldl update 0xFFFFFFFF) ^^^ 0xFFFFFFFF

end ClassRecovery.Archive.Crc32
