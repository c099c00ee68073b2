import ClassRecovery.Archive.Format
import ClassRecovery.Bytes

/-!
The extra fields of a record, each a kind, a size and a body. A body is taken as long as its kind
wants it, whatever its size says, and where the bytes run out the fields before that point count.
-/

namespace ClassRecovery.Archive.Extra

/-- The bytes not taken yet, the entry as changed by those taken, and whether it has a field that
says how it is encrypted. -/
structure Fields where
  entry : Entry
  strong : Bool := false
  rest : Bytes

abbrev Scan := OptionT (StateT Fields (Except Fault))

def take (width : Nat) : Scan Nat := do
  match (← get).rest.take? width with
  | some (front, rest) =>
    modify ({ · with rest })
    return Bytes.littleEndian front
  | none => failure

/-- The greatest number a narrow field can hold stands for one that did not fit. -/
def wide : Nat := 0xFFFFFFFF

/-- Takes a number that did not fit; says how many bytes that were. -/
def widen (now : Nat) (put : Entry → Nat → Entry) : Scan Nat := do
  if now = wide then
    let n ← take 8
    modify fun f => { f with entry := put f.entry n }
    return 8
  else return 0

/-- The numbers that did not fit come in this order. -/
def widenAll (e : Entry) : Scan Nat := do
  let size ← widen e.size fun e size => { e with size }
  let packed ← widen e.packedSize fun e packedSize => { e with packedSize }
  let header ← widen e.header fun e header => { e with header }
  return size + packed + header

/-- How the entry is encrypted, and the method that the encryption took the place of. -/
def encryption (size : Nat) : Scan Unit := do
  if size ≠ 7 then throwThe Fault (.unsupported "AES extra data field has an unsupported length")
  let version ← take 2
  let vendor ← take 2
  let strength ← take 1
  let method ← take 2
  if vendor ≠ 0x4541 then throwThe Fault (.invalid "Invalid AES vendor")
  if version ≠ 1 ∧ version ≠ 2 then throwThe Fault (.invalid "Invalid AES vendor version")
  if strength = 0 ∨ 3 < strength then
    throwThe Fault (.invalid "Invalid AES encryption strength")
  modify fun f => { f with entry := { f.entry with method := .ofNumber method }, strong := true }

/-- A field. The whole size is skipped after the body of an encryption field too. -/
def field : Scan Unit := do
  let kind ← take 2
  let size ← take 2
  let counted ← match kind with
    | 0x0001 => widenAll (← get).entry
    | 0x9901 => do
      encryption size
      pure 0
    | _ => pure 0
  modify fun f => { f with rest := f.rest.drop (size - counted) }

/-- The fields up to the end; each takes some bytes. -/
def fields : (fuel : Nat) → Scan Unit
  | 0 => pure ()
  | fuel + 1 => do
    if (← get).rest.isEmpty then return
    field
    fields fuel

def apply (entry : Entry) (extra : Bytes) : Except Fault Fields := do
  let (_, f) ← (fields extra.length).run.run { entry, rest := extra }
  return f

end ClassRecovery.Archive.Extra
