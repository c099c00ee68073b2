import ClassRecovery.Jvm.Native

/-!
Reading resources through stream objects of the machine. A stream is pinned when it is opened, and
closed and let go when it is dropped.
-/

namespace ClassRecovery.Jvm

structure InputStream where
  reference : Reference
  ended : Bool := false
  deriving DecidableEq

namespace InputStream

def readLimit : Nat := 16 * 1024

def toIo (e : Error) : IoError := ⟨.other, e.message⟩

/-- The stream object of a resource; the machine's own loader is asked by a static method. -/
def resourceObject (loader : Option String) (path : String) : Checked (Option Reference) :=
  Checked.withString path do
    let signature := "(Ljava/lang/String;)Ljava/io/InputStream;"
    let stream ← match loader with
      | some _ => do
        Checked.requireMethod Checked.loaderClass "getResourceAsStream" signature
        Machine.resourceStream loader path
      | none =>
        Checked.withClass Checked.loaderClass fun cls => do
          if ← Checked.methodId true cls "getSystemResourceAsStream" signature then
            Machine.resourceStream none path
          else Checked.jni "ClassLoader.getSystemResourceAsStream not found"
    Checked.check "getResourceAsStream"
    return stream

def open? (loader : Option String) (path : String) :
    ExceptT IoError (StateM Machine) (Option InputStream) :=
  mapFailure toIo do
    Checked.environment
    let stream ← resourceObject loader path
    Checked.holding stream do
      match stream with
      | none => return none
      | some s =>
        match ← pin s.object with
        | some reference => return some { reference }
        | none => Checked.jni "cannot pin input stream"

def withArray {α : Type} (size : Nat) (use : Object → ExceptT IoError (StateM Machine) α) :
    ExceptT IoError (StateM Machine) α := do
  match ← Machine.newByteArray size with
  | some array => andAlways (Machine.deleteLocal (some array)) (use array.object)
  | none =>
    mapFailure toIo (Checked.check "NewByteArray")
    throw ⟨.outOfMemory, "NewByteArray failed"⟩

/-- Reads into a buffer of some size. Nothing is asked once the end was seen. -/
def read (s : InputStream) (size : Nat) :
    ExceptT IoError (StateM Machine) (Bytes × InputStream) := do
  if size = 0 || s.ended then return ([], s)
  mapFailure toIo Checked.environment
  let count := min size readLimit
  withArray count fun array => do
    let read ← mapFailure toIo do
      Checked.requireMethod Checked.streamClass "read" "([BII)I"
      let n ← Machine.readStream s.reference.object array
      Checked.check "InputStream.read"
      return n
    if read < 0 then return ([], { s with ended := true })
    return (← Machine.region array 0 read.toNat, s)

def close (s : InputStream) : Native Unit := do
  match ← Checked.environment.run with
  | .error _ => return
  | .ok () =>
    match ← (Checked.requireMethod Checked.streamClass "close" "()V").run with
    | .ok () => Machine.callVoid s.reference.object "close"
    | .error _ => pure ()
    if ← Machine.exceptionCheck then Machine.clearException

def drop (s : InputStream) : Native Unit := do
  s.close
  unpin s.reference

/-- A buffer that grows while it is read into: how much it holds, has room for, and takes at
once. -/
structure Growth where
  held : Nat := 0
  capacity : Nat := 0
  most : Nat := 8 * 1024
  /-- How much behind what it holds was offered to the last read and not used. -/
  offered : Nat := 0

namespace Growth

/-- Before there is a buffer, little is asked for, to see whether anything comes. -/
def probeSize : Nat := 32

def afterProbe (n : Nat) : Growth := { held := n, capacity := max 8 n }

/-- Makes room for more than a little in a buffer that has only that left. -/
def makeRoom (g : Growth) : Growth :=
  if g.capacity - g.held < probeSize then
    { g with capacity := max (2 * g.capacity) (g.held + probeSize), offered := 0 }
  else g

/-- What was offered before is used up first. -/
def size (g : Growth) : Nat :=
  if g.offered = 0 then min (g.capacity - g.held) g.most else g.offered

/-- Reads that fill all they are given are given more. -/
def add (n : Nat) (g : Growth) : Growth :=
  { g with
    held := g.held + n
    most := if g.most ≤ g.size ∧ n = g.size then 2 * g.most else g.most
    offered := g.size - n }

end Growth

/-- Reads on until nothing comes, at most `fuel` times. -/
def readOn : (fuel : Nat) → Growth → InputStream → (parts : List Bytes) →
    ExceptT IoError (StateM Machine) Bytes
  | 0, _, _, parts => return parts.reverse.flatten
  | fuel + 1, g, s, parts => do
    let g := g.makeRoom
    let (bytes, s) ← s.read g.size
    if bytes = [] then return parts.reverse.flatten
    readOn fuel (g.add bytes.length) s (bytes :: parts)

/-- How many reads a stream can take: each but the last gives at least a byte. -/
def readBound (s : InputStream) (m : Machine) : Nat :=
  match s.reference.object with
  | .stream index _ => ((m.streams[index]?.map fun t => t.spec.content.length).getD 0) + 1
  | _ => 1

def readAll (s : InputStream) : ExceptT IoError (StateM Machine) Bytes := do
  let bound := s.readBound (← get)
  let (bytes, s) ← s.read Growth.probeSize
  if bytes = [] then return []
  readOn bound (Growth.afterProbe bytes.length) s [bytes]

def readResource (loader : Option String) (path : String) :
    ExceptT IoError (StateM Machine) (Option Bytes) := do
  match ← open? loader path with
  | none => return none
  | some s => some <$> andAlways s.drop s.readAll

end InputStream

end ClassRecovery.Jvm
