import ClassRecovery.Jvm.Description
import ClassRecovery.Outcome

/-!
A running virtual machine as its native interface shows it: objects are reached by references, which
stay alive until they are given back, and a fault leaves an exception pending. What is called is
noted, as far as a caller could tell.
-/

namespace ClassRecovery.Jvm

inductive Object
  | cls (key : String)
  | loader (name : String)
  | string (content : Bytes)
  | classes (elements : List (Option String))
  | bytes (index size : Nat)
  | stream (index : Nat) (path : String)
  | throwable (t : Throwable)
  deriving DecidableEq, Repr

namespace Object

def describe : Object → String
  | cls key => "class " ++ key
  | loader name => "loader " ++ name
  | string content => "string " ++ Text.ModifiedUtf8.decodeLossy content
  | classes elements => s!"array[{elements.length}]"
  | bytes _ size => s!"bytes[{size}]"
  | stream _ path => "stream " ++ path
  | throwable t => "throwable " ++ t.className

def name? : Object → Option String
  | cls name | loader name => some name
  | _ => none

/-- What an object is called where faults are laid. -/
def subject : Object → String
  | cls key => key
  | loader name => name
  | stream _ path => path
  | throwable t => t.className
  | o => o.describe

end Object

def describe? (o : Option Object) : String := (o.map Object.describe).getD "null"

structure Reference where
  number : Nat
  object : Object
  deriving DecidableEq, Repr

structure References where
  next : Nat := 1
  live : List Reference := []
  /-- What was given back, the latest first. -/
  dropped : List Reference := []

namespace References

def add (o : Object) (rs : References) : Reference × References :=
  (⟨rs.next, o⟩, { rs with next := rs.next + 1, live := ⟨rs.next, o⟩ :: rs.live })

def drop (r : Reference) (rs : References) : References :=
  { rs with live := rs.live.filter (·.number ≠ r.number), dropped := r :: rs.dropped }

end References

inductive Call
  | attachThread
  | findClass (name : String)
  | methodId (isStatic : Bool) (owner name signature : String)
  | clearException
  | newGlobal (o : Object)
  | deleteGlobal (o : Object)
  | element (index : Nat)
  | newByteArray (size : Nat)
  | region (start count : Nat)
  | invoke (receiver method : String) (arguments : List String)
  | tool (function arguments : String)
  deriving DecidableEq, Repr

def Call.text : Call → String
  | attachThread => "AttachCurrentThreadAsDaemon"
  | findClass name => s!"FindClass({name})"
  | methodId isStatic owner name signature =>
    (if isStatic then "GetStaticMethodID(" else "GetMethodID(") ++
      owner ++ "." ++ name ++ signature ++ ")"
  | clearException => "ExceptionClear"
  | newGlobal o => s!"NewGlobalRef({o.describe})"
  | deleteGlobal o => s!"DeleteGlobalRef({o.describe})"
  | element index => s!"GetObjectArrayElement({index})"
  | newByteArray size => s!"NewByteArray({size})"
  | region start count => s!"GetByteArrayRegion({start}, {count})"
  | invoke receiver method arguments =>
    receiver ++ "." ++ method ++ "(" ++ ", ".intercalate arguments ++ ")"
  | tool function arguments => s!"{function}({arguments})"

/-- What becomes of a single call, whatever is laid for its function. -/
inductive Turn
  | throws (t : Throwable)
  /-- Gives nothing and throws nothing. -/
  | nothing
  /-- A read gives no more than that. -/
  | atMost (size : Nat)
  deriving DecidableEq, Repr

structure OpenStream where
  spec : StreamSpec
  position : Nat := 0
  rest : Bytes := spec.content
  /-- Whether it gave nothing once already. -/
  paused : Bool := false

structure ToolSetup where
  /-- What was asked for last. -/
  capabilities : Jvmti.Capabilities := {}
  hooked : Bool := false
  enabled : Bool := false

structure Machine where
  description : Description := {}
  attached : Bool := true
  /-- The latest call first. -/
  log : List Call := []
  locals : References := {}
  globals : References := {}
  /-- Pieces of memory that are not given back. -/
  memory : Nat := 0
  pending : Option Throwable := none
  /-- Everything that was thrown, the latest first. -/
  raised : List Throwable := []
  changed : Table String Bytes := {}
  /-- What was put into arrays, from the start of each. -/
  arrays : Array Bytes := #[]
  streams : Array OpenStream := #[]
  /-- The functions that each tool environment lacks. -/
  tools : Array (List String) := #[]
  setup : ToolSetup := {}
  /-- What becomes of single calls, told by how many calls were noted before, the function and its
  subject. So any call can fail at any time, whatever the machine is like at other times. -/
  turns : Nat → String → String → Option Turn := fun _ _ _ => none

abbrev Native (α : Type) := StateM Machine α

namespace Machine

def note (c : Call) : Native Unit := modify fun m => { m with log := c :: m.log }

def raise (t : Throwable) : Native Unit :=
  modify fun m => { m with pending := some t, raised := t :: m.raised }

def turn (function subject : String) (m : Machine) : Option Turn :=
  m.turns m.log.length function subject

/-- Throws if it is the turn of an exception, and says whether it did. -/
def turnThrows (function subject : String) : Native Bool := do
  match (← get).turn function subject with
  | some (.throws t) => raise t; return true
  | _ => return false

/-- Throws if there is a fault laid for the function, and says whether it did. -/
def faults (function subject : String) : Native Bool := do
  if ← turnThrows function subject then return true
  match (← get).description.throwOf function subject with
  | some t => raise t; return true
  | none => return false

def isSilent (function subject : String) (m : Machine) : Bool :=
  decide (m.turn function subject = some .nothing)

def isNull (function subject : String) : Native Bool := do
  let m ← get
  let nulls := m.description.nulls
  return m.isSilent function subject || decide (function ∈ nulls) ||
    decide (function ++ ":" ++ subject ∈ nulls)

/-! ### References -/

def newLocal (o : Object) : Native Reference :=
  modifyGet fun m => let (r, locals) := m.locals.add o; (r, { m with locals })

def deleteLocal (r : Option Reference) : Native Unit :=
  match r with
  | some r => modify fun m => { m with locals := m.locals.drop r }
  | none => return

def newGlobal (o : Object) : Native (Option Reference) := do
  note (.newGlobal o)
  if ← isNull "NewGlobalRef" (o.name?.getD "") then return none
  if ← faults "NewGlobalRef" o.subject then return none
  modifyGet fun m => let (r, globals) := m.globals.add o; (some r, { m with globals })

def deleteGlobal (r : Reference) : Native Unit := do
  note (.deleteGlobal r.object)
  modify fun m => { m with globals := m.globals.drop r }

/-! ### Threads -/

def detached : Int := -2

def environmentAnswer : Native Int := do
  let m ← get
  return m.description.environmentAnswer.getD (if m.attached then 0 else detached)

def attachThread : Native Int := do
  note .attachThread
  let answer := (← get).description.attachAnswer
  if answer = 0 then modify fun m => { m with attached := true }
  return answer

/-- Goes on as another thread and says whether the one before was attached. What is pending stays
so for every thread. -/
def switchThread (attached : Bool) : Native Bool :=
  modifyGet fun m => (m.attached, { m with attached })

/-! ### Exceptions -/

def exceptionOccurred : Native (Option Reference) := do
  match (← get).pending with
  | some t => some <$> newLocal (.throwable t)
  | none => return none

def exceptionCheck : Native Bool := return (← get).pending.isSome

def clearException : Native Unit := do
  note .clearException
  modify fun m => { m with pending := none }

def linkageError (name reason : String) : Throwable where
  className := "java/lang/" ++ name
  text := some (.text ("java.lang." ++ name ++ ": " ++ reason))
  supers := ["java/lang/LinkageError"]

/-! ### Classes and methods -/

def findClass (name : String) : Native (Option Reference) := do
  note (.findClass name)
  if ← faults "FindClass" name then return none
  let m ← get
  if name ∈ m.description.silentClasses || m.isSilent "FindClass" name then return none
  if name ∈ m.description.missingClasses then
    raise (linkageError "NoClassDefFoundError" name)
    return none
  some <$> newLocal (.cls name)

/-- The function that looks a method up. -/
def lookup (isStatic : Bool) : String := if isStatic then "GetStaticMethodID" else "GetMethodID"

def methodId (isStatic : Bool) (owner : Object) (name signature : String) : Native Bool := do
  note (.methodId isStatic owner.subject name signature)
  if ← faults (lookup isStatic) name then return false
  let m ← get
  if name ∈ m.description.silentMethods || m.isSilent (lookup isStatic) name then return false
  if name ∈ m.description.missingMethods then
    raise (linkageError "NoSuchMethodError" name)
    return false
  return true

def objectClass (o : Object) : Native Reference :=
  newLocal <| .cls <| match o with
    | .throwable t => t.className
    | .cls _ => "java/lang/Class"
    | _ => "java/lang/Object"

def isInstance (o : Object) (className : String) : Bool :=
  match o with
  | .throwable t => t.className = className || decide (className ∈ t.supers)
  | _ => false

/-! ### Strings -/

/-- Strings keep the bytes they are made of. -/
def newString (content : Bytes) : Native (Option Reference) := do
  if ← isNull "NewStringUTF" "" then return none
  if ← faults "NewStringUTF" "" then return none
  some <$> newLocal (.string content)

def stringChars (o : Object) : Native (Option Bytes) := do
  if ← isNull "GetStringUTFChars" "" then return none
  if ← turnThrows "GetStringUTFChars" "" then return none
  modify fun m => { m with memory := m.memory + 1 }
  match o with
  | .string content => return some content
  | _ => return some []

def releaseChars : Native Unit := modify fun m => { m with memory := m.memory - 1 }

/-! ### Methods of objects -/

def invoke {α : Type} (receiver method : String) (arguments : List String) (subject : String)
    (fallback : α) (result : Native α) : Native α := do
  note (.invoke receiver method arguments)
  if ← faults method subject then return fallback
  result

def newLocal? (o : Option Object) : Native (Option Reference) :=
  match o with
  | some o => some <$> newLocal o
  | none => return none

def callObject (receiver : Object) (method : String) : Native (Option Reference) :=
  invoke receiver.describe method [] receiver.subject none do
    let d := (← get).description
    match receiver, method with
    | .cls key, "getName" => newLocal? ((d.nameOf key).map fun t => .string t.bytes)
    | .cls key, "getClassLoader" => newLocal? ((d.classOf key).loader.map .loader)
    | .cls key, "getDeclaredClasses" => newLocal? ((d.classOf key).declared.map .classes)
    | .throwable t, "toString" =>
      match t.textFault with
      | some className => raise { className }; return none
      | none => newLocal? (t.text.map fun t => .string t.bytes)
    | _, _ => return none

def callBoolean (receiver : Object) (method : String) : Native Bool :=
  invoke receiver.describe method [] receiver.subject false do
    match receiver with
    | .cls key => return decide (method ∈ ((← get).description.classOf key).flags)
    | _ => return false

def callVoid (receiver : Object) (method : String) : Native Unit :=
  invoke receiver.describe method [] receiver.subject () (return ())

def openStream (spec : StreamSpec) (path : String) : Native (Option Reference) := do
  let index := (← get).streams.size
  modify fun m => { m with streams := m.streams.push { spec } }
  some <$> newLocal (.stream index path)

def findStream (loader : Option String) (path : String) : Native (Option Reference) := do
  match (← get).description.resource loader path with
  | some spec => openStream spec path
  | none => return none

/-- The stream of a resource. The loader of the system is asked by a static method. -/
def resourceStream (loader : Option String) (path : String) : Native (Option Reference) :=
  match loader with
  | some name => invoke ("loader " ++ name) "getResourceAsStream" [path] path none do
      if ← faults "getResourceAsStream" name then return none else findStream loader path
  | none =>
    invoke "java/lang/ClassLoader" "getSystemResourceAsStream" [path] path none
      (findStream loader path)

def systemLoader : Native (Option Reference) :=
  invoke "java/lang/ClassLoader" "getSystemClassLoader" [] "" none do
    newLocal? ((← get).description.systemLoader.map .loader)

def classNotFound (name : String) : Throwable where
  className := "java/lang/ClassNotFoundException"
  text := some (.text ("java.lang.ClassNotFoundException: " ++ name))

def forName (name : String) (loader : Option String) : Native (Option Reference) :=
  invoke "java/lang/Class" "forName" [name, "false", describe? (loader.map .loader)] name none do
    if ← isNull "forName" name then return none
    match (← get).description.classNamed name loader with
    | some key => some <$> newLocal (.cls key)
    | none => raise (classNotFound name); return none

/-! ### Arrays -/

def element (array : Object) (index : Nat) : Native (Option Reference) := do
  note (.element index)
  if ← faults "GetObjectArrayElement" (toString index) then return none
  match array with
  | .classes elements => newLocal? (elements[index]?.join.map .cls)
  | _ => return none

def newByteArray (size : Nat) : Native (Option Reference) := do
  note (.newByteArray size)
  if ← isNull "NewByteArray" "" then return none
  if ← faults "NewByteArray" "" then return none
  let index := (← get).arrays.size
  modify fun m => { m with arrays := m.arrays.push [] }
  some <$> newLocal (.bytes index size)

def region (array : Object) (start count : Nat) : Native Bytes := do
  note (.region start count)
  match array with
  | .bytes index _ => return ((((← get).arrays[index]?).getD []).drop start).take count
  | _ => return []

inductive Reading
  | throws (t : Throwable)
  | nothing
  | ended
  | gives (bytes : Bytes)

def reading (s : OpenStream) (size : Nat) : Reading :=
  let reached (limit : Option Nat) : Bool := limit.any (· ≤ s.position)
  if reached s.spec.throwAt then .throws s.spec.exception
  else if reached s.spec.emptyAt && !s.paused then .nothing
  else if s.rest = [] then .ended
  else .gives (s.rest.take (min size (s.spec.chunk.getD size)))

/-- The most that a read into an array gives now. -/
def portion (stream : Object) (size : Nat) (m : Machine) : Nat :=
  match m.turn "read" stream.subject with
  | some (.atMost most) => min most size
  | _ => size

/-- Reads into an array and says how much came, or less than nothing at the end. -/
def readStream (stream array : Object) : Native Int := do
  match stream, array with
  | .stream index _, .bytes buffer size =>
    invoke stream.describe "read" [array.describe, "0", toString size] stream.subject 0 do
      let m ← get
      match m.streams[index]?.map fun s => reading s (m.portion stream size) with
      | none | some .ended => return -1
      | some (.throws t) => raise t; return 0
      | some .nothing =>
        modify fun m =>
          { m with streams := m.streams.modify index fun s => { s with paused := true } }
        return 0
      | some (.gives bytes) =>
        modify fun m => { m with
          streams := m.streams.modify index fun s =>
            { s with position := s.position + bytes.length, rest := s.rest.drop bytes.length }
          arrays := m.arrays.setIfInBounds buffer bytes }
        return bytes.length
  | _, _ => return -1

end Machine

end ClassRecovery.Jvm
