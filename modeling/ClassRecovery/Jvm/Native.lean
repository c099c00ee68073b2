import ClassRecovery.Error
import ClassRecovery.Jvm.Machine
import ClassRecovery.Text.Quoted

/-!
Calling a virtual machine. After a call that may throw the exception is taken and becomes a failure,
and every reference to a result is given back when the call is done with it.
-/

namespace ClassRecovery.Jvm

abbrev Checked (α : Type) := ExceptT Error (StateM Machine) α

namespace Checked

def jni {α : Type} (reason : String) : Checked α := throw (.jni reason)

def environment : Checked Unit := do
  let answer ← Machine.environmentAnswer
  if answer = Machine.detached then
    let code ← Machine.attachThread
    if code ≠ 0 then jni s!"AttachCurrentThreadAsDaemon failed: {code}"
  else if answer ≠ 0 then jni s!"GetEnv failed: {answer}"

/-- Uses a local reference and gives it back, whatever comes of it. -/
def holding {α : Type} (r : Option Reference) (use : Checked α) : Checked α :=
  andAlways (Machine.deleteLocal r) use

/-- A text that the machine can be handed: it ends at the first NUL, so it must not hold one. -/
def isPlain (s : String) : Bool := !decide ('\x00' ∈ s.toList)

def findClass? (name : String) : Native (Option Reference) :=
  if isPlain name then Machine.findClass name else return none

def methodId (isStatic : Bool) (owner : Object) (name signature : String) : Native Bool :=
  if isPlain name && isPlain signature then Machine.methodId isStatic owner name signature
  else return false

def newString? (s : String) : Native (Option Reference) :=
  if isPlain s then Machine.newString (Text.Utf8.encode s) else return none

def stringText (r : Option Reference) : Native (Option String) := do
  match r with
  | none => return none
  | some r =>
    match ← Machine.stringChars r.object with
    | none => return none
    | some content =>
      Machine.releaseChars
      return some (Text.ModifiedUtf8.decodeLossy content)

def unprintable : String := "<unprintable exception>"

/-- What a throwable says about itself. Nothing stays pending. -/
def describeThrowable (t : Object) : Native String := do
  let cls ← Machine.objectClass t
  let text ←
    if ← methodId false cls.object "toString" "()Ljava/lang/String;" then
      let s ← Machine.callObject t "toString"
      let text ← stringText s
      Machine.deleteLocal s
      pure text
    else pure none
  Machine.deleteLocal (some cls)
  if ← Machine.exceptionCheck then Machine.clearException
  return text.getD unprintable

def takeException : Native (Option Reference) := do
  match ← Machine.exceptionOccurred with
  | none => return none
  | some t =>
    Machine.clearException
    return some t

def throwableIs (t : Object) (name : String) : Native Bool := do
  match ← findClass? name with
  | some cls =>
    Machine.deleteLocal (some cls)
    return Machine.isInstance t name
  | none =>
    Machine.clearException
    return false

/-- Fails if an exception is pending, and says in what connection. -/
def check (context : String) : Checked Unit := do
  match ← takeException with
  | none => return
  | some t =>
    let text ← describeThrowable t.object
    Machine.deleteLocal (some t)
    jni s!"{context}: {text}"

def withClass {α : Type} (name : String) (use : Object → Checked α) : Checked α := do
  match ← findClass? name with
  | some cls => holding (some cls) (use cls.object)
  | none =>
    check name
    jni s!"class {name} not found"

def requireMethod (className name signature : String) : Checked Unit :=
  withClass className fun cls => do
    let found ← methodId false cls name signature
    check name
    if !found then jni s!"method {className}.{name}{signature} not found"

def withString {α : Type} (s : String) (use : Checked α) : Checked α := do
  match ← newString? s with
  | some r => holding (some r) use
  | none =>
    check "NewStringUTF"
    jni s!"cannot create Java string for {Text.quoted s}"

def classClass : String := "java/lang/Class"
def loaderClass : String := "java/lang/ClassLoader"
def streamClass : String := "java/io/InputStream"

def withObject {α : Type} (cls : Object) (method signature : String)
    (use : Option Reference → Checked α) : Checked α := do
  requireMethod classClass method signature
  let r ← Machine.callObject cls method
  holding r do
    check ("Class." ++ method)
    use r

def callFlag (cls : Object) (method : String) : Checked Bool := do
  requireMethod classClass method "()Z"
  let value ← Machine.callBoolean cls method
  check method
  return value

end Checked

/-- A reference of any thread's own keeping. -/
def pin (o : Object) : Native (Option Reference) := Machine.newGlobal o

def unpin (r : Reference) : Native Unit := do
  match ← Checked.environment.run with
  | .ok () => Machine.deleteGlobal r
  | .error _ => return

end ClassRecovery.Jvm
