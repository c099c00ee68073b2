import ClassRecovery.Jvm.Native

/-!
The tool interface of a virtual machine, one function at a time. A function that an environment
lacks fails as one that is not available, without a call.
-/

namespace ClassRecovery.Jvm.Tool

abbrev Use (α : Type) := ExceptT JvmtiCode (StateM Machine) α

def versionMismatch : Int := -3

def environment : Native Nat :=
  modifyGet fun m => (m.tools.size, { m with tools := m.tools.push m.description.missingFunctions })

/-- A new environment, of an older version if need be; fails with the answer to the request. -/
def obtain : ExceptT Int (StateM Machine) Nat := do
  Machine.note (.tool "GetEnv" "jvmti_1_2")
  let mut answer := (← get).description.toolAnswer
  if answer = versionMismatch then
    Machine.note (.tool "GetEnv" "jvmti_1_0")
    answer := (← get).description.olderToolAnswer
  if answer ≠ 0 then throw answer
  environment

def unavailable (code : Int) : Error := .jni s!"GetEnv(JVMTI) failed: {code}"

/-- The status of a call: that of a fault that is laid, or success. -/
def status (function arguments : String) : Native JvmtiCode := do
  Machine.note (.tool function arguments)
  return ((← get).description.toolErrors.lookup function).elim .none fun code => ⟨code⟩

/-- Fails where the environment lacks a function. -/
def requireFunction (tool : Nat) (function : String) : Use Unit := do
  if ((← get).tools[tool]?).any fun missing => decide (function ∈ missing) then
    throw JvmtiCode.notAvailable

/-- Calls a function, which the environment may lack and which may fail. -/
def call (tool : Nat) (function arguments : String) : Use Unit := do
  requireFunction tool function
  let code ← status function arguments
  if code ≠ .none then throw code

def setUp (f : ToolSetup → ToolSetup) : Native Unit :=
  modify fun m => { m with setup := f m.setup }

def capabilitiesText (caps : Jvmti.Capabilities) : String :=
  ",".intercalate (caps.toList.map Jvmti.Capability.name)

def capabilities (tool : Nat) : Use Jvmti.Capabilities := do
  call tool "GetCapabilities" ""
  let m ← get
  return match m.description.granted with
    | some caps => .ofList caps
    | none => m.setup.capabilities

def potentialCapabilities (tool : Nat) : Use Jvmti.Capabilities := do
  call tool "GetPotentialCapabilities" ""
  return .ofList (← get).description.potential

def addCapabilities (tool : Nat) (caps : Jvmti.Capabilities) : Use Unit := do
  call tool "AddCapabilities" (capabilitiesText caps)
  setUp fun s => { s with capabilities := caps }

/-- The size of the table of callbacks, in bytes. -/
def callbacksSize : Nat := 256

/-- Sets the hook for class files, or no callback at all. -/
def setCallbacks (tool : Nat) (hooked : Bool) : Use Unit := do
  let names := if hooked then "ClassFileLoadHook" else ""
  call tool "SetEventCallbacks" s!"{names}, {callbacksSize}"
  setUp fun s => { s with hooked }

def classFileEvent : Nat := 54

def setEventMode (tool : Nat) (on : Bool) (event : Nat) : Use Unit := do
  let mode := if on then 1 else 0
  call tool "SetEventNotificationMode" s!"{mode}, {event}, null"
  if event = classFileEvent then setUp fun s => { s with enabled := on }

def allocate (tool size : Nat) : Use Unit := do
  call tool "Allocate" (toString size)
  modify fun m => { m with memory := m.memory + 1 }

def deallocate (tool : Nat) : Use Unit := do
  call tool "Deallocate" ""
  modify fun m => { m with memory := m.memory - 1 }

/-- All class objects, in memory that is given back. -/
def loadedClasses (tool : Nat) : Use (List Reference) := do
  call tool "GetLoadedClasses" ""
  let d := (← get).description
  let keys := d.loaded.getD (d.classes.map (·.1))
  modify fun m => { m with memory := m.memory + 1 }
  let classes ← keys.mapM fun key => (Machine.newLocal (.cls key) : Native Reference)
  deallocate tool
  return classes

def isModifiable (tool : Nat) (o : Object) : Use Bool := do
  call tool "IsModifiableClass" o.describe
  match o with
  | .cls key => return ((← get).description.classOf key).modifiable
  | _ => return false

def retransform (tool : Nat) (classes : List Object) : Use Unit :=
  call tool "RetransformClasses" (", ".intercalate (classes.map Object.describe))

def bytesOf (m : Machine) (key : String) : Option Bytes :=
  (m.changed.get? key).orElse fun _ => (m.description.classOf key).bytes

def setBytes (o : Object) (bytes : Bytes) : Native Unit :=
  match o with
  | .cls key => modify fun m => { m with changed := m.changed.put key bytes }
  | _ => return

def describeDefinition (definition : Object × Bytes) : String :=
  s!"{definition.1.describe} {definition.2.length}"

def redefine (tool : Nat) (classes : List (Object × Bytes)) : Use Unit := do
  call tool "RedefineClasses" (", ".intercalate (classes.map describeDefinition))
  classes.forM fun (o, bytes) => (setBytes o bytes : Native Unit)

def takeProperty (tool : Nat) : Option PropertyAnswer → Use (Option String)
  | none | some .missing => return none
  | some (.failure code) =>
    if ⟨code⟩ ∈ [JvmtiCode.none, JvmtiCode.notAvailable] then return none else throw ⟨code⟩
  | some (.value text) => do
    modify fun m => { m with memory := m.memory + 1 }
    deallocate tool
    return some (Text.ModifiedUtf8.decodeLossy text.bytes)

/-- A property of the system. One that is not available is not set. -/
def systemProperty (tool : Nat) (key : String) : Use (Option String) := do
  if !Checked.isPlain key then throw JvmtiCode.nullPointer
  requireFunction tool "GetSystemProperty"
  let code ← status "GetSystemProperty" key
  if code = .none then takeProperty tool ((← get).description.properties.lookup key)
  else if code = .notAvailable then return none
  else throw code

def dispose (tool : Nat) : Use Unit := call tool "DisposeEnvironment" ""

/-- A property as those who ask for settings see it; a failure counts as not set. -/
def property (tool : Nat) (key : String) : Native (Option String) := do
  match ← (systemProperty tool key).run with
  | .ok value => return value
  | .error _ => return none

end ClassRecovery.Jvm.Tool
