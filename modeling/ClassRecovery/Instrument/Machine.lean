import ClassRecovery.Instrument.Series
import ClassRecovery.Jvm.Tool

/-!
The instrument of a virtual machine. A hook is installed into the machine once for the process; the
machine then calls it for every class file that is loaded or transformed again.
-/

namespace ClassRecovery.Hook

def use {α : Type} (a : Jvm.Tool.Use α) : Attempt Error α :=
  mapFailure .jvmti (World.attemptMachine a)

/-- What a hook asks for of what the machine offers. -/
def wanted (potential : Jvmti.Capabilities) : Jvmti.Capabilities :=
  let caps : Jvmti.Capabilities := {}
  (caps.set .retransform (potential.has .retransform)).set .redefine (potential.has .redefine)

def prepare (connection : Nat) : Attempt Error Hook := do
  let tool ← mapFailure Jvm.Tool.unavailable (World.attemptMachine Jvm.Tool.obtain)
  let potential ← use (Jvm.Tool.potentialCapabilities tool)
  use (Jvm.Tool.addCapabilities tool (wanted potential))
  let granted ← use (Jvm.Tool.capabilities tool)
  return { tool, connection, retransforms := granted.has .retransform,
           redefines := granted.has .redefine }

/-- Makes the hook known to the process, which then holds its connection. -/
def publish (h : Hook) : Action Unit := do
  World.onLink (Jvm.Link.retain h.connection)
  modify fun w => { w with hook := some h }

/-- The hook of the process. The first one that is made known stays, even if the machine then
refuses to call it. -/
def install (connection : Nat) : Attempt Error Instrument := do
  if (← get).hook.isSome then return .machine
  let h ← prepare connection
  publish h
  use (Jvm.Tool.setCallbacks h.tool true)
  use (Jvm.Tool.setEventMode h.tool true Jvm.Tool.classFileEvent)
  return .machine

structure ClassFile where
  cls : Option Jvm.Object
  loader : Option Jvm.Object
  name : Option Bytes
  bytes : Bytes

/-- Objects that are passed to a call live while it lasts. -/
def withArgument {α : Type} (o : Option Jvm.Object) (use : Option Jvm.Reference → Action α) :
    Action α := do
  let r ← World.onMachine (Jvm.Machine.newLocal? o)
  let x ← use r
  World.onMachine (Jvm.Machine.deleteLocal r)
  return x

/-- What cannot be found out about an event is left out of it. -/
def resolve {α : Type} (a : Jvm.Linked (Option α)) : Action (Option α) := do
  match ← World.onLink a.run with
  | .ok x => return x
  | .error _ => return none

def resolveClass (connection : Nat) (cls : Option Jvm.Reference) : Action (Option ClassRef) :=
  match cls with
  | none => return none
  | some cls => resolve (some <$> Jvm.Link.classOf connection cls)

/-- The transformers that are to see an event. -/
def audience (retransforming : Bool) (queue : List Registration) : List Nat :=
  if retransforming then Transform.capable queue else queue.map (·.transformer)

def transform (run : Runner) (h : Hook) (f : ClassFile) (cls loader : Option Jvm.Reference) :
    Action Verdict := do
  if h.queue = [] then return .unchanged
  let loader ← resolve (Jvm.Link.loaderFor h.connection loader)
  let redefined ← resolveClass h.connection cls
  let event : ClassFileEvent := ⟨loader, f.name.bind Text.Utf8.decode?, redefined, f.bytes⟩
  let verdict ← Transform.runSeries run event (audience cls.isSome h.queue)
  match redefined with
  | some ⟨_, _, _, .object index⟩ => World.onLink (Jvm.Link.releaseClass index)
  | _ => pure ()
  return verdict

/-- Called by the machine, with an environment of its own. The replacement is in memory that the
machine gives back. -/
def onClassFile (run : Runner) (f : ClassFile) : Action (Option Bytes) := do
  match (← get).hook with
  | none => return none
  | some h =>
    let verdict ← withArgument f.cls fun cls => withArgument f.loader fun loader =>
      transform run h f cls loader
    match verdict with
    | .unchanged | .panicked => return none
    | .replaced bytes =>
      let tool ← World.onMachine Jvm.Tool.environment
      match ← (World.attemptMachine (Jvm.Tool.allocate tool bytes.length)).run with
      | .error _ => return none
      | .ok () =>
        World.onMachine (modify fun m => { m with memory := m.memory - 1 })
        return some bytes

def isCalled (w : World) : Bool :=
  w.link.machine.setup.hooked && w.link.machine.setup.enabled

def fileName (d : Jvm.Description) (key : String) : Bytes :=
  Text.ModifiedUtf8.encode (ClassName.toInternal (d.findName key))

def change (run : Runner) (o : Jvm.Object) : Action Unit := do
  let w ← get
  match o with
  | .cls key =>
    match Jvm.Tool.bytesOf w.link.machine key with
    | none => return
    | some bytes =>
      let d := w.link.machine.description
      let f : ClassFile :=
        ⟨some o, (d.classOf key).loader.map .loader, some (fileName d key), bytes⟩
      if isCalled w then
        match ← onClassFile run f with
        | some bytes => World.onMachine (Jvm.Tool.setBytes o bytes)
        | none => return
  | _ => return

def retransformObjects (run : Runner) (tool : Nat) (objects : List Jvm.Object) :
    Attempt Error Unit := do
  use (Jvm.Tool.retransform tool objects)
  objects.forM fun o => change run o

def objectOf (c : ClassRef) : Attempt Error Jvm.Object := do
  let foreign : Error := .jni s!"{c.name} is not a class of this JVM"
  match c.origin with
  | .object index =>
    match (← get).link.held[index]? with
    | some h => return h.reference.object
    | none => throw foreign
  | _ => throw foreign

/-- The hook of the process, which must have been granted something. -/
def granted (allows : Hook → Bool) : Attempt Error Hook := do
  match (← get).hook with
  | some h => if allows h then return h else throw (.jvmti .mustPossessCapability)
  | none => throw (.jvmti .mustPossessCapability)

def retransform (run : Runner) (classes : List ClassRef) : Attempt Error Unit := do
  let h ← granted (·.retransforms)
  retransformObjects run h.tool (← classes.mapM objectOf)

def redefine (c : ClassRef) (bytes : Bytes) : Attempt Error Unit := do
  let h ← granted (·.redefines)
  use (Jvm.Tool.redefine h.tool [(← objectOf c, bytes)])

def isModifiable (c : ClassRef) : Attempt Error Bool := do
  let h ← granted fun _ => true
  use (Jvm.Tool.isModifiable h.tool (← objectOf c))

/-- Classes about which something cannot be found out are left out. -/
def collect (connection : Nat) : List Jvm.Reference → (found : List ClassRef) →
    Action (List ClassRef)
  | [], found => return found.reverse
  | r :: rest, found => do
    let c ← resolve (Jvm.Link.holding (some r) (some <$> Jvm.Link.classOf connection (some r)))
    collect connection rest (c.toList ++ found)

def allLoaded : Attempt Error (List ClassRef) := do
  let h ← granted fun _ => true
  World.attemptMachine Jvm.Checked.environment
  collect h.connection (← use (Jvm.Tool.loadedClasses h.tool)) []

end ClassRecovery.Hook
