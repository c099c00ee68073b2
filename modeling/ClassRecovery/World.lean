import ClassRecovery.Agent.Basic
import ClassRecovery.Archive.Format
import ClassRecovery.Capture.Locks
import ClassRecovery.FileSystem
import ClassRecovery.Instrument.Basic
import ClassRecovery.Jvm.Connection
import ClassRecovery.Jvm.Library

/-!
Everything that operations act upon. Parties that are shared are numbered, and what they keep stands
here under their numbers, so that an operation is a function of the state before it.
-/

namespace ClassRecovery

inductive GivenResource
  | bytes (content : Bytes)
  | unopenable (fault : IoError)
  /-- Opens, but reading stops at a fault behind the content. -/
  | unreadable (content : Bytes) (fault : IoError)
  deriving DecidableEq, Repr

structure GivenLoader where
  resources : Table String GivenResource := {}
  faults : Table String Error := {}
  classes : Table String ClassRef := {}
  log : List String := []

/-- An archive that a loader keeps open: the node of the file and what its directory said. -/
structure OpenJar where
  node : Nat
  directory : Archive.Directory

structure AnswerList where
  answers : List (Except Error Instrument)
  asked : Nat := 0

/-- A place where bytes are captured: its gateway, once it has one, the cache they go to, and the
locks of the classes that are being captured. -/
structure CapturePoint where
  gateway : Option Instrument := none
  cache : Nat
  installed : Bool := false
  locks : Capture.Locks := {}

/-- The listener of a virtual machine: the path of its socket and what it answers. -/
structure Listener where
  socket : String
  reply : Bytes
  waits : Bool
  node : Option Nat := none
  request : Option Bytes := none

/-- The hook into a virtual machine, of which a process has one: the tool environment, the
connection through which it sees classes, and what it was granted. -/
structure Hook where
  tool : Nat
  connection : Nat
  retransforms : Bool
  redefines : Bool
  queue : List Registration := []

structure World where
  files : FileSystem
  /-- What becomes of bytes that are written to a file: nothing if all of them get there, else what
  is in the file in the end, and the fault. -/
  device : Bytes → Option (Bytes × IoError) := fun _ => none
  archiveLoaders : Nat := 0
  jars : Table (Nat × Nat) OpenJar := {}
  loaders : Array GivenLoader := #[]
  members : Array (Except Error (List ClassRef)) := #[]
  transformers : Array Transformer := #[]
  gateways : Array Gateway := #[]
  instruments : Array GivenInstrument := #[]
  caches : Array Capture.Cache := #[]
  /-- The gateways with a transformation under way on this thread, the latest first. -/
  inFlight : List Nat := []
  /-- The instruments that are shared out; the first slot is that of the process. -/
  handles : Array (Option Instrument) := #[none]
  answers : Array AnswerList := #[]
  points : Array CapturePoint := #[]
  questions : Array Nat := #[]
  agents : Array Agent := #[]
  listener : Option Listener := none
  /-- The name under which the process knows itself. -/
  process : String := "self"
  link : Jvm.Link := {}
  hook : Option Hook := none
  /-- Whether an entry point has handed the virtual machine over. -/
  handedOver : Bool := false
  /-- The tool environment that all collectors share for properties. -/
  propertyTool : Option Nat := none
  hasAgent : Bool := false
  libraries : Table String Jvm.LibraryKind := {}
  image : List Jvm.LibraryKind := []

/-- An operation that may fail; what it did before it failed stays done. -/
abbrev Attempt (ε α : Type) := ExceptT ε (StateM World) α

abbrev Action (α : Type) := StateM World α

section Running

variable {ε α β : Type} (w : World)

theorem Action.get_bind (f : World → Action α) : (get >>= f) w = f w w := rfl

theorem Action.bind_apply (a : Action α) (f : α → Action β) :
    (a >>= f) w = f (a w).1 (a w).2 := rfl

theorem Attempt.get_bind (f : World → Attempt ε α) : (get >>= f) w = f w w := rfl

theorem Attempt.lift_bind (a : Action α) (f : α → Attempt ε β) :
    ((liftM a : Attempt ε α) >>= f) w = f (a w).1 (a w).2 := rfl

end Running

namespace World

def withFiles {ε α : Type} (f : FileSystem → Except ε α) : Attempt ε α := do
  match f (← get).files with
  | .ok a => return a
  | .error e => throw e

def changeFiles {ε : Type} (f : FileSystem → Except ε FileSystem) : Attempt ε Unit := do
  match f (← get).files with
  | .ok files => modify fun w => { w with files }
  | .error e => throw e

/-- Opens a file, which empties it, and fills it as far as the device goes. -/
def fillFile (path : String) (bytes : Bytes) : Attempt IoError Unit := do
  match (← get).device bytes with
  | none => changeFiles (·.write path bytes)
  | some (part, e) =>
    changeFiles (·.write path part)
    throw e

/-- Changes the files as far as it goes. -/
def workFiles {ε : Type} (f : FileSystem → FileSystem × Except ε Unit) : Attempt ε Unit := do
  let (files, r) := f (← get).files
  modify fun w => { w with files }
  match r with
  | .ok () => return
  | .error e => throw e

def addTransformer (t : Transformer) : Action Nat :=
  modifyGet fun w => (w.transformers.size, { w with transformers := w.transformers.push t })

def updateTransformer (i : Nat) (f : Transformer → Transformer) : Action Unit :=
  modify fun w => { w with transformers := w.transformers.modify i f }

def addGateway (g : Gateway) : Action Nat :=
  modifyGet fun w => (w.gateways.size, { w with gateways := w.gateways.push g })

def updateGateway (i : Nat) (f : Gateway → Gateway) : Action Unit :=
  modify fun w => { w with gateways := w.gateways.modify i f }

def updateInstrument (i : Nat) (f : GivenInstrument → GivenInstrument) : Action Unit :=
  modify fun w => { w with instruments := w.instruments.modify i f }

def updateCache (i : Nat) (f : Capture.Cache → Capture.Cache) : Action Unit :=
  modify fun w => { w with caches := w.caches.modify i f }

def updateLoader (i : Nat) (f : GivenLoader → GivenLoader) : Action Unit :=
  modify fun w => { w with loaders := w.loaders.modify i f }

def updatePoint (i : Nat) (f : CapturePoint → CapturePoint) : Action Unit :=
  modify fun w => { w with points := w.points.modify i f }

def updateAgent (i : Nat) (f : Agent → Agent) : Action Unit :=
  modify fun w => { w with agents := w.agents.modify i f }

def updateHook (f : Hook → Hook) : Action Unit :=
  modify fun w => { w with hook := w.hook.map f }

def onLink {α : Type} (a : StateM Jvm.Link α) : Action α :=
  fun w => let (x, link) := a w.link; (x, { w with link })

def attemptLink {ε α : Type} (a : ExceptT ε (StateM Jvm.Link) α) : Attempt ε α :=
  fun w => let (x, link) := a w.link; (x, { w with link })

def onMachine {α : Type} (a : Jvm.Native α) : Action α := onLink (Jvm.Link.native a)

def attemptMachine {ε α : Type} (a : ExceptT ε (StateM Jvm.Machine) α) : Attempt ε α :=
  attemptLink (Jvm.Link.checked a)

def openSocket : Action Unit := modify fun w =>
  match w.listener with
  | none => w
  | some l =>
    match w.files.write l.socket [] with
    | .error _ => w
    | .ok files =>
      { w with files, listener := some { l with node := (files.find l.socket).toOption.map (·.1) } }

def addCache : Action Nat :=
  modifyGet fun w => (w.caches.size, { w with caches := w.caches.push {} })

end World

end ClassRecovery
