import ClassRecovery.Attach.Command
import ClassRecovery.Attach.Reply
import ClassRecovery.Options
import ClassRecovery.World

/-!
Attaching to a virtual machine through the socket of its listener. The machine opens the socket
when it is signalled while a certain file exists, so that file is made first if there is no socket
yet, and taken away again however the attempt ends.
-/

namespace ClassRecovery.Attach

structure Target where
  process : String
  tools : Option String := none
  /-- The directory for temporary files, where the environment names one. -/
  temporary : Option String := none
  deriving DecidableEq, Repr

namespace Target

def socketName (t : Target) : String := ".java_pid" ++ t.process

def triggerName (t : Target) : String := ".attach_pid" ++ t.process

def dropRepeated : List String → List String
  | [] => []
  | p :: rest =>
    match dropRepeated rest with
    | [] => [p]
    | q :: rest => if Path.same p q then p :: rest else p :: q :: rest

def socketDirectories (t : Target) : List String :=
  dropRepeated <| t.tools.toList ++ t.temporary.toList ++
    ["/tmp", "/proc/" ++ t.process ++ "/root/tmp"]

def socket? (t : Target) (fs : FileSystem) : Option String :=
  (t.socketDirectories.map (Path.join · t.socketName)).find? fs.isPresent

/-- Where the file that wakes the listener may be made. -/
def triggerPaths (t : Target) : List String :=
  [Path.join ("/proc/" ++ t.process ++ "/cwd") t.triggerName,
    Path.join (t.temporary.getD "/tmp") t.triggerName]

end Target

def makeFirst : List String → Action (Option String)
  | [] => return none
  | path :: rest => do
    match (← get).files.write path [] with
    | .ok files =>
      modify fun w => { w with files }
      return some path
    | .error _ => makeFirst rest

def removeQuietly (path : String) : Action Unit := do
  match (← get).files.removeFile path with
  | .ok files => modify fun w => { w with files }
  | .error _ => return

/-- Only a process that exists can be signalled. A listener that waits for it opens its socket. -/
def signal (t : Target) : Action Bool := do
  let w ← get
  if w.files.isDirectory ("/proc/" ++ t.process) then
    match w.listener with
    | some l =>
      if l.waits && w.files.isPresent t.triggerName then World.openSocket
    | none => pure ()
    return true
  else return false

/-- The longest path a socket can have, in bytes. -/
def socketPathLimit : Nat := 107

def connect (path : String) : Attempt IoError Unit := do
  if socketPathLimit < FileSystem.byteLength path then
    throw ⟨.invalidInput, "path must be shorter than SUN_LEN"⟩
  let w ← get
  let (node, content) ← World.withFiles (·.find path)
  if !content.allows .write then throw .permissionDenied
  if (w.listener.bind (·.node)) ≠ some node then throw .connectionRefused

def exchange (request : Bytes) : Action Bytes := do
  modify fun w =>
    { w with listener := w.listener.map fun l => { l with request := some request } }
  return ((← get).listener.map (·.reply)).getD []

def send (path : String) (c : Command) : Attempt Error Unit := do
  mapFailure (fun e => .attach s!"connect {path}: {e.text}") (connect path)
  match Text.Utf8.decode? (← exchange c.encode) with
  | none => throw (.attach s!"read attach reply: {IoError.notUtf8.text}")
  | some reply =>
    match Reply.parse reply with
    | .ok () => return
    | .error fault => throw fault.error

def awaken (t : Target) : Attempt Error String := do
  match ← makeFirst t.triggerPaths with
  | none => throw (.attach s!"cannot create {t.triggerName}")
  | some trigger =>
    let signalled ← signal t
    let socket := t.socket? (← get).files
    removeQuietly trigger
    if !signalled then
      throw (.attach s!"cannot signal process {t.process}: No such process (os error 3)")
    match socket with
    | some socket => return socket
    | none => throw (.attach s!"attach listener of process {t.process} did not start")

def attach (t : Target) (c : Command) : Attempt Error Unit := do
  match t.socket? (← get).files with
  | some socket => send socket c
  | none => send (← awaken t) c

end ClassRecovery.Attach
