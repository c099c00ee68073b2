import ClassRecovery.Session.Basic

/-!
Steps on the native interface of a virtual machine. Each step takes the environment of its thread
first; what it made it gives back.
-/

namespace ClassRecovery.Session

open Jvm (Throwable MachineText Checked)

inductive NativeStep
  | environment (newThread : Bool)
  | findClass (name : String)
  | methodId (isStatic : Bool) (owner name signature : String)
  | newString (value : String)
  | stringText (value : Option MachineText)
  | check (context : String) (pending : Option Throwable)
  | throwableIs (t : Throwable) (name : String)
  | describeThrowable (t : Throwable)
  | takeException (pending : Option Throwable)
  | globalReference (key : Option String) (newThread : Bool)
  | localReference (key : String)

def native {α : Type} (a : Jvm.Native α) : Play α := act (World.onMachine a)

/-- Plays on a thread of its own. -/
def onNewThread {α : Type} (newThread : Bool) (play : Play α) : Play α := do
  if !newThread then play
  else
    let attached ← native (Jvm.Machine.switchThread false)
    let x ← play
    discard <| native (Jvm.Machine.switchThread attached)
    return x

def withEnvironment {α : Type} (f : α → Report) (use : Checked α) : Play Report :=
  attempt f (World.attemptMachine (do Checked.environment; use))

/-- Uses an object through a reference of this thread. -/
def withLocal {α : Type} (o : Jvm.Object) (use : Jvm.Reference → Checked α) : Checked α := do
  let r ← Jvm.Machine.newLocal o
  Checked.holding (some r) (use r)

def raise (t : Option Throwable) : Jvm.Native Unit := t.forM Jvm.Machine.raise

def hasClass (name : String) : Jvm.Native Bool := do
  let r ← Checked.findClass? name
  Jvm.Machine.deleteLocal r
  return r.isSome

/-- Whether a class has a method; `none` if there is no such class. -/
def hasMethod (isStatic : Bool) (owner name signature : String) : Checked (Option Bool) := do
  match ← Checked.findClass? owner with
  | none => return none
  | some cls => Checked.holding (some cls) do
    return some (← Checked.methodId isStatic cls.object name signature)

def reportMethod : Option Bool → Report
  | some found => .flag found
  | none => .text "no class"

def newStringBytes (value : String) : Jvm.Native (Option Bytes) := do
  let r ← Checked.newString? value
  Jvm.Machine.deleteLocal r
  return r.bind fun r => match r.object with
    | .string content => some content
    | _ => none

def textOf (value : Option MachineText) : Checked (Option String) := do
  match value with
  | none => Checked.stringText none
  | some t => withLocal (.string t.bytes) fun r => Checked.stringText (some r)

/-- Whether an exception was pending before, was taken, and is pending after. -/
def takePending : Jvm.Native (Bool × Bool × Bool) := do
  let before ← Jvm.Machine.exceptionCheck
  let taken ← Checked.takeException
  Jvm.Machine.deleteLocal taken
  return (before, taken.isSome, ← Jvm.Machine.exceptionCheck)

def pinClass (key : String) : Checked (Option Jvm.Reference) :=
  withLocal (.cls key) fun r => Jvm.pin r.object

def NativeStep.run : NativeStep → Play Report
  | environment newThread => onNewThread newThread (withEnvironment .unit (return ()))
  | findClass name => withEnvironment .flag (hasClass name)
  | methodId isStatic owner name signature =>
    withEnvironment reportMethod (hasMethod isStatic owner name signature)
  | newString value => withEnvironment .bytes? (newStringBytes value)
  | stringText value => withEnvironment (.option .text) (textOf value)
  | check context pending => withEnvironment .unit do
    raise pending
    Checked.check context
  | throwableIs t name =>
    withEnvironment .flag (withLocal (.throwable t) fun r => Checked.throwableIs r.object name)
  | describeThrowable t =>
    withEnvironment .text (withLocal (.throwable t) fun r => Checked.describeThrowable r.object)
  | takeException pending =>
    let report := fun (before, taken, after) => Report.record
      [("before", .flag before), ("taken", .flag taken), ("after", .flag after)]
    withEnvironment report do
      raise pending
      takePending
  | globalReference none _ => withEnvironment .unit (return ())
  | globalReference (some key) newThread => do
    match ← outcomeOf (World.attemptMachine (do Checked.environment; pinClass key)) with
    | .error e => return .failure e
    | .ok none => done
    | .ok (some r) =>
      onNewThread newThread (native (Jvm.unpin r))
      return .success (.record [("same", .flag true), ("vm", .flag true)])
  | localReference key =>
    withEnvironment (fun () => .record [("null", .flag false), ("same", .flag true)])
      (withLocal (.cls key) fun _ => return ())

end ClassRecovery.Session
