import ClassRecovery.Session.Native

/-!
Steps on the tool interface of a virtual machine, in one environment.
-/

namespace ClassRecovery.Session

inductive ToolCall
  | capabilities
  | potential
  | add (capabilities : List Jvmti.Capability)
  | callbacks
  | eventMode (on : Bool) (event : Nat)
  | memory (size : Nat)
  /-- Gives back no memory, which is no call. -/
  | nothing
  | loaded
  | modifiable (keys : List String)
  | retransform (keys : List String)
  | redefine (keys : List String) (content : Bytes)
  | property (key : String)
  | dispose

inductive ToolStep
  | obtain
  | invoke (call : ToolCall)
  /-- A property as those who ask for settings see it. -/
  | property (key : String)

def reportCapabilities (caps : Jvmti.Capabilities) : Report :=
  .record (Jvmti.Capability.all.map fun c => (c.name, .flag (caps.has c)))

def withClasses {α : Type} (keys : List String) (use : List Jvm.Object → Attempt Error α) :
    Attempt Error α := do
  let rs ← keys.mapM fun key => (World.onMachine (Jvm.Machine.newLocal (.cls key)) : Action _)
  andAlways (rs.forM fun r => World.onMachine (Jvm.Machine.deleteLocal (some r)))
    (use (rs.map (·.object)))

def useTool {α : Type} (f : α → Report) (a : Jvm.Tool.Use α) : Play Report :=
  attempt f (Hook.use a)

def countLoaded (tool : Nat) : Jvm.Tool.Use Nat := do
  let rs ← Jvm.Tool.loadedClasses tool
  rs.forM fun r => (Jvm.Machine.deleteLocal (some r) : Jvm.Native Unit)
  return rs.length

/-- Whether the first class is modifiable. The others are not asked about. -/
def isFirstModifiable (tool : Nat) (objects : List Jvm.Object) : Jvm.Tool.Use Bool :=
  match objects with
  | o :: _ => Jvm.Tool.isModifiable tool o
  | [] => return false

def ToolCall.run (tool : Nat) : ToolCall → Play Report
  | capabilities => useTool reportCapabilities (Jvm.Tool.capabilities tool)
  | potential => useTool reportCapabilities (Jvm.Tool.potentialCapabilities tool)
  | add caps => useTool .unit (Jvm.Tool.addCapabilities tool (.ofList caps))
  | callbacks => useTool .unit (Jvm.Tool.setCallbacks tool false)
  | eventMode on event => useTool .unit (Jvm.Tool.setEventMode tool on event)
  | memory size => useTool .unit do
    Jvm.Tool.allocate tool size
    Jvm.Tool.deallocate tool
  | nothing => done
  | loaded => useTool .count (countLoaded tool)
  | modifiable keys =>
    attempt .flag (withClasses keys fun os => Hook.use (isFirstModifiable tool os))
  | retransform keys =>
    attempt .unit (withClasses keys fun os => Hook.retransformObjects Transform.run tool os)
  | redefine keys content =>
    attempt .unit (withClasses keys fun os =>
      Hook.use (Jvm.Tool.redefine tool (os.map fun o => (o, content))))
  | property key => useTool (.option .text) (Jvm.Tool.systemProperty tool key)
  | dispose => useTool .unit (Jvm.Tool.dispose tool)

def theTool : Play Nat := do OptionT.mk (return (← get).tool)

def ToolStep.run : ToolStep → Play Report
  | obtain => do
    match ← outcomeOf (World.attemptMachine Jvm.Tool.obtain) with
    | .ok tool =>
      modify fun s => { s with tool := some tool }
      done
    | .error code => return .success (.record [("code", .number code)])
  | invoke call => do call.run (← theTool)
  | property key => do
    return .success (.option .text (← native (Jvm.Tool.property (← theTool) key)))

end ClassRecovery.Session
