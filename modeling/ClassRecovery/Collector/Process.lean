import ClassRecovery.Agent.Location
import ClassRecovery.Collector.Standard
import ClassRecovery.Slot

/-!
Surroundings in the process of a virtual machine itself. The tool environment that properties are
read through is made once for all of them.
-/

namespace ClassRecovery.Collector

def sharedTool : Attempt Error Nat := do
  match (← get).propertyTool with
  | some tool => return tool
  | none =>
    let tool ← mapFailure Jvm.Tool.unavailable (World.attemptMachine Jvm.Tool.obtain)
    modify fun w => { w with propertyTool := some tool }
    return tool

/-- The tool environment for several threads that want it. A failure to dispose of one that is not
needed is passed over. -/
def toolMaker : Slot.Maker World Nat where
  create := mapFailure Jvm.Tool.unavailable (World.attemptMachine Jvm.Tool.obtain)
  discard tool := discard (World.attemptMachine (Jvm.Tool.dispose tool)).run

/-- Whether the machine dumps classes. All properties are asked for. -/
def askDumping (tool : Nat) : Action Bool := do
  let values ← dumpProperties.mapM fun key => World.onMachine (Jvm.Tool.property tool key)
  return values.all isTruthy

def addAgent (a : Agent) : Action Nat :=
  modifyGet fun w => (w.agents.size, { w with agents := w.agents.push a })

/-- The machine that the process runs in, through a connection of its own, which is given too. An
agent is brought in through the machine's listener. -/
def inProcess (o : Options) (e : Jvm.Environment) : Attempt Error (Surroundings × Nat) := do
  Agent.locate o e
  let connection ← (World.onLink Jvm.Link.connect : Action Nat)
  onFailure (World.onLink (Jvm.Link.releaseConnection connection)) do
    let tool ← sharedTool
    let index ← addAgent { options := o, provider := .listener, host := .machine connection }
    return ({ options := o, boot := .object connection Loader.bootId, source := .agent index,
              handle := Handle.ofProcess, dumping := ← askDumping tool }, connection)

end ClassRecovery.Collector
