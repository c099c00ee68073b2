import ClassRecovery.Session.Agents
import ClassRecovery.Session.Classes
import ClassRecovery.Session.Collection
import ClassRecovery.Session.Files

/-!
Sessions on a host without a virtual machine.
-/

namespace ClassRecovery.Session

inductive Step
  | files (step : FileStep)
  | classes (step : ClassStep)
  | transformation (step : TransformationStep)
  | collection (step : CollectionStep)
  | agents (step : AgentStep)

def Step.play : Step → Play Report
  | files step => step.run
  | classes step => step.run
  | transformation step => step.run
  | collection step => step.run
  | agents step => step.run

/-- The state of the process before the first step, in an empty directory. -/
def State.initial (home process : String) : State where
  world := { files := FileSystem.initial home process, process }

/-- Plays a step. What nothing refers to afterwards is let go. -/
def Step.run (step : Step) (s : State) : Report × State :=
  let (r, s) := step.play.run s
  (r.getD .nothing, (releaseUnused.run s).2)

def runSteps : List Step → State → List Report
  | [], _ => []
  | step :: rest, s =>
    let (r, s) := step.run s
    r :: runSteps rest s

end ClassRecovery.Session
