import ClassRecovery.Collector.DumpTree
import ClassRecovery.Session.Basic

/-!
Steps that look after files.
-/

namespace ClassRecovery.Session

inductive FileStep
  | put (path : String) (content : Bytes)
  | makeDirectory (path : String)
  | setMode (path : String) (mode : Nat)
  | delete (path : String)
  | tree (path : String)
  | read (path : String)
  | readJar (path : String)
  | save (path : String) (content : Bytes)
  | writeAgentJar (path agentClass : String) (entries : List (String × Bytes))
      (extra : List (String × String))
  | removeDumpTree (path : String)

def saveFile (path : String) (content : Bytes) : Attempt IoError Unit := do
  Agent.Artifact.makeParent path
  World.fillFile path content

def readJar (path : String) : Attempt Error (List (String × Bytes)) :=
  mapFailure .io do
    let data := (← World.withFiles (·.read path)).toArray
    match Archive.Directory.read data with
    | .error fault => throw fault.toIoError
    | .ok directory =>
      directory.entries.mapM fun e => do
        return (e.name, ← MonadExcept.ofExcept (Archive.readContent data e))

def FileStep.run : FileStep → Play Report
  | put path content => do
    discard <| outcomeOf (saveFile path content)
    done
  | makeDirectory path => do
    discard <| outcomeOf ((World.workFiles (·.makeDirectories path) : Attempt IoError Unit))
    done
  | setMode path mode => do
    act (modify fun w => { w with files := w.files.setMode path mode })
    done
  | delete path => do
    act (modify fun w => { w with files := w.files.removeTree path })
    done
  | tree path => return .success (.texts ((← get).world.files.tree path))
  | read path => attemptIo .bytes (World.withFiles (·.read path))
  | readJar path => attempt .entries (Session.readJar path)
  | save path content => attemptIo .unit (saveFile path content)
  | writeAgentJar path agentClass entries extra =>
    attempt .unit (Agent.Artifact.write path agentClass entries extra)
  | removeDumpTree path => attemptIo .unit (World.workFiles (DumpTree.remove · path))

end ClassRecovery.Session
