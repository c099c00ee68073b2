import ClassRecovery.Agent.Manifest
import ClassRecovery.Archive.Writer
import ClassRecovery.World

/-!
The jar of an agent: its manifest, then the class files.
-/

namespace ClassRecovery.Agent.Artifact

def manifestPath : String := "META-INF/MANIFEST.MF"

def entries (agentClass : String) (classes : List (String × Bytes))
    (extra : List (String × String)) : List (String × Bytes) :=
  (manifestPath, Text.Utf8.encode (Manifest.render agentClass extra)) :: classes

def fault (path : String) (e : IoError) : Error := .artifactBuild s!"{path}: {e.text}"

def makeParent (path : String) : Attempt IoError Unit := do
  match Path.parent? path with
  | none | some "" => return
  | some parent => World.workFiles (·.makeDirectories parent)

def write (path agentClass : String) (classes : List (String × Bytes))
    (extra : List (String × String)) : Attempt Error Unit :=
  mapFailure (fault path) do
    makeParent path
    World.fillFile path (Archive.write (entries agentClass classes extra))

end ClassRecovery.Agent.Artifact
