import ClassRecovery.World

/-!
Finding the virtual machine that a process runs in.
-/

namespace ClassRecovery.Agent

/-- Of the libraries that are part of the process, the first that can be asked speaks for all. -/
def imageHasMachine (image : List Jvm.LibraryKind) : Bool :=
  image.find? (· ≠ .silent) = some .machine

/-- A machine that was handed over goes before one of the process itself, and both before one that a
library names. -/
def isLocated (o : Options) (e : Jvm.Environment) (w : World) : Bool :=
  w.handedOver || imageHasMachine w.image ||
    (Jvm.libraryCandidates w.files o e).any fun path => w.libraries.get? path = some .machine

def locate (o : Options) (e : Jvm.Environment) : Attempt Error Unit := do
  unless isLocated o e (← get) do throw Jvm.noMachine

end ClassRecovery.Agent
