import ClassRecovery.Jvm.Stream
import ClassRecovery.Loader.Archive

/-!
What can be asked of a loader, whatever kind it is: resources, classes, and the members of the
classes it defined. A loader with a parent asks it first.
-/

namespace ClassRecovery

namespace GivenResource

/-- Reads to the end. A read that was only interrupted is tried again. -/
def read : GivenResource → Except IoError Bytes
  | bytes content => .ok content
  | unopenable fault => .error fault
  | unreadable content fault => if fault.kind = .interrupted then .ok content else .error fault

end GivenResource

namespace Loader

/-- Makes a loader of archives. Loaders are numbered from one on, and no number is used twice. -/
def make (roots : List ClassRoot) (parent : Option Loader) : Action Loader := do
  let id := (← get).archiveLoaders + 1
  modify fun w => { w with archiveLoaders := id }
  return match parent with
    | some p => child id roots p
    | none => archive id roots

def readGiven (index : Nat) (path : String) : Attempt IoError (Option Bytes) := do
  World.updateLoader index fun l => { l with log := ("open " ++ path) :: l.log }
  match (← get).loaders[index]?.bind (·.resources.get? path) with
  | none => return none
  | some r =>
    match r.read with
    | .ok bytes => return some bytes
    | .error e => throw e

def loadGiven (index : Nat) (name : String) : Attempt Error (Option ClassRef) := do
  World.updateLoader index fun l => { l with log := ("load " ++ name) :: l.log }
  match (← get).loaders[index]? with
  | none => return none
  | some l =>
    match l.faults.get? name with
    | some e => throw e
    | none => return l.classes.get? name

def readResource (path : String) : Loader → Attempt IoError (Option Bytes)
  | archive id roots => readOwn id roots path
  | child id roots parent => do
    match ← readResource path parent with
    | some bytes => return some bytes
    | none => readOwn id roots path
  | given index _ => readGiven index path
  | object connection id => do
    let name := Jvm.Link.loaderName connection id (← get).link
    World.attemptMachine (Jvm.InputStream.readResource name path)

def load (name : String) : Loader → Attempt Error (Option ClassRef)
  | archive id roots => (archive id roots).define roots name
  | child id roots parent => do
    match ← load name parent with
    | some c => return some c
    | none => (child id roots parent).define roots name
  | given index _ => loadGiven index name
  | object connection id => World.attemptLink (Jvm.Link.load connection id name)

/-- A loader object of a virtual machine stays as long as it is held. -/
def retain : Loader → Action Unit
  | object connection id => World.onLink (Jvm.Link.retainLoader connection id)
  | _ => return

def release : Loader → Action Unit
  | object connection id => World.onLink (Jvm.Link.releaseLoader connection id)
  | _ => return

def ownRoots : Loader → List ClassRoot
  | archive _ roots | child _ roots _ => roots
  | _ => []

end Loader

namespace ClassRef

/-- Gives a reference back. Only references into a virtual machine hold anything. -/
def release (c : ClassRef) : Action Unit :=
  match c.origin with
  | .object index => World.onLink (Jvm.Link.releaseClass index)
  | _ => return

def releaseAll (cs : List ClassRef) : Action Unit := cs.forM release

/-- The members of an archive class are those that its own loader can load. -/
def archiveMembers (c : ClassRef) (loader : Loader) : Attempt Error (List ClassRef) := do
  let names ← mapFailure (.resourceRead c.internalName)
    (Loader.memberNames loader.id loader.ownRoots c.name)
  let found ← names.mapM fun name => loader.load name
  return found.filterMap id

def members (c : ClassRef) : Attempt Error (List ClassRef) := do
  match c.origin with
  | .named => return []
  | .archive =>
    match c.loader with
    | some loader => archiveMembers c loader
    | none => return []
  | .given index =>
    match (← get).members[index]? with
    | some (.ok cs) => return cs
    | some (.error e) => throw e
    | none => return []
  | .object index => World.attemptLink (Jvm.Link.declaredClasses index)

end ClassRef

end ClassRecovery
