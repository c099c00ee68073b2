import ClassRecovery.Session.Classes
import ClassRecovery.Session.Native

/-!
Steps on the classes and loaders of a virtual machine, which are reached through one connection that
is made when the first step needs it.
-/

namespace ClassRecovery.Session

open Jvm (Link InputStream)

inductive ObjectStep
  | define (key as : Option String)
  | foreign (as name : String)
  | drop (c : String) (newThread : Bool)
  | equal (classes : List String)
  /-- The member classes, which go by their own names afterwards where they are kept. -/
  | declared (c : String) (keep : Bool)
  | bootLoader (as : Option String)
  | systemLoader (as : Option String)
  | loaderOf (c : String) (as : Option String)
  | showConnection
  | disconnect
  | load (loader name : String) (as : Option String) (newThread : Bool)
  /-- Reads a resource into buffers of the given sizes, or to its end. -/
  | openResource (loader path : String) (sizes : Option (List Nat))

def connected : Play Nat := do
  match (← get).connection with
  | some i => return i
  | none =>
    let i ← act (World.onLink Link.connect)
    modify fun s => { s with connection := some i }
    return i

def classOfKey (connection : Nat) (key : Option String) : Jvm.Linked ClassRef := do
  Link.checked Jvm.Checked.environment
  let cls ← Link.call (Jvm.Machine.newLocal? (key.map .cls))
  Link.holding cls (Link.classOf connection cls)

def debugClass (c : ClassRef) : String :=
  "JniClass \x7b name: " ++ Text.quoted c.name ++ ", kind: " ++ c.kind.label ++ ", .. \x7d"

def reportObject (s : State) (c : ClassRef) : Report :=
  .record [("class", describeClass s c), ("debug", .texts [debugClass c, c.describe]),
    ("internal", .text c.internalName)]

def reportLoader (l : Loader) : Report :=
  .record [("id", .count l.id), ("debug", .text s!"JniClassLoader({l.id})")]

/-- Reports a loader, which is kept if it is given a name. -/
def foundLoader (as : Option String) (l : Loader) : Play Report := do
  as.forM fun as => keepLoader as l
  return .success (reportLoader l)

/-- Reads into one buffer after the other; a fault does not end that. -/
def readSizes (s : InputStream) : List Nat → Jvm.Native (List (Except IoError Bytes))
  | [] => return []
  | size :: sizes => do
    match ← (s.read size).run with
    | .ok (bytes, s) => return .ok bytes :: (← readSizes s sizes)
    | .error e => return .error e :: (← readSizes s sizes)

def readInto (loader : Option String) (path : String) (sizes : List Nat) :
    ExceptT IoError (StateM Jvm.Machine) (Option (List (Except IoError Bytes))) := do
  match ← InputStream.open? loader path with
  | none => return none
  | some s =>
    let results ← readSizes s sizes
    s.drop
    return some results

def reportContent (bytes : Bytes) : Report :=
  .record [("len", .count bytes.length), ("bytes", .bytes bytes)]

def ObjectStep.run : ObjectStep → Play Report
  | define key as => do
    let r ← outcomeOf (World.attemptLink (classOfKey (← connected) key))
    if let (.ok c, some as) := (r, as.orElse fun _ => key) then keepClass as c
    return .outcome (reportObject (← get)) r
  | foreign as name => do
    keepClass as (Instrument.namedClass name)
    done
  | drop c newThread => do
    let cls ← named State.classes c
    modify fun s => { s with classes := s.classes.erase c }
    onNewThread newThread (act cls.release)
    done
  | equal names => do
    return .success (.many .flag (neighbours (← namedAll State.classes names)))
  | declared c keep => do
    let r ← outcomeOf (← named State.classes c).members
    let members := r.toOption.getD []
    if keep then members.forM fun m => keepClass m.name m else act (ClassRef.releaseAll members)
    return .outcome (.many (describeClass (← get))) r
  | bootLoader as => do foundLoader as (.object (← connected) Loader.bootId)
  | systemLoader as => do
    match ← outcomeOf (World.attemptLink (Link.systemLoader (← connected))) with
    | .ok l => foundLoader as l
    | .error e => return .failure e
  | loaderOf c as => do
    match (← named State.classes c).loader with
    | some l => foundLoader as l
    | none => done
  | showConnection => do
    let loaders := Link.knownLoaders (← connected) (← get).world.link
    return .success (.text s!"JniRuntime \x7b loaders: {loaders.length} \x7d")
  | disconnect => do
    let i := (← get).connection
    modify fun s => { s with connection := none }
    act (i.forM fun i => World.onLink (Link.releaseConnection i))
    done
  | load loader name as newThread => do
    let l ← named State.loaders loader
    let r ← onNewThread newThread (outcomeOf (l.load name))
    match r, as with
    | .ok (some c), some as => keepClass as c
    | .ok (some c), none => act c.release
    | _, _ => pure ()
    return .outcome (.option (describeClass (← get))) r
  | openResource loader path none => do
    attemptIo (.option reportContent) ((← named State.loaders loader).readResource path)
  | openResource loader path (some sizes) => do
    match ← named State.loaders loader with
    | .object connection id =>
      let name := Link.loaderName connection id (← get).world.link
      attemptIo (.option (.many (.ioOutcome .bytes)))
        (World.attemptMachine (readInto name path sizes))
    | _ => failure

end ClassRecovery.Session
