import ClassRecovery.Agent.Artifact
import ClassRecovery.Archive.Reader
import ClassRecovery.Attach.Socket
import ClassRecovery.Collector.Classpath
import ClassRecovery.Instrument.Transform

/-!
Bringing an agent into the running process. An agent is a native library or a jar that is built from
its class; it is attached once, and then hands the instrument over. Without an agent the process
offers its own instrument.
-/

namespace ClassRecovery.Agent

/-- The agent of a number; there is nothing to bring in for a number that was not given out. -/
def at? (index : Nat) : Action (Option Agent) := return (← get).agents[index]?

namespace Host

def bootLoader : AgentHost → Loader
  | .given h => h.boot
  | .machine connection => .object connection Loader.bootId

def systemLoader : AgentHost → Attempt Error Loader
  | .given h => MonadExcept.ofExcept h.system
  | .machine connection => World.attemptLink (Jvm.Link.systemLoader connection)

def instrument : AgentHost → Attempt Error Instrument
  | .given h => MonadExcept.ofExcept h.instrument
  | .machine connection => Hook.install connection

/-- What an agent handed over, as the host tells it. -/
def deliveredInstrument (delivered : Option Instrument) :
    AgentHost → Attempt Error (Option Instrument)
  | .given h =>
    match h.deliveryFault with
    | some e => throw e
    | none => return delivered
  | .machine connection => do
    if (← get).handedOver then some <$> Hook.install connection else return none

end Host

/-- The entries of a jar; `none` if the file is not one. -/
def jarEntries? (fs : FileSystem) (path : String) : Option (List (String × Bytes)) := do
  let data := (← (fs.read path).toOption).toArray
  let directory ← (Archive.Directory.read data).toOption
  directory.entries.mapM fun e => return (e.name, ← (Archive.readContent data e).toOption)

def attachedFile : Attach.Command → String
  | .jarAgent jar _ => jar
  | .nativeAgent library _ => library

/-- A given provider notes the request before it acts on it. -/
def attachGiven (index : Nat) (p : GivenProvider) (c : Attach.Command) : Attempt Error Unit := do
  let files := (← get).files
  let jar := match c with
    | .jarAgent jar _ => jarEntries? files jar
    | .nativeAgent .. => none
  World.updateAgent index fun a => { a with calls := ⟨c, jar⟩ :: a.calls }
  if p.eats then Attach.removeQuietly (attachedFile c)
  match p.fault with
  | some e => throw e
  | none =>
    if p.delivers.isSome then World.updateAgent index fun a => { a with delivered := p.delivers }
    if p.handsOver then modify fun w => { w with handedOver := true }

def ownTarget (o : Options) : Action Attach.Target :=
  return { process := (← get).process, tools := o.toolsPath }

def request (index : Nat) (c : Attach.Command) : Attempt Error Unit := do
  match ← at? index with
  | none => return
  | some a =>
    match a.provider with
    | .given p => attachGiven index p c
    | .listener => Attach.attach (← ownTarget a.options) c

def existing (path : String) : Attempt Error String := do
  let fs := (← get).files
  if fs.isFile path then
    match fs.canonical path with
    | .ok full => return full
    | .error _ => return path
  else throw (.artifactNotFound path)

def attachJar (index : Nat) (path args : String) : Attempt Error Unit := do
  request index (.jarAgent (← existing path) args)

def attachLibrary (index : Nat) (path args : String) : Attempt Error Unit := do
  request index (.nativeAgent (← existing path) args)

def classEntry (boot : Loader) (c : ClassRef) : Attempt Error (String × Bytes) := do
  match ← mapFailure (fun e => .artifactBuild s!"{c.name}: {e.message}")
      (Collector.readClasspath boot c) with
  | some bytes => return (ClassName.resourcePath c.name, bytes)
  | none => throw (.artifactBuild s!"bytes of {c.name} not found on the classpath")

/-- Builds the jar of an agent class and its companions and says where it is. -/
def build (a : Agent) (agentClass : ClassRef) (companions : List ClassRef)
    (extra : List (String × String)) : Attempt Error String := do
  let entries ← (agentClass :: companions).mapM (classEntry (Host.bootLoader a.host))
  let path := a.options.artifactPath
  Artifact.write path agentClass.name entries extra
  return path

def lookup (loader : Loader) (name : String) : Attempt Error ClassRef := do
  match ← mapFailure (fun e => .artifactBuild s!"{name}: {e.message}") (loader.load name) with
  | some c => return c
  | none => throw (.artifactBuild s!"class {name} not found")

def lookupAll (loader : Loader) : (names : List String) → (found : List ClassRef) →
    Attempt Error (List ClassRef)
  | [], found => return found.reverse
  | name :: names, found => do
    let c ← onFailure (ClassRef.releaseAll found) (lookup loader name)
    lookupAll loader names (c :: found)

/-- Builds the jar from what the application's loader has. -/
def buildConfigured (a : Agent) (agentClass : String) : Attempt Error Unit := do
  let loader ← Host.systemLoader a.host
  let agent ← lookup loader agentClass
  andAlways agent.release do
    let companions ← lookupAll loader a.options.agent.companions []
    andAlways (ClassRef.releaseAll companions) do
      discard <| a.build agent companions []

/-- An artifact that is to be deleted is deleted even if it could not be attached. -/
def attachConfiguredJar (index : Nat) (a : Agent) (agentClass : String) : Attempt Error Unit := do
  let path := a.options.artifactPath
  let reused := a.options.agent.cache = .reuseCached && (← get).files.isFile path
  unless reused do buildConfigured a agentClass
  let cleanup : Action Unit :=
    match a.options.agent.cache with
    | .buildAttachDelete => Attach.removeQuietly path
    | .reuseCached => pure ()
  andAlways cleanup (attachJar index path a.options.agent.args)

/-- Attaches the configured agent unless that was done before. A library goes before a class. -/
def ensureAttached (index : Nat) : Attempt Error Unit := do
  match ← at? index with
  | none => return
  | some a =>
    if a.attached then return
    match a.options.agent.library, a.options.agent.agentClass with
    | some library, _ => attachLibrary index library a.options.agent.args
    | none, some agentClass => attachConfiguredJar index a agentClass
    | none, none => return
    World.updateAgent index fun a => { a with attached := true }

def neverDelivered : Error :=
  .attach "agent attached but never handed over the JavaVM (see bootstrap::hand_off)"

/-- The instrument that an agent hands over, or the host's own if no agent is configured. -/
def acquire (index : Nat) : Attempt Error Instrument := do
  match ← at? index with
  | none => throw neverDelivered
  | some a =>
    if !a.options.agentConfigured then Host.instrument a.host
    else
      ensureAttached index
      let delivered := (← at? index).bind (·.delivered)
      match ← Host.deliveredInstrument delivered a.host with
      | some i => return i
      | none => throw neverDelivered

end ClassRecovery.Agent
