import ClassRecovery.Agent.Location
import ClassRecovery.Session.Transformation

/-!
Steps about agents and about attaching them.
-/

namespace ClassRecovery.Session

structure AgentSpec where
  options : Options
  boot : String
  system : Option (Except Error String)
  instrument : Option (Except Error String)
  delivers : Option String
  deliveryFault : Option Error
  fault : Option Error
  eats : Bool

inductive ListenerSpec
  | none
  /-- A file that is no socket. -/
  | file (directory : String)
  | ready (directory : String) (reply : Bytes)
  | waiting (directory : String) (reply : Bytes)

inductive AgentStep
  | agent (as : String) (spec : AgentSpec)
  | build (agent agentClass : String) (classes : List String) (extra : List (String × String))
  | attachJar (agent path args : String)
  | attachLibrary (agent path args : String)
  | ensure (agent : String)
  | acquire (agent : String)
  | records (agent : String)
  | socketDirectories (target : Attach.Target)
  | libraries (options : Options) (environment : Jvm.Environment)
  | locate (options : Options) (environment : Jvm.Environment)
  | attach (target : Attach.Target) (listener : ListenerSpec) (command : Attach.Command)

/-- A value of a name, or the fault that stands in for it. -/
def namedOr {α : Type} (table : State → Table String α) :
    Except Error String → Play (Except Error α)
  | .ok name => .ok <$> named table name
  | .error e => return .error e

def hostOf (spec : AgentSpec) : Play AgentHost := do
  let boot ← named State.loaders spec.boot
  let system ← match spec.system with
    | some r => namedOr State.loaders r
    | none => pure (.ok boot)
  let instrument ← match spec.instrument with
    | some r => namedOr State.instruments r
    | none => pure (.error (.attach "no instrumentation"))
  return .given { boot, system, instrument, deliveryFault := spec.deliveryFault }

def providerOf (spec : AgentSpec) : Play AttachProvider := do
  return .given { eats := spec.eats, fault := spec.fault,
                  delivers := ← namedOption State.instruments spec.delivers }

def reportCall (c : AttachCall) : Report :=
  let shared := fun (kind path args : String) =>
    [("own_pid", Report.flag true), ("kind", .text kind), ("path", .text path),
      ("args", .text args)]
  match c.command with
  | .jarAgent jar args => .record (shared "java" jar args ++ [("jar", .option .entries c.jar)])
  | .nativeAgent library args => .record (shared "native" library args)

def prepareListener (target : Attach.Target) : ListenerSpec → Action Unit
  | .none => return
  | .file directory => do
    let path := Path.join directory target.socketName
    discard <| (saveQuietly path).run
  | .ready directory reply => do
    makeListener directory reply false
    World.openSocket
  | .waiting directory reply => makeListener directory reply true
where
  saveQuietly (path : String) : Attempt IoError Unit := do
    Agent.Artifact.makeParent path
    World.changeFiles (·.write path [])
  makeListener (directory : String) (reply : Bytes) (waits : Bool) : Action Unit := do
    let socket := Path.join directory target.socketName
    discard <| (Agent.Artifact.makeParent socket).run
    modify fun w => { w with listener := some { socket, reply, waits } }

def AgentStep.run : AgentStep → Play Report
  | agent as spec => do
    let a : Agent :=
      { options := spec.options, provider := ← providerOf spec, host := ← hostOf spec }
    let index := (← get).world.agents.size
    act (modify fun w => { w with agents := w.agents.push a })
    modify fun s => { s with agents := s.agents.put as index }
    return .success (.text spec.options.artifactPath)
  | build name c classes extra => do
    let index ← named State.agents name
    let a ← OptionT.mk (return (← get).world.agents[index]?)
    let c ← named State.classes c
    attempt .text (a.build c (← namedAll State.classes classes) extra)
  | attachJar name path args => do
    attempt .unit (Agent.attachJar (← named State.agents name) path args)
  | attachLibrary name path args => do
    attempt .unit (Agent.attachLibrary (← named State.agents name) path args)
  | ensure name => do attempt .unit (Agent.ensureAttached (← named State.agents name))
  | acquire name => do
    let r ← outcomeOf (Agent.acquire (← named State.agents name))
    return .outcome (instrumentName (← get)) r
  | records name => do
    let index ← named State.agents name
    let calls := ((← get).world.agents[index]?.map (·.calls)).getD []
    act (World.updateAgent index fun a => { a with calls := [] })
    return .success (.many reportCall calls.reverse)
  | socketDirectories target => return .success (.texts target.socketDirectories)
  | libraries options environment => do
    return .success (.texts (Jvm.libraryCandidates (← get).world.files options environment))
  | locate options environment => attempt .unit (Agent.locate options environment)
  | attach target listener command => do
    act (prepareListener target listener)
    let r ← outcomeOf (Attach.attach target command)
    let w := (← get).world
    act (modify fun w => { w with listener := none })
    return .record [("result", .outcome .unit r),
      ("request", .bytes? (w.listener.bind (·.request))), ("files", .texts (w.files.tree "."))]

end ClassRecovery.Session
