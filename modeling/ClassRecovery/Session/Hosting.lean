import ClassRecovery.Agent.Entry
import ClassRecovery.Collector.Process
import ClassRecovery.Session.Agents
import ClassRecovery.Session.Collection
import ClassRecovery.Session.Hooks

/-!
Steps on a process that a virtual machine runs in: how the machine is found, what it calls in an
agent, and the collectors that work on it.
-/

namespace ClassRecovery.Session

open Jvm (Link LibraryKind)

inductive HostQuestion
  | instrument
  | delivered
  | bootLoader
  | systemLoader

structure MachineAgentSpec where
  options : Options
  handsOver : Bool
  fails : Bool

structure MachineChainSpec where
  options : Options
  instrument : Option String
  agent : Option String
  inProcess : Bool

structure SearchSpec where
  chain : String
  c : String
  limit : Option Nat
  /-- Whether the built-in loader stands in for a loader that a class does not have. -/
  boot : Bool

/-- A library file; `none` is one that is not there. -/
abbrev LibraryFile := Option LibraryKind

inductive HostingStep
  | handOver (isNull : Bool)
  | handedOver
  | enter (entry : Agent.Entry)
  | locate (tools setting : Option LibraryFile)
  | preload (library : LibraryFile)
  | ask (question : HostQuestion)
  | agent (as : String) (spec : MachineAgentSpec)
  | acquire (agent : String) (as : Option String)
  | chain (as : String) (spec : MachineChainSpec)
  | find (spec : SearchSpec)

/-- An agent that refuses options which ask it to. -/
def startAnswer (options : String) : Int :=
  if Text.occurs "fail".toList options.toList then Agent.failed else 0

def reportNote : Agent.Event → Report
  | .started options existed =>
    .record [("on_load", .text options), ("vm", .flag true), ("seen_before", .flag existed)]
  | .unloaded => .text "on_unload"

def note (r : Report) : Play Unit := modify fun s => { s with notes := r :: s.notes }

/-- Puts a library where it can be found, and says where. -/
def placeLibrary (path : String) (library : LibraryFile) : Action String := do
  match library with
  | none => modify fun w => { w with libraries := w.libraries.erase path }
  | some kind =>
    discard <| (World.changeFiles (ε := IoError) (·.write path [])).run
    modify fun w => { w with libraries := w.libraries.put path kind }
  return path

def askHost (connection : Nat) : HostQuestion → Play Report
  | .instrument => do
    foundInstrument none (fun _ => []) (← outcomeOf (Agent.Host.instrument (.machine connection)))
  | .delivered => do
    match ← outcomeOf (Agent.Host.deliveredInstrument none (.machine connection)) with
    | .ok none => done
    | .ok (some i) => foundInstrument none (fun _ => []) (.ok i)
    | .error e => return .failure e
  | .bootLoader => foundLoader none (Agent.Host.bootLoader (.machine connection))
  | .systemLoader => do
    match ← outcomeOf (Agent.Host.systemLoader (.machine connection)) with
    | .ok l => foundLoader none l
    | .error e => return .failure e

/-- Lets everything go that only a chain held. -/
def Holding.release (h : Holding) : Action Unit := do
  Collector.releasePoint h.point
  h.instrument.forM Instrument.release
  h.connection.forM fun i => World.onLink (Link.releaseConnection i)

def agentConnection (index : Nat) (w : World) : Option Nat :=
  w.agents[index]?.bind fun a => match a.host with
    | .machine connection => some connection
    | .given _ => none

/-- Where a chain gets its instrument, and what it holds for that. -/
def chainSource (spec : MachineChainSpec) :
    Play (InstrumentSource × Option Instrument × Option Nat) := do
  match spec.instrument, spec.agent with
  | some name, _ =>
    let i ← named State.instruments name
    act i.retain
    return (.fixed i, some i, none)
  | none, some name =>
    let index ← named State.agents name
    let connection := agentConnection index (← get).world
    act (connection.forM fun i => World.onLink (Link.retain i))
    return (.agent index, none, connection)
  | none, none => return (.unavailable "no instrumentation", none, none)

/-- Makes the chain of some surroundings. Whoever had the name before is let go, and what the
instrument comes through is too, unless the chain has use for it. -/
def makeChain (as : String) (s : Collector.Surroundings) (instrument : Option Instrument)
    (connection : Option Nat) : Play Report := do
  let point ← act Collector.newPoint
  let chain := Chain.ofCollectors [s.classpath, s.dumper, s.live point]
  let old := (← get).holdings.get? as
  let full : Holding := { point, instrument, connection }
  let own := if s.options.instrumentation.enabled then full else { point }
  modify fun st => { st with
    chains := st.chains.put as chain
    holdings := st.holdings.put as own }
  unless s.options.instrumentation.enabled do act full.release
  act (old.forM Holding.release)
  return .success (.texts chain.names)

/-- A chain over the connection of the session, with a tool environment of its own. -/
def sessionChain (as : String) (spec : MachineChainSpec) : Play Report := do
  match ← outcomeOf (World.attemptMachine Jvm.Tool.obtain) with
  | .error code => return .success (.record [("code", .number code)])
  | .ok tool =>
    let boot := Loader.object (← connected) Loader.bootId
    let (source, instrument, connection) ← chainSource spec
    let handle ← act newHandle
    let dumping ← act (Collector.askDumping tool)
    makeChain as { options := spec.options, boot, source, handle, dumping } instrument connection

def HostingStep.run : HostingStep → Play Report
  | handOver isNull => do
    unless isNull do act (modify fun w => { w with handedOver := true })
    return .success (.flag (← get).world.handedOver)
  | handedOver => do
    return .success (if (← get).world.handedOver then .flag true else .nothing)
  | enter entry => do
    let (answer, event) ← act (entry.call startAnswer)
    event.forM fun e => note (reportNote e)
    return .success (.option .number answer)
  | locate tools setting => do
    let toolsPath ← act (tools.mapM (placeLibrary "tools.so"))
    let libraryPath ← act (setting.mapM (placeLibrary "setting.so"))
    attempt (fun () => .flag true) (Agent.locate { toolsPath } { libraryPath })
  | preload library => do
    act (modify fun w => { w with image := w.image ++ library.toList })
    return .success (.flag library.isSome)
  | ask question => do
    let connection ← act (World.onLink Link.connect)
    let report ← askHost connection question
    act (World.onLink (Link.releaseConnection connection))
    return report
  | agent as spec => do
    let fault := if spec.fails then some (Error.attach "refused") else none
    let connection ← act (World.onLink Link.connect)
    let old := (← get).agents.get? as
    let index ← act <| Collector.addAgent
      { options := spec.options, host := .machine connection,
        provider := .given { fault, handsOver := spec.handsOver } }
    modify fun s => { s with agents := s.agents.put as index }
    let replaced := old.bind (agentConnection · (← get).world)
    act (replaced.forM fun i => World.onLink (Link.releaseConnection i))
    done
  | acquire name as => do
    foundInstrument as (fun _ => []) (← outcomeOf (Agent.acquire (← named State.agents name)))
  | chain as spec => do
    if spec.inProcess then
      match ← outcomeOf (Collector.inProcess spec.options {}) with
      | .error e => return .failure e
      | .ok (s, connection) => makeChain as s none (some connection)
    else sessionChain as spec
  | find spec => do
    let probe : ProbeOptions := {}
    let boot ←
      if spec.boot then some <$> (Loader.object · Loader.bootId) <$> connected else pure none
    let settings : Discovery.Settings :=
      { chain := ← named State.chains spec.chain, boot,
        probe := { probe with max := spec.limit.getD probe.max } }
    let c ← named State.classes spec.c
    let r ← outcomeOf (Discovery.find settings searchLimit (some c))
    let found := r.map (·.getD [])
    act (ClassRef.releaseAll (found.toOption.getD []))
    return .outcome (describeClasses (← get)) found

end ClassRecovery.Session
