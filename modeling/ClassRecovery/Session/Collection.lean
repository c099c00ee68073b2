import ClassRecovery.Session.Basic

/-!
Steps about collectors, chains, the discovery of nested classes and source text.
-/

namespace ClassRecovery.Session

structure SurroundingsSpec where
  options : Options
  boot : String
  source : String
  properties : List (String × String)
  dumping : Bool
  handle : Option String

inductive CollectorSpec
  | classpath (surroundings : String)
  | dumper (surroundings : String)
  | live (surroundings : String)
  | classpathOver (boot : String)
  | given (name : String) (priority : Int) (enabled : Bool) (answer : Except Error (Option Bytes))

inductive RegistrySpec
  | none
  | empty
  | standard
  deriving DecidableEq

structure DiscoverySpec where
  chain : String
  probe : ProbeOptions
  boot : Option String

inductive CollectionStep
  | surroundings (as : String) (spec : SurroundingsSpec)
  | collector (as : String) (spec : CollectorSpec)
  | ask (collector c : String)
  | askOften (collector : String) (classes : List String) (threads rounds : Nat)
  | calls
  | chain (as : String) (collectors : List String) (registry : RegistrySpec)
      (surroundings : Option String)
  | get (chain : String) (c : Option String)
  | discovery (as : String) (spec : DiscoverySpec)
  | find (discovery : String) (c : Option String)
  | parser (as : String) (discovery : DiscoverySpec) (bytesChain : String) (fault : Option Error)
  | parse (parser c : String)

def newHandle : Action Nat :=
  modifyGet fun w => (w.handles.size, { w with handles := w.handles.push none })

def surroundingsOf (spec : SurroundingsSpec) : Play Collector.Surroundings := do
  let boot ← named State.loaders spec.boot
  let source ← named State.sources spec.source
  let handle ← match spec.handle with
    | some name => named State.handles name
    | none => act newHandle
  let properties := Table.ofList spec.properties
  let dumping := spec.dumping || Collector.isDumping properties.get?
  return { options := spec.options, boot, source, handle, dumping }

/-- A collector with one answer, which counts how often it was asked. -/
def givenCollector (name : String) (priority : Int) (enabled : Bool)
    (answer : Except Error (Option Bytes)) (counter : Nat) : Collector World where
  name
  priority
  enabled
  collect _ := do
    modify fun w => { w with questions := w.questions.modify counter (· + 1) }
    MonadExcept.ofExcept answer

def collectorOf : CollectorSpec → Play NamedCollector
  | .classpath s => return { collector := (← named State.surroundings s).classpath }
  | .dumper s => do
    let s ← named State.surroundings s
    return { collector := s.dumper, directory := some s.options.dumpDirectory }
  | .live s => do
    let point ← act Collector.newPoint
    return { collector := (← named State.surroundings s).live point }
  | .classpathOver boot => do
    let boot ← named State.loaders boot
    return { collector := Collector.classpath Collector.classpathDefault boot }
  | .given name priority enabled answer => do
    let counter := (← get).world.questions.size
    act (modify fun w => { w with questions := w.questions.push 0 })
    return { collector := givenCollector name priority enabled answer counter,
             counter := some counter }

def reportCollector (c : NamedCollector) : Report :=
  .record [("name", .text c.collector.name), ("priority", .number c.collector.priority),
    ("enabled", .flag c.collector.enabled), ("directory", .option .text c.directory)]

def remarks (w : World) (c : NamedCollector) : List (String × Report) :=
  let pending := (c.collector.point.bind (w.points[·]?)).map fun p =>
    ("pending", Report.count (((w.caches[p.cache]?).getD {}).size))
  let calls := (c.counter.bind (w.questions[·]?)).map fun n => ("calls", Report.count n)
  pending.toList ++ calls.toList

def askAbout (c : NamedCollector) (cls : ClassRef) : Play Report :=
  attempt .bytes? (c.collector.collect cls)

def roundsOf {α : Type} (classes : List α) (rounds thread : Nat) : List α :=
  match classes[thread % classes.length]? with
  | some c => List.replicate rounds c
  | none => []

def discoveryOf (spec : DiscoverySpec) : Play Discovery.Settings := do
  return { chain := ← named State.chains spec.chain, probe := spec.probe,
           boot := ← namedOption State.loaders spec.boot }

def showBytes (fault : Option Error) (bytes : Bytes) (inner : List (String × Bytes)) :
    Except Error String :=
  match fault with
  | some e => .error e
  | none => .ok <| Text.hex bytes ++
      String.join (inner.map fun (name, b) => "\n" ++ name ++ "=" ++ Text.hex b)

def usedPoints (s : State) : List Nat :=
  s.collectors.entries.filterMap (·.2.collector.point) ++
  s.chains.entries.flatMap (·.2.points) ++
  s.discoveries.entries.flatMap (·.2.chain.points) ++
  s.parsers.entries.flatMap fun p => p.2.chain.points ++ p.2.discovery.chain.points

/-- Lets the gateways go of the points that nothing works at any more. -/
def releaseUnused : Play Unit := do
  let s ← get
  let unused := (List.range s.world.points.size).filter (· ∉ usedPoints s)
  act (unused.forM Collector.releasePoint)

/-- More classes than any class nests. -/
def searchLimit : Nat := 1000000

def CollectionStep.run : CollectionStep → Play Report
  | surroundings as spec => do
    let s ← surroundingsOf spec
    modify fun st => { st with surroundings := st.surroundings.put as s }
    done
  | collector as spec => do
    let c ← collectorOf spec
    modify fun s => { s with collectors := s.collectors.put as c }
    return .success (reportCollector c)
  | ask c cls => do
    let c ← named State.collectors c
    let r ← askAbout c (← named State.classes cls)
    return .extended r (remarks (← MonadState.get).world c)
  | askOften c classes threads rounds => do
    let c ← named State.collectors c
    let classes ← namedAll State.classes classes
    let rs ← (List.range threads).mapM fun thread => do
      return .list (← (roundsOf classes rounds thread).mapM (askAbout c))
    return .success (.list rs)
  | calls => do
    let s ← MonadState.get
    return .success <| .record <| s.collectors.entries.filterMap fun (name, c) => do
      return (name, .count (← s.world.questions[← c.counter]?))
  | chain as names registry within => do
    let own ← namedAll State.collectors names
    let shared ← match ← namedOption State.surroundings within with
      | some s => if registry = .standard then act s.standard else pure []
      | none => pure []
    let all := shared ++ own.map (·.collector)
    let chain := Chain.ofCollectors all
    modify fun s => { s with chains := s.chains.put as chain }
    return .success <| .record [("names", .texts chain.names), ("debug", .text chain.describe),
      ("registry", if registry = .none then .nothing
        else .list [.count all.length, .flag (all.length = 0)])]
  | get ch c => do
    let c ← namedOption State.classes c
    attempt .bytes? ((← named State.chains ch).get c)
  | discovery as spec => do
    let d ← discoveryOf spec
    modify fun s => { s with discoveries := s.discoveries.put as d }
    done
  | find d c => do
    let d ← named State.discoveries d
    let r ← outcomeOf (Discovery.find d searchLimit (← namedOption State.classes c))
    let s ← MonadState.get
    return .outcome (fun cs => describeClasses s (cs.getD [])) r
  | parser as d bytesChain fault => do
    let p : SourceParser :=
      { chain := ← named State.chains bytesChain, discovery := ← discoveryOf d,
        decompile := showBytes fault }
    modify fun s => { s with parsers := s.parsers.put as p }
    done
  | parse p c => do
    let p ← named State.parsers p
    attempt (.option .text) (p.parse id searchLimit (← named State.classes c))

end ClassRecovery.Session
