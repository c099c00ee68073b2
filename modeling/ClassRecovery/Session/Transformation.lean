import ClassRecovery.Session.Basic

/-!
Steps about instruments, gateways, transformers and the handle that shares an instrument.
-/

namespace ClassRecovery.Session

inductive ActionSpec
  | plain (action : TransformerAction)
  | retransform (gateway : String) (classes : List String)
  | add (gateway transformer : String) (capable : Bool)
  | remove (gateway transformer : String)
  | capture (cache : String)

inductive SourceSpec
  | fixed (instrument : String)
  | unavailable (reason : String)
  | answers (answers : List (Except Error String))

inductive TransformationStep
  | instrument (as : String) (given : GivenInstrument)
  | define (instrument name : String) (content : Bytes)
  | firstLoad (instrument name : String) (isNamed : Bool) (content : Bytes)
  | retransform (instrument : String) (classes : List String)
  | state (instrument : String)
  | wrap (as instrument : String)
  | wrapGateway (as gateway : String)
  | drop (gateway : String)
  | add (gateway transformer : String) (capable : Bool)
  | remove (gateway transformer : String)
  | gatewayRetransform (gateway : String) (classes : List String) (newThread : Bool)
  | redefine (gateway c : String) (content : Bytes)
  | query (gateway : String) (c : Option String)
  | transformer (as : String) (spec : ActionSpec)
  | seen (transformer : String)
  | transform (transformer : String) (name : Option String) (c : Option String) (content : Bytes)
  | cache (as : String)
  | take (cache name : String)
  | handle (as : String)
  | source (as : String) (spec : SourceSpec)
  | askSource (source : String)
  | acquire (handle source : String)
  | acquireOften (handle source : String) (times : Nat)
  | handleGateway (as handle source : String)

def givenInstrument (name : String) : Play (Nat × GivenInstrument) := do
  match ← named State.instruments name with
  | .given index =>
    let i ← OptionT.mk (return (← get).world.instruments[index]?)
    return (index, i)
  | _ => failure

/-- Whoever had the name before is let go. -/
def keepGateway (as : String) (g : Instrument) : Play Unit := do
  let old := (← get).gateways.get? as
  modify fun s => { s with gateways := s.gateways.put as g }
  act (old.forM Instrument.release)

def transformerCount (g : Instrument) : Play Report :=
  return .count (g.queue (← get).world).length

def instrumentName (s : State) (i : Instrument) : Report := .option .text (nameOf s.instruments i)

/-- How often a source that gives one answer after the other was asked. -/
def timesAsked (s : InstrumentSource) : Play Report := do
  match s with
  | .answers index => return .option .count ((← get).world.answers[index]?.map (·.asked))
  | _ => return .nothing

def actionOf : ActionSpec → Play TransformerAction
  | .plain action => return action
  | .retransform gateway classes => do
    return .retransform (← named State.gateways gateway) (← namedAll State.classes classes)
  | .add gateway transformer capable => do
    return .add (← named State.gateways gateway) ⟨← named State.transformers transformer, capable⟩
  | .remove gateway transformer => do
    return .remove (← named State.gateways gateway) (← named State.transformers transformer)
  | .capture cache => return .capture (← named State.caches cache)

def sourceOf : SourceSpec → Play InstrumentSource
  | .fixed name => return .fixed (← named State.instruments name)
  | .unavailable reason => return .unavailable reason
  | .answers answers => do
    let answers ← answers.mapM fun
      | .ok name => Except.ok <$> named State.instruments name
      | .error e => pure (.error e)
    let index := (← get).world.answers.size
    act (modify fun w => { w with answers := w.answers.push { answers } })
    return .answers index

def reportEvent (e : ClassFileEvent) : Report :=
  .record [("loader", .option (fun l => .count l.id) e.loader), ("name", .option .text e.name),
    ("redefined", .option (fun c => .text c.name) e.redefined), ("bytes", .bytes e.bytes)]

def firstLoad (index : Nat) (i : GivenInstrument) (name : String) (isNamed : Bool)
    (content : Bytes) : Action Bytes := do
  let shown := if isNamed then some (ClassName.toInternal name) else none
  let event : ClassFileEvent := ⟨none, shown, none, content⟩
  let verdict ← Transform.runSeries Transform.run event (i.queue.map (·.transformer))
  let result := verdict.bytesOr content
  World.updateInstrument index fun i => { i with classes := i.classes.put name result }
  return result

def TransformationStep.run : TransformationStep → Play Report
  | instrument as given => do
    let index := (← get).world.instruments.size
    act (modify fun w => { w with instruments := w.instruments.push given })
    modify fun s => { s with instruments := s.instruments.put as (.given index) }
    done
  | define i name content => do
    let (index, _) ← givenInstrument i
    act (World.updateInstrument index fun i => { i with classes := i.classes.put name content })
    done
  | firstLoad i name isNamed content => do
    let (index, i) ← givenInstrument i
    return .success (.bytes (← act (Session.firstLoad index i name isNamed content)))
  | retransform i classes => do
    let i ← named State.instruments i
    attempt .unit (i.retransform (← namedAll State.classes classes))
  | state i => do
    let (_, i) ← givenInstrument i
    return .success <| .record [("transformers", .count i.queue.length),
      ("retransforms", .count i.count),
      ("classes", .record (i.classes.entries.map fun (name, b) => (name, .bytes b)))]
  | wrap as i => do
    keepGateway as (← act (← named State.instruments i).wrap)
    done
  | wrapGateway as g => do
    keepGateway as (← act (← named State.gateways g).wrap)
    done
  | drop g => do
    let gateway ← named State.gateways g
    modify fun s => { s with gateways := s.gateways.erase g }
    act gateway.release
    done
  | add g t capable => do
    let gateway ← named State.gateways g
    act (gateway.addTransformer ⟨← named State.transformers t, capable⟩)
    return .success (← transformerCount gateway)
  | remove g t => do
    let gateway ← named State.gateways g
    let removed ← act (gateway.removeTransformer (← named State.transformers t))
    return .success (.record [("removed", .flag removed), ("count", ← transformerCount gateway)])
  | gatewayRetransform g classes newThread => do
    let gateway ← named State.gateways g
    let a := gateway.retransform (← namedAll State.classes classes)
    attempt .unit (if newThread then Instrument.onNewThread a else a)
  | redefine g c content => do
    let gateway ← named State.gateways g
    attempt .unit (gateway.redefine (← named State.classes c) content)
  | query g c => do
    let gateway ← named State.gateways g
    let modifiable ← match ← namedOption State.classes c with
      | some c => attempt .flag (gateway.isModifiable c)
      | none => pure .nothing
    let loaded ← outcomeOf gateway.allLoaded
    let s ← get
    return .success <| .record [("count", ← transformerCount gateway),
      ("retransform", .flag (gateway.supportsRetransform s.world)),
      ("redefine", .flag (gateway.supportsRedefine s.world)), ("modifiable", modifiable),
      ("loaded", .outcome (describeClasses s) loaded)]
  | transformer as spec => do
    let t ← act (World.addTransformer { action := ← actionOf spec })
    modify fun s => { s with transformers := s.transformers.put as t }
    done
  | seen t => do
    let t ← named State.transformers t
    let events := ((← get).world.transformers[t]?.map (·.seen)).getD []
    act (World.updateTransformer t fun t => { t with seen := [] })
    return .success (.many reportEvent events.reverse)
  | transform t name c content => do
    let t ← named State.transformers t
    let c ← namedOption State.classes c
    match ← act (Transform.run t ⟨c.bind (·.loader), name, c, content⟩) with
    | .replaced bytes => return .success (.bytes bytes)
    | _ => return .success .nothing
  | cache as => do
    let index ← act World.addCache
    modify fun s => { s with caches := s.caches.put as index }
    done
  | take c name => do
    let index ← named State.caches c
    let (taken, rest) := Capture.Cache.take (((← get).world.caches[index]?).getD {}) name
    act (World.updateCache index fun _ => rest)
    return .success <| .record [("taken", .bytes? taken), ("len", .count rest.size),
      ("empty", .flag (rest.size = 0))]
  | handle as => do
    let index := (← get).world.handles.size
    act (modify fun w => { w with handles := w.handles.push none })
    modify fun s => { s with handles := s.handles.put as index }
    return .success (.flag (Handle.held index (← get).world).isSome)
  | source as spec => do
    let source ← sourceOf spec
    modify fun s => { s with sources := s.sources.put as source }
    return .success (.text source.describe)
  | askSource src => do
    let r ← outcomeOf (← named State.sources src).acquire
    return .outcome (instrumentName (← get)) r
  | acquire h src => do
    let src ← named State.sources src
    let h ← named State.handles h
    let r ← outcomeOf (Handle.getOrAcquire h src)
    let s ← get
    return .record [("result", .outcome (instrumentName s) r),
      ("initialized", .flag (Handle.held h s.world).isSome), ("acquired", ← timesAsked src)]
  | acquireOften h src times => do
    let src ← named State.sources src
    let h ← named State.handles h
    let rs ← (List.range times).mapM fun _ => outcomeOf (Handle.getOrAcquire h src)
    let s ← get
    return .record [("results", .many (.outcome (instrumentName s)) rs),
      ("acquired", ← timesAsked src)]
  | handleGateway as h src => do
    let src ← named State.sources src
    match ← outcomeOf (Handle.gateway (← named State.handles h) src) with
    | .ok gateway =>
      keepGateway as gateway
      return .success (← transformerCount gateway)
    | .error e => return .failure e

end ClassRecovery.Session
