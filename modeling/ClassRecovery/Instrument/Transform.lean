import ClassRecovery.Instrument.Machine
import ClassRecovery.Instrument.Registry

/-!
Transforming classes through an instrument. The callback of a gateway keeps still unless its own
gateway has a transformation under way on this thread, so one that asks nothing sees nothing of what
others ask for.
-/

namespace ClassRecovery

namespace Transform

def runCallback (run : Runner) (gateway : Nat) (event : ClassFileEvent) : Action Verdict := do
  let w ← get
  if gateway ∈ w.inFlight then
    runQueue run event ((w.gateways[gateway]?.map (·.queue)).getD [])
  else return .unchanged

/-- Keeps the bytes of a class that changes; first loads are left alone. -/
def capture (cache : Nat) (event : ClassFileEvent) : Action Unit :=
  match event.redefined with
  | none => return
  | some c => World.updateCache cache (·.put c.name event.bytes)

end Transform

namespace Instrument

def namedClass (name : String) : ClassRef := ⟨name, .topLevel, none, .named⟩

/-- Whatever came of a transformation that went on meanwhile, the result of this one is kept. -/
def changeGiven (run : Runner) (index : Nat) (c : ClassRef) : Action Unit := do
  match (← get).instruments[index]? with
  | none => return
  | some i =>
    match i.classes.get? c.name with
    | none => return
    | some bytes =>
      let event : ClassFileEvent := ⟨c.loader, some c.internalName, some c, bytes⟩
      let verdict ← Transform.runSeries run event (Transform.capable i.queue)
      let kept := verdict.bytesOr bytes
      World.updateInstrument index fun i => { i with classes := i.classes.put c.name kept }

def retransformGiven (run : Runner) (index : Nat) (classes : List ClassRef) :
    Attempt Error Unit := do
  World.updateInstrument index fun i => { i with count := i.count + 1 }
  match (← get).instruments[index]? with
  | none => return
  | some i =>
    match i.retransformFault with
    | some e => throw e
    | none => (classes ++ i.also.map namedClass).forM fun c => changeGiven run index c

/-- A gateway marks the thread while what it wraps is at work. Of several marks the latest goes. -/
def retransformWith (run : Runner) (classes : List ClassRef) : Instrument → Attempt Error Unit
  | machine => Hook.retransform run classes
  | given index => retransformGiven run index classes
  | gateway index inner => do
    modify fun w => { w with inFlight := index :: w.inFlight }
    andAlways (modify fun w => { w with inFlight := w.inFlight.erase index })
      (retransformWith run classes inner)

end Instrument

namespace Transform

/-- What a transformer does when it is called for the first time. It does not hold the instrument
that it works on. -/
def firstAct (run : Runner) : TransformerAction → Action Unit
  | .retransform on classes => do
    if on.isHeld (← get) then discard <| (Instrument.retransformWith run classes on).run
  | .add on r => do
    if on.isHeld (← get) then on.addTransformer r
  | .remove on t => do
    if on.isHeld (← get) then discard <| on.removeTransformer t
  | _ => return

def answer (event : ClassFileEvent) : TransformerAction → Verdict
  | .echo => .replaced event.bytes
  | .append bytes => .replaced (event.bytes ++ bytes)
  | .replace bytes => .replaced bytes
  | .panic => .panicked
  | _ => .unchanged

/-- Transformers can ask for transformations that run transformers again; `depth` bounds that. -/
def runNested : (depth : Nat) → Runner
  | 0, _, _ => return .unchanged
  | depth + 1, index, event => do
    match (← get).transformers[index]? with
    | none => return .unchanged
    | some t =>
      match t.action with
      | .capture cache => capture cache event; return .unchanged
      | .callback gateway => runCallback (runNested depth) gateway event
      | action =>
        World.updateTransformer index fun t => { t with called := true, seen := event :: t.seen }
        unless t.called do firstAct (runNested depth) action
        return answer event action

/-- How deep transformers can nest: only a first call nests, and between two such calls stand at
most the callbacks of all gateways. -/
def depthLimit (w : World) : Nat := (w.transformers.size + 1) * (w.gateways.size + 2)

def run : Runner := fun index event => do runNested (depthLimit (← get)) index event

end Transform

namespace Instrument

def retransform (classes : List ClassRef) (i : Instrument) : Attempt Error Unit :=
  i.retransformWith Transform.run classes

/-- What was asked of the thread before does not count for a new one. -/
def onNewThread {ε α : Type} (a : Attempt ε α) : Attempt ε α := do
  let marks := (← get).inFlight
  modify fun w => { w with inFlight := [] }
  andAlways (modify fun w => { w with inFlight := marks }) a

def redefine (c : ClassRef) (bytes : Bytes) : Instrument → Attempt Error Unit
  | machine => Hook.redefine c bytes
  | gateway _ inner => redefine c bytes inner
  | given index => do
    match (← get).instruments[index]? with
    | none => return
    | some i =>
      match i.redefineFault with
      | some e => throw e
      | none =>
        World.updateInstrument index fun i => { i with classes := i.classes.put c.name bytes }

def isModifiable (c : ClassRef) : Instrument → Attempt Error Bool
  | machine => Hook.isModifiable c
  | gateway _ inner => isModifiable c inner
  | given index => do
    match (← get).instruments[index]? with
    | none => return false
    | some i => MonadExcept.ofExcept i.modifiable

def supportsRetransform (w : World) : Instrument → Bool
  | machine => w.hook.any (·.retransforms)
  | given index => (w.instruments[index]?.map (·.retransforms)).getD false
  | gateway _ inner => supportsRetransform w inner

def supportsRedefine (w : World) : Instrument → Bool
  | machine => w.hook.any (·.redefines)
  | given index => (w.instruments[index]?.map (·.redefines)).getD false
  | gateway _ inner => supportsRedefine w inner

def allLoaded : Instrument → Attempt Error (List ClassRef)
  | machine => Hook.allLoaded
  | gateway _ inner => allLoaded inner
  | given index => do
    return (((← get).instruments[index]?.map (·.classes.keys)).getD []).map namedClass

end Instrument

end ClassRecovery
