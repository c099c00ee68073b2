import ClassRecovery.World

/-!
Registering transformers. A gateway keeps a queue of its own and has one callback registered with
what it wraps, from its first transformer on until nobody holds the gateway.
-/

namespace ClassRecovery

def GivenInstrument.add (r : Registration) (i : GivenInstrument) : GivenInstrument :=
  { i with queue := i.queue ++ [r] }

def Gateway.add (r : Registration) (g : Gateway) : Gateway :=
  { g with queue := g.queue ++ [r] }

namespace Instrument

/-- Whether a gateway has its callback where it belongs. -/
def hasCallback (index : Nat) (w : World) : Bool :=
  (w.gateways[index]?.map (·.installed)).getD false

def callbackOf (index : Nat) (w : World) : Option Nat := w.gateways[index]?.map (·.callback)

def addTransformer (r : Registration) : Instrument → Action Unit
  | machine => World.updateHook fun h => { h with queue := h.queue ++ [r] }
  | given index => World.updateInstrument index (·.add r)
  | gateway index inner => do
    unless hasCallback index (← get) do
      if let some callback := callbackOf index (← get) then
        addTransformer ⟨callback, true⟩ inner
      World.updateGateway index fun g => { g with installed := true }
    World.updateGateway index (·.add r)

def queue (w : World) : Instrument → List Registration
  | machine => (w.hook.map (·.queue)).getD []
  | given index => (w.instruments[index]?.map (·.queue)).getD []
  | gateway index _ => (w.gateways[index]?.map (·.queue)).getD []

def removeTransformer (transformer : Nat) (i : Instrument) : Action Bool := do
  let found := registered transformer (i.queue (← get))
  match i with
  | machine =>
    World.updateHook fun h => { h with queue := removeRegistration transformer h.queue }
  | given index =>
    World.updateInstrument index fun g => { g with queue := removeRegistration transformer g.queue }
  | gateway index _ =>
    World.updateGateway index fun g => { g with queue := removeRegistration transformer g.queue }
  return found

/-- Whether an instrument can still be used. A gateway goes with its last holder. -/
def isHeld (w : World) : Instrument → Bool
  | gateway index _ => (w.gateways[index]?.map (·.holders)).any (· ≠ 0)
  | _ => true

def retain : Instrument → Action Unit
  | gateway index _ => World.updateGateway index fun g => { g with holders := g.holders + 1 }
  | _ => return

/-- A holder less. With the last one the callback of a gateway goes, and its hold on what it
wraps. -/
def release : Instrument → Action Unit
  | gateway index inner => do
    match (← get).gateways[index]? with
    | none => return
    | some g =>
      World.updateGateway index fun g => { g with holders := g.holders - 1 }
      if g.holders = 1 then
        if g.installed then discard <| inner.removeTransformer g.callback
        inner.release
  | _ => return

def wrap (inner : Instrument) : Action Instrument := do
  inner.retain
  let index := (← get).gateways.size
  let callback ← World.addTransformer { action := .callback index }
  discard <| World.addGateway { callback }
  return gateway index inner

end Instrument

end ClassRecovery
