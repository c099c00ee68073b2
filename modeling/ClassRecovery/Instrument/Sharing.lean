import ClassRecovery.Instrument.Registry
import ClassRecovery.Interleaving

/-!
Several threads that use gateways over one instrument. Whoever adds the first transformer of a
gateway takes the lock of the gateway and looks again before the callback is registered. Whoever
gives up the last hold on a gateway has it alone, as nobody can be using it then, and takes the
callback out again.
-/

namespace ClassRecovery.Instrument

inductive Request
  | wrap
  | share (gateway : Nat)
  | drop (gateway : Nat)
  | add (gateway : Nat) (registration : Registration)
  | remove (gateway transformer : Nat)
  | retransform (gateway : Nat)
  deriving DecidableEq, Repr

/-- What one thread does that is asked. Transforming classes does nothing to gateways of itself. -/
def Request.act (inner : Instrument) : Request → Action Unit
  | .wrap => discard inner.wrap
  | .share g => (gateway g inner).retain
  | .drop g => (gateway g inner).release
  | .add g r => (gateway g inner).addTransformer r
  | .remove g t => discard ((gateway g inner).removeTransformer t)
  | .retransform _ => return

def isThere (w : World) : Instrument → Bool
  | machine => w.hook.isSome
  | given index => decide (index < w.instruments.size)
  | gateway index _ => decide (index < w.gateways.size)

def holders (index : Nat) (w : World) : Nat := (w.gateways[index]?.map (·.holders)).getD 0

/-- What the callback of a gateway does. -/
def callbackAction (index : Nat) (w : World) : Option TransformerAction :=
  (callbackOf index w).bind fun callback => w.transformers[callback]?.map (·.action)

/-- What a gateway has. -/
def fields (index : Nat) (w : World) : Option (List Registration × Nat × Bool × Nat) :=
  w.gateways[index]?.map fun x => (x.queue, x.callback, x.installed, x.holders)

namespace Threads

/-- What a thread does next. Of the phases of adding, all between the two for the lock are under the
lock. A thread is `transforming` as long as the instrument is at work for it; what transformers ask
for meanwhile counts as asked on other threads. -/
inductive Phase
  | wrapping
  | sharing (g : Nat)
  | dropping (g : Nat)
  | unregistering (g : Nat)
  | releasing (g : Nat)
  | adding (g : Nat) (r : Registration)
  | checking (g : Nat) (r : Registration)
  | locking (g : Nat) (r : Registration)
  | checkingAgain (g : Nat) (r : Registration)
  | registering (g : Nat) (r : Registration)
  | marking (g : Nat) (r : Registration)
  | unlocking (g : Nat) (r : Registration)
  | pushing (g : Nat) (r : Registration)
  | removing (g transformer : Nat)
  | entering (g : Nat)
  | transforming (g : Nat)

/-- A request that was answered. -/
structure Entry where
  thread : Nat
  request : Request
  /-- Whether a transformer was found that was to be removed. -/
  found : Bool := false
  deriving DecidableEq, Repr

structure Shared where
  world : World
  /-- Who has a gateway alone, by its lock or by giving it up last. -/
  holder : Nat → Option Nat := fun _ => none
  /-- The gateways that were made, the latest first. -/
  created : List Nat := []
  /-- The threads that are using a gateway, each with that gateway. -/
  borrowed : List (Nat × Nat) := []
  /-- The latest first. -/
  log : List Entry := []

namespace Shared

def isLive (g : Nat) (s : Shared) : Bool := decide (g ∈ s.created) && decide (holders g s.world ≠ 0)

def take (g : Nat) (t : Option Nat) (s : Shared) : Shared :=
  { s with holder := fun k => if k = g then t else s.holder k }

def update (g : Nat) (f : Gateway → Gateway) (s : Shared) : Shared :=
  { s with world := (World.updateGateway g f s.world).2 }

def borrow (t g : Nat) (s : Shared) : Shared := { s with borrowed := (t, g) :: s.borrowed }

def giveBack (t g : Nat) (s : Shared) : Shared := { s with borrowed := s.borrowed.erase (t, g) }

def answer (t : Nat) (request : Request) (found : Bool) (s : Shared) : Shared :=
  { s with log := ⟨t, request, found⟩ :: s.log }

end Shared

def register (inner : Instrument) (g : Nat) (w : World) : World :=
  match callbackOf g w with
  | some callback => (inner.addTransformer ⟨callback, true⟩ w).2
  | none => w

def unregister (inner : Instrument) (g : Nat) (w : World) : World :=
  match callbackOf g w with
  | some callback =>
    if hasCallback g w then (inner.removeTransformer callback w).2 else w
  | none => w

/-- A gateway that was not made yet, or that all gave up, does not answer. The last hold is not
given up while somebody is using the gateway. -/
def next (inner : Instrument) (t : Nat) (phase : Phase) (s : Shared) :
    Option (Option Phase × Shared) :=
  match phase with
  | .wrapping =>
    some (none, { s with
      world := (inner.wrap s.world).2
      created := s.world.gateways.size :: s.created }.answer t .wrap false)
  | .sharing g =>
    let shared := s.update g fun x => { x with holders := x.holders + 1 }
    if s.isLive g then some (none, shared.answer t (.share g) false) else none
  | .dropping g =>
    let dropped := s.update g fun x => { x with holders := x.holders - 1 }
    if !s.isLive g then none
    else if holders g s.world ≠ 1 then some (none, dropped.answer t (.drop g) false)
    else if s.borrowed.any (·.2 = g) then none
    else some (some (.unregistering g), dropped.take g (some t))
  | .unregistering g =>
    some (some (.releasing g), { s with world := unregister inner g s.world }.take g none)
  | .releasing g =>
    some (none, { s with world := (inner.release s.world).2 }.answer t (.drop g) false)
  | .adding g r => if s.isLive g then some (some (.checking g r), s.borrow t g) else none
  | .checking g r => some (some (if hasCallback g s.world then .pushing g r else .locking g r), s)
  | .locking g r =>
    if s.holder g = none then some (some (.checkingAgain g r), s.take g (some t)) else none
  | .checkingAgain g r =>
    some (some (if hasCallback g s.world then .unlocking g r else .registering g r), s)
  | .registering g r =>
    some (some (.marking g r), { s with world := register inner g s.world })
  | .marking g r =>
    some (some (.unlocking g r), s.update g fun x => { x with installed := true })
  | .unlocking g r => some (some (.pushing g r), s.take g none)
  | .pushing g r =>
    some (none, ((s.update g (·.add r)).giveBack t g).answer t (.add g r) false)
  | .removing g transformer =>
    if s.isLive g then
      let (found, world) := (gateway g inner).removeTransformer transformer s.world
      some (none, { s with world }.answer t (.remove g transformer) found)
    else none
  | .entering g => if s.isLive g then some (some (.transforming g), s.borrow t g) else none
  | .transforming g => some (none, (s.giveBack t g).answer t (.retransform g) false)

/-- Everything may change but what is registered with the instrument, and what the gateways over it
have and are there for. -/
def besides (inner : Instrument) (world : World) (s : Shared) : Option Shared :=
  if inner.isThere world ∧ inner.queue world = inner.queue s.world ∧
      (∀ g ∈ s.created, fields g world = fields g s.world ∧
        callbackAction g world = callbackAction g s.world) ∧
      s.world.gateways.size ≤ world.gateways.size ∧
      s.world.transformers.size ≤ world.transformers.size then
    some { s with world }
  else none

def start : Request → Phase
  | .wrap => .wrapping
  | .share g => .sharing g
  | .drop g => .dropping g
  | .add g r => .adding g r
  | .remove g t => .removing g t
  | .retransform g => .entering g

def routine (inner : Instrument) : Routine Shared Request Phase World where
  start := start
  next := next inner
  besides := besides inner

end Threads

end ClassRecovery.Instrument
