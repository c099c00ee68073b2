import ClassRecovery.Instrument.Source
import ClassRecovery.Interleaving

/-!
Several threads that ask one handle for its instrument, or for a gateway over it. Whoever finds the
handle empty takes its lock and looks again before a source is asked.
-/

namespace ClassRecovery.Handle

abbrev Answer := Except Error Instrument

structure Request where
  source : InstrumentSource
  /-- Whether a gateway is wanted. -/
  wraps : Bool
  deriving DecidableEq, Repr

/-- What one thread does that is asked. -/
def Request.ask (handle : Nat) (r : Request) : Attempt Error Instrument :=
  if r.wraps then gateway handle r.source else getOrAcquire handle r.source

namespace Threads

/-- What a thread does next: it looks into the handle, takes the lock, looks again, asks the source,
fills the handle, gives the lock back, and hands over what was asked for. -/
inductive Phase
  | looking (r : Request)
  | locking (r : Request)
  | lookingAgain (r : Request)
  | acquiring (r : Request)
  | publishing (r : Request) (i : Instrument)
  | unlocking (r : Request) (answer : Answer)
  | handing (r : Request) (answer : Answer)

structure Shared where
  world : World
  holder : Option Nat := none
  /-- What the sources gave, the latest first. -/
  acquired : List Answer := []
  /-- The requests that were answered, the latest first. -/
  answered : List (Request × Answer) := []

/-- The first instrument that comes into a handle stays. -/
def publish (handle : Nat) (i : Instrument) : Action Instrument := do
  i.retain
  modify fun w => { w with handles := w.handles.modify handle fun h => some (h.getD i) }
  return ((held handle (← get)).getD i)

/-- What is left to do for a request when the instrument is there. -/
def hand (r : Request) : Answer → Action Answer
  | .ok i => if r.wraps then .ok <$> i.wrap else return .ok i
  | .error e => return .error e

def next (handle t : Nat) (phase : Phase) (s : Shared) : Option (Option Phase × Shared) :=
  match phase with
  | .looking r =>
    match held handle s.world with
    | some i => some (some (.handing r (.ok i)), s)
    | none => some (some (.locking r), s)
  | .locking r =>
    if s.holder = none then some (some (.lookingAgain r), { s with holder := some t }) else none
  | .lookingAgain r =>
    match held handle s.world with
    | some i => some (some (.unlocking r (.ok i)), s)
    | none => some (some (.acquiring r), s)
  | .acquiring r =>
    match r.source.acquire s.world with
    | (.ok i, world) =>
      some (some (.publishing r i), { s with world, acquired := .ok i :: s.acquired })
    | (.error e, world) =>
      some (some (.unlocking r (.error e.asBootstrapFailure)),
        { s with world, acquired := .error e :: s.acquired })
  | .publishing r i =>
    let (i, world) := publish handle i s.world
    some (some (.unlocking r (.ok i)), { s with world })
  | .unlocking r answer => some (some (.handing r answer), { s with holder := none })
  | .handing r answer =>
    let (answer, world) := hand r answer s.world
    some (none, { s with world, answered := (r, answer) :: s.answered })

/-- Everything may change but what the handle holds. -/
def besides (handle : Nat) (world : World) (s : Shared) : Option Shared :=
  if world.handles[handle]? = s.world.handles[handle]? then some { s with world } else none

def routine (handle : Nat) : Routine Shared Request Phase World where
  start := .looking
  next := next handle
  besides := besides handle

def start (world : World) : Routine.State Shared Phase := { shared := { world } }

end Threads

end ClassRecovery.Handle
