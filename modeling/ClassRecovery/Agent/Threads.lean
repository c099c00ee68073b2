import ClassRecovery.Agent.Bootstrap
import ClassRecovery.Interleaving

/-!
Several threads that want one agent to be attached, or the instrument that it hands over. Only the
thread that has the lock of the agent builds, attaches or deletes anything for it.
-/

namespace ClassRecovery.Agent

inductive Request
  | attach
  | acquire
  deriving DecidableEq, Repr

/-- What one thread does that is asked. -/
def Request.ask (index : Nat) : Request → Attempt Error (Option Instrument)
  | attach => do
    ensureAttached index
    return none
  | acquire => some <$> Agent.acquire index

namespace Threads

/-- What is done for an agent under its lock, and what came of it. -/
inductive Deed
  | built (result : Except Error Unit)
  | attached (command : Attach.Command) (result : Except Error Unit)
  | deleted (path : String)

/-- What a thread is answered, with what the host told it about an instrument. -/
inductive Answer
  | attach (result : Except Error Unit)
  /-- The host's own instrument, where no agent is configured. -/
  | own (told : Except Error Instrument)
  | unattached (e : Error)
  | delivered (told : Except Error (Option Instrument))

def Answer.result : Answer → Except Error (Option Instrument)
  | attach (.ok ()) => .ok none
  | attach (.error e) | unattached e => .error e
  | own told => told.map some
  | delivered (.ok (some i)) => .ok (some i)
  | delivered (.ok none) => .error neverDelivered
  | delivered (.error e) => .error e

/-- What a thread does next. It looks whether there is an agent to attach at all, takes the lock, and
looks whether that was done; if not, it builds the jar, finds the file, requests that it be attached,
deletes it, and notes that the agent is attached. It gives the lock back, and asks what the agent
delivered. -/
inductive Phase
  | begun (r : Request)
  | locking (r : Request)
  | checking (r : Request)
  | building (r : Request) (agentClass : String)
  | finding (r : Request)
  | requesting (r : Request) (command : Attach.Command)
  | cleaning (r : Request) (result : Except Error Unit)
  | marking (r : Request)
  | unlocking (r : Request) (result : Except Error Unit)
  | collecting

structure Shared where
  world : World
  holder : Option Nat := none
  /-- What each thread did that had the lock. The latest is the first, in each turn as well. -/
  turns : List (List Deed) := []
  /-- The latest first. -/
  answered : List Answer := []

namespace Shared

def note (d : Deed) (s : Shared) : Shared :=
  match s.turns with
  | [] => s
  | turn :: rest => { s with turns := (d :: turn) :: rest }

def answer (a : Answer) (s : Shared) : Option Phase × Shared :=
  (none, { s with answered := a :: s.answered })

end Shared

/-- The file that is attached, and the request for it. -/
def target (o : Options) : String × (String → Attach.Command) :=
  match o.agent.library with
  | some library => (library, (.nativeAgent · o.agent.args))
  | none => (o.artifactPath, (.jarAgent · o.agent.args))

/-- Whether the file goes after the attempt. -/
def deletes (o : Options) : Bool := o.agent.library.isNone && o.agent.cache = .buildAttachDelete

/-- Where an attempt to attach starts. -/
def first (r : Request) (o : Options) (files : FileSystem) : Phase :=
  match o.agent.library, o.agent.agentClass with
  | some _, _ => .finding r
  | none, some agentClass =>
    if o.agent.cache = .reuseCached && files.isFile o.artifactPath then .finding r
    else .building r agentClass
  | none, none => .unlocking r (.ok ())

/-- Success is noted before the lock is given back. -/
def concluding (r : Request) : Except Error Unit → Phase
  | .ok () => .marking r
  | .error e => .unlocking r (.error e)

def nextOf (index t : Nat) (a : Agent) (phase : Phase) (s : Shared) :
    Option (Option Phase × Shared) :=
  match phase with
  | .begun r =>
    if a.options.agentConfigured then some (some (.locking r), s)
    else match r with
      | .attach => some (s.answer (.attach (.ok ())))
      | .acquire =>
        let (told, world) := Host.instrument a.host s.world
        some ({ s with world }.answer (.own told))
  | .locking r =>
    if s.holder = none then
      some (some (.checking r), { s with holder := some t, turns := [] :: s.turns })
    else none
  | .checking r =>
    if a.attached then some (some (.unlocking r (.ok ())), s)
    else some (some (first r a.options s.world.files), s)
  | .building r agentClass =>
    let (result, world) := buildConfigured a agentClass s.world
    let next := match result with
      | .ok () => .finding r
      | .error e => .unlocking r (.error e)
    some (some next, { s with world }.note (.built result))
  | .finding r =>
    let (found, world) := existing (target a.options).1 s.world
    let next := match found with
      | .ok path => .requesting r ((target a.options).2 path)
      | .error e => .cleaning r (.error e)
    some (some next, { s with world })
  | .requesting r command =>
    let (result, world) := request index command s.world
    some (some (.cleaning r result), { s with world }.note (.attached command result))
  | .cleaning r result =>
    if deletes a.options then
      let path := a.options.artifactPath
      some (some (concluding r result),
        { s with world := (Attach.removeQuietly path s.world).2 }.note (.deleted path))
    else some (some (concluding r result), s)
  | .marking r =>
    let world := (World.updateAgent index (fun a => { a with attached := true }) s.world).2
    some (some (.unlocking r (.ok ())), { s with world })
  | .unlocking r result =>
    let s := { s with holder := none }
    match r, result with
    | .attach, result => some (s.answer (.attach result))
    | .acquire, .error e => some (s.answer (.unattached e))
    | .acquire, .ok () => some (some .collecting, s)
  | .collecting =>
    let (told, world) := Host.deliveredInstrument a.delivered a.host s.world
    some ({ s with world }.answer (.delivered told))

/-- The step of a thread, for an agent that there is. -/
def next (index t : Nat) (phase : Phase) (s : Shared) : Option (Option Phase × Shared) := do
  nextOf index t (← s.world.agents[index]?) phase s

/-- What threads rely on of an agent. -/
def settings (index : Nat) (w : World) : Option (Options × Bool) :=
  w.agents[index]?.map fun a => (a.options, a.attached)

/-- Everything may change but the options of the agent and whether it counts as attached. -/
def besides (index : Nat) (world : World) (s : Shared) : Option Shared :=
  if settings index world = settings index s.world then some { s with world } else none

def routine (index : Nat) : Routine Shared Request Phase World where
  start := .begun
  next := next index
  besides := besides index

def start (world : World) : Routine.State Shared Phase := { shared := { world } }

end Threads

end ClassRecovery.Agent
