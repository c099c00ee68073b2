import ClassRecovery.Collector.Standard

/-!
Several threads that ask one live collector. A step is what a thread does between two moments at
which another one can come between: it takes a lock or gives it back, or works once on what all
threads share. The instrument shows every class to its callbacks one after the other.
-/

namespace ClassRecovery

namespace Instrument

/-- The marks that a thread gets while the instrument transforms classes for it. -/
def marks : Instrument → List Nat
  | gateway g inner => inner.marks ++ [g]
  | _ => []

def unmark (marks : List Nat) : Instrument → List Nat
  | gateway g inner => (inner.unmark marks).erase g
  | _ => marks

end Instrument

namespace Collector.Threads

abbrev Answer := Except Error (Option Bytes)

/-- What a thread with a share of the lock of a class name does next: it takes the lock, registers
the capturing transformer, has the class transformed again, calls the callbacks that are left, takes
the captured bytes and gives the lock back; then it takes the lock of the table, takes the lock of
the name out of it, and lets its share go. -/
inductive Stage
  | waiting
  | inside
  | asking
  | delivering (callbacks : List Nat)
  | fetching
  | leaving (answer : Answer)
  | returning (answer : Answer)
  | closing (answer : Answer)
  | dropping (answer : Answer)

/-- What a thread does next: it gets the gateway, takes the lock of the table, and gets a share of
the lock of the name, which gives the lock of the table back. -/
inductive Phase
  | idle
  | begun (c : ClassRef)
  | wanting (c : ClassRef) (gateway : Instrument)
  | finding (c : ClassRef) (gateway : Instrument)
  | sharing (c : ClassRef) (gateway : Instrument) (lock : Nat) (stage : Stage)

structure Thread where
  phase : Phase := .idle
  /-- The gateways with a transformation under way on this thread, the latest first. -/
  marks : List Nat := []

/-- The collector that is asked, and what the instrument shows of a class. -/
structure Setting where
  index : Nat
  point : Nat
  handle : Nat
  source : InstrumentSource
  bytesOf : ClassRef → Bytes

structure State where
  world : World
  tableHolder : Option Nat := none
  /-- The threads that hold locks of class names. -/
  holders : Table Nat Nat := {}
  threads : List Thread
  /-- The questions that were answered, the latest first. -/
  answered : List (ClassRef × Answer) := []

namespace State

def put (m : State) (t : Nat) (th : Thread) : State := { m with threads := m.threads.set t th }

def start (world : World) (count : Nat) : State :=
  { world, threads := .replicate count {} }

end State

/-- What the thread does to what all share. Marks are its own. -/
def onThread (th : Thread) (a : Action Verdict) (w : World) : World :=
  { (a { w with inFlight := th.marks }).2 with inFlight := [] }

def eventOf (s : Setting) (c : ClassRef) : ClassFileEvent :=
  ⟨c.loader, some c.internalName, some c, s.bytesOf c⟩

/-- The instrument takes note of a question and of the callbacks that are to see the class. -/
def enter (s : Setting) (w : World) : World × List Nat :=
  ((World.updateInstrument s.index (fun i => { i with count := i.count + 1 }) w).2,
    Transform.capable ((Instrument.given s.index).queue w))

def goSharing (s : Setting) (m : State) (t : Nat) (th : Thread) (c : ClassRef)
    (gateway : Instrument) (lock : Nat) (stage : Stage) : Option State :=
  let next (stage : Stage) : Thread := { th with phase := .sharing c gateway lock stage }
  match stage with
  | .waiting =>
    if m.holders.get? lock = none then
      some ({ m with holders := m.holders.put lock t }.put t (next .inside))
    else none
  | .inside =>
    some ({ m with world := (ensureCapture s.point gateway m.world).2 }.put t (next .asking))
  | .asking =>
    if gateway.supportsRetransform m.world then
      match gateway.isModifiable c m.world with
      | (.ok true, world) =>
        let (world, callbacks) := enter s world
        some ({ m with world }.put t
          { next (.delivering callbacks) with marks := gateway.marks ++ th.marks })
      | (.ok false, world) => some ({ m with world }.put t (next (.leaving (.ok none))))
      | (.error e, world) => some ({ m with world }.put t (next (.leaving (.error e))))
    else some (m.put t (next (.leaving (.ok none))))
  | .delivering [] => some (m.put t { next .fetching with marks := gateway.unmark th.marks })
  | .delivering (callback :: rest) =>
    some ({ m with world := onThread th (Transform.run callback (eventOf s c)) m.world }.put t
      (next (.delivering rest)))
  | .fetching =>
    let (taken, world) := takeCaptured s.point c.name m.world
    some ({ m with world }.put t (next (.leaving (.ok taken))))
  | .leaving answer =>
    some ({ m with holders := m.holders.erase lock }.put t (next (.returning answer)))
  | .returning answer =>
    if m.tableHolder = none then
      some ({ m with tableHolder := some t }.put t (next (.closing answer)))
    else none
  | .closing answer =>
    some ({ m with
      world := (unlistLock s.point c.name lock m.world).2
      tableHolder := none }.put t (next (.dropping answer)))
  | .dropping answer =>
    some ({ m with
      world := (dropLock s.point lock m.world).2
      answered := (c, answer) :: m.answered }.put t { th with phase := .idle })

/-- The next step of a thread, unless it waits for a lock or has nothing to do. -/
def go (s : Setting) (m : State) (t : Nat) : Option State :=
  match m.threads[t]? with
  | none => none
  | some th =>
    match th.phase with
    | .idle => none
    | .begun c =>
      match pointGateway s.point s.handle s.source m.world with
      | (.ok gateway, world) =>
        some ({ m with world }.put t { th with phase := .wanting c gateway })
      | (.error e, world) =>
        some ({ m with world, answered := (c, .error e) :: m.answered }.put t
          { th with phase := .idle })
    | .wanting c gateway =>
      if m.tableHolder = none then
        some ({ m with tableHolder := some t }.put t { th with phase := .finding c gateway })
      else none
    | .finding c gateway =>
      let (lock, world) := acquireLock s.point c.name m.world
      some ({ m with world, tableHolder := none }.put t
        { th with phase := .sharing c gateway lock .waiting })
    | .sharing c gateway lock stage => goSharing s m t th c gateway lock stage

def call (m : State) (t : Nat) (c : ClassRef) : Option State :=
  match m.threads[t]? with
  | none => none
  | some th =>
    match th.phase with
    | .idle => some (m.put t { th with phase := .begun c })
    | _ => none

inductive Move
  | call (thread : Nat) (c : ClassRef)
  | go (thread : Nat)

def step (s : Setting) (m : State) : Move → Option State
  | .call t c => Threads.call m t c
  | .go t => Threads.go s m t

def run (s : Setting) : State → List Move → Option State
  | m, [] => some m
  | m, move :: moves =>
    match step s m move with
    | none => none
    | some m => run s m moves

end Collector.Threads

end ClassRecovery
