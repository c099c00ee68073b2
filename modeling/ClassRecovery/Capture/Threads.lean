import ClassRecovery.Capture.Locks
import ClassRecovery.Interleaving

/-!
Several threads with one table of class locks. Who looks into the table has its own lock meanwhile,
so that nobody comes between; the share of a class lock is let go after that lock is given back.
-/

namespace ClassRecovery.Capture.Locks.Threads

inductive Event
  /-- Someone was done with a class lock. The share is still there. -/
  | released (lock : Nat)
  | dropped (lock : Nat)
  deriving DecidableEq, Repr

structure Shared where
  locks : Locks := {}
  /-- What happened to the shares, the latest first. -/
  log : List Event := []
  deriving DecidableEq, Repr

/-- What a thread does next: it gets a share of the lock of a name, takes the lock out of the table
if nobody else wants it, and lets the share go. -/
inductive Phase
  | finding (name : String)
  | holding (name : String) (lock : Nat)
  | dropping (lock : Nat)
  deriving DecidableEq, Repr

/-- Nobody waits here for longer than another one looks into the table. -/
def next (phase : Phase) (s : Shared) : Option Phase × Shared :=
  match phase with
  | .finding name =>
    let (lock, locks) := s.locks.acquire name
    (some (.holding name lock), { s with locks })
  | .holding name lock =>
    (some (.dropping lock), ⟨s.locks.release name lock, .released lock :: s.log⟩)
  | .dropping lock => (none, ⟨s.locks.drop lock, .dropped lock :: s.log⟩)

/-- Threads that want locks of names. Nobody else changes the table. -/
def routine : Routine Shared String Phase Empty where
  start := .finding
  next _ phase s := some (next phase s)
  besides e := nomatch e

abbrev State := Routine.State Shared Phase

def start : State := { shared := {} }

end ClassRecovery.Capture.Locks.Threads
