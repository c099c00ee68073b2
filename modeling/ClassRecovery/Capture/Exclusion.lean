import ClassRecovery.Capture.Threads

/-!
Several threads that have something to do under the locks of class names. A share of a lock lets a
thread wait for it, no more. What is done under the lock does not touch the table; if the same thread
wants another lock meanwhile, it counts as a thread of its own for that.
-/

namespace ClassRecovery.Capture.Locks.Exclusion

/-- What a thread does next: it gets a share of the lock of a name, takes the lock, does its work and
gives the lock back, takes it out of the table if nobody else wants it, and lets the share go. -/
inductive Phase
  | finding (name : String)
  | waiting (name : String) (lock : Nat)
  | inside (name : String) (lock : Nat)
  | returning (name : String) (lock : Nat)
  | dropping (lock : Nat)
  deriving DecidableEq, Repr

namespace Phase

/-- Where a thread is as far as the table is concerned. -/
def atTable : Phase → Threads.Phase
  | finding name => .finding name
  | waiting name lock | inside name lock | returning name lock => .holding name lock
  | dropping lock => .dropping lock

/-- Where a thread goes on from the table. With a new share it waits for the lock. -/
def ofTable : Threads.Phase → Phase
  | .finding name => finding name
  | .holding name lock => waiting name lock
  | .dropping lock => dropping lock

/-- The name and the lock of a thread that has found the lock and not come back to the table. -/
def engaged : Phase → Option (String × Nat)
  | waiting name lock | inside name lock | returning name lock => some (name, lock)
  | finding _ | dropping _ => none

end Phase

structure Shared where
  table : Threads.Shared := {}
  /-- The threads that hold locks. -/
  holders : Table Nat Nat := {}
  deriving DecidableEq, Repr

def next (t : Nat) (phase : Phase) (s : Shared) : Option (Option Phase × Shared) :=
  match phase with
  | .waiting name lock =>
    if s.holders.get? lock = none then
      some (some (.inside name lock), { s with holders := s.holders.put lock t })
    else none
  | .inside name lock =>
    some (some (.returning name lock), { s with holders := s.holders.erase lock })
  | .finding _ | .returning _ _ | .dropping _ =>
    let (after, table) := Threads.next phase.atTable s.table
    some (after.map .ofTable, { s with table })

def routine : Routine Shared String Phase Empty where
  start := .finding
  next := next
  besides e := nomatch e

abbrev State := Routine.State Shared Phase

def start : State := { shared := {} }

/-- The lock that the table has for a name. -/
def lockOf (m : State) (name : String) : Option Nat := m.shared.table.locks.table.get? name

def engaged (m : State) (t : Nat) : Option (String × Nat) := (m.phases t).bind Phase.engaged

end ClassRecovery.Capture.Locks.Exclusion
