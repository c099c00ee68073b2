import ClassRecovery.Table

/-!
Locks by class name. Captured bytes are kept by name, so of the classes of one name only one may be
captured at a time. A lock is shared by those that hold or wait for it and by the table it is found
in; who finds that nobody else shares it takes it out of the table.
-/

namespace ClassRecovery.Capture

structure Locks where
  /-- The lock of a name, by its number. -/
  table : Table String Nat := {}
  /-- How many share a lock. -/
  shares : Array Nat := #[]
  deriving DecidableEq, Repr

namespace Locks

def share (lock : Nat) (l : Locks) : Locks :=
  { l with shares := l.shares.modify lock (· + 1) }

def drop (lock : Nat) (l : Locks) : Locks :=
  { l with shares := l.shares.modify lock (· - 1) }

/-- A share of the lock of a name. A name without one gets a new lock, which the table shares. -/
def acquire (name : String) (l : Locks) : Nat × Locks :=
  match l.table.get? name with
  | some lock => (lock, l.share lock)
  | none => (l.shares.size, ⟨l.table.put name l.shares.size, l.shares.push 2⟩)

/-- Takes the lock out of the table if only the caller and the table share it. The share of the
caller stays. -/
def release (name : String) (lock : Nat) (l : Locks) : Locks :=
  if l.shares[lock]? = some 2 then
    match l.table.get? name with
    | some kept => drop kept { l with table := l.table.erase name }
    | none => l
  else l

end Locks

end ClassRecovery.Capture
