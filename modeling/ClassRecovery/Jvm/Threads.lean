import ClassRecovery.Interleaving
import ClassRecovery.Jvm.Connection

/-!
Several threads that ask one connection for the loaders of objects. Whoever has the lock of the
connection looks through the loaders that it knows, one after the other, and adds what is not there.
-/

namespace ClassRecovery.Jvm.Link.Threads

abbrev Answer := Except Error (Option Loader)

/-- What a thread does next. -/
inductive Phase
  | asking (o : Option Reference)
  | locking (r : Reference)
  /-- The object is none of the first loaders. -/
  | comparing (r : Reference) (n : Nat)
  | pinning (r : Reference)
  | numbering (r p : Reference)
  | adding (r p : Reference) (id : Nat)
  | unlocking (r : Reference) (answer : Answer)

structure Shared where
  link : Link
  holder : Option Nat := none
  /-- The requests that were answered, the latest first. -/
  answered : List (Option Reference × Answer) := []

def Shared.answer (o : Option Reference) (a : Answer) (s : Shared) : Shared :=
  { s with answered := (o, a) :: s.answered }

def Shared.update (i : Nat) (f : Connection → Connection) (s : Shared) : Shared :=
  { s with link := (updateConnection i f s.link).2 }

def next (i t : Nat) (phase : Phase) (s : Shared) : Option (Option Phase × Shared) :=
  match phase with
  | .asking none => some (none, s.answer none (.ok none))
  | .asking (some r) => some (some (.locking r), s)
  | .locking r =>
    if s.holder = none then some (some (.comparing r 0), { s with holder := some t }) else none
  | .comparing r n =>
    match (knownLoaders i s.link)[n]? with
    | some k =>
      if k.reference.object = r.object then
        some (some (.unlocking r (.ok (some (.object i k.id)))), s)
      else some (some (.comparing r (n + 1)), s)
    | none => some (some (.pinning r), s)
  | .pinning r =>
    match native (pin r.object) s.link with
    | (some p, link) => some (some (.numbering r p), { s with link })
    | (none, link) =>
      some (some (.unlocking r (.error (.jni "cannot pin class loader"))), { s with link })
  | .numbering r p =>
    let id := (s.link.connections[i]?.map (·.nextId)).getD 0
    some (some (.adding r p id), s.update i fun c => { c with nextId := c.nextId + 1 })
  | .adding r p id =>
    some (some (.unlocking r (.ok (some (.object i id)))),
      s.update i fun c => { c with loaders := c.loaders ++ [{ id, reference := p }] })
  | .unlocking r answer => some (none, { s with holder := none }.answer (some r) answer)

/-- The loaders that a connection knows, by their numbers, and the number that is next. -/
def table (i : Nat) (l : Link) : Option (List (Nat × Reference) × Nat) :=
  l.connections[i]?.map fun c => (c.loaders.map fun k => (k.id, k.reference), c.nextId)

/-- Everything may change but what is known of loaders here. -/
def besides (i : Nat) (link : Link) (s : Shared) : Option Shared :=
  if table i link = table i s.link then some { s with link } else none

def routine (i : Nat) : Routine Shared (Option Reference) Phase Link where
  start := .asking
  next := next i
  besides := besides i

/-- A connection is made, whatever there was before. -/
def start (l : Link) : Routine.State Shared Phase := { shared := { link := (connect l).2 } }

end ClassRecovery.Jvm.Link.Threads
