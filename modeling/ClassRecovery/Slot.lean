import ClassRecovery.Error
import ClassRecovery.Interleaving

/-!
A slot that takes one value, for several threads that want it. There is no lock around it: whoever
finds it empty makes a value, the first value that gets there stays, and whoever comes later with
one of their own gives that up again.
-/

namespace ClassRecovery.Slot

variable {σ α : Type}

/-- How a value is made and how it is given up, in surroundings that others use too. -/
structure Maker (σ α : Type) where
  create : ExceptT Error (StateM σ) α
  discard : α → StateM σ Unit

/-- What happens in a call. -/
inductive Event (α : Type)
  | failed (e : Error)
  | created (value : α)
  | filled (value : α)
  | discarded (value : α)
  | answered (answer : Except Error α)

/-- What a thread does next: it looks into the slot, makes a value, tries to fill the slot with it,
and if that was filled meanwhile gives the value up and looks into the slot again. Calls are
numbered from their first step on. -/
inductive Phase (σ α : Type)
  | looking (m : Maker σ α)
  | creating (call : Nat) (m : Maker σ α)
  | filling (call : Nat) (m : Maker σ α) (value : α)
  | discarding (call : Nat) (m : Maker σ α) (value : α)
  | lookingBack (call : Nat)

structure Shared (σ α : Type) where
  surroundings : σ
  slot : Option α := none
  /-- How many calls there were. -/
  calls : Nat := 0
  /-- What happened in them, the latest first. -/
  log : List (Nat × Event α) := []

namespace Shared

def begin (s : Shared σ α) : Shared σ α := { s with calls := s.calls + 1 }

def amid (surroundings : σ) (s : Shared σ α) : Shared σ α := { s with surroundings }

def fill (value : α) (s : Shared σ α) : Shared σ α := { s with slot := some value }

def note (call : Nat) (e : Event α) (s : Shared σ α) : Shared σ α :=
  { s with log := (call, e) :: s.log }

end Shared

def vanished : Error := .jni "shared environment vanished"

/-- Nobody ever has to wait. -/
def next (phase : Phase σ α) (s : Shared σ α) : Option (Phase σ α) × Shared σ α :=
  match phase with
  | .looking m =>
    match s.slot with
    | some value => (none, s.begin.note s.calls (.answered (.ok value)))
    | none => (some (.creating s.calls m), s.begin)
  | .creating call m =>
    match m.create s.surroundings with
    | (.ok value, surroundings) =>
      (some (.filling call m value), (s.amid surroundings).note call (.created value))
    | (.error e, surroundings) =>
      (none, ((s.amid surroundings).note call (.failed e)).note call (.answered (.error e)))
  | .filling call m value =>
    match s.slot with
    | none =>
      (none, ((s.fill value).note call (.filled value)).note call (.answered (.ok value)))
    | some _ => (some (.discarding call m value), s)
  | .discarding call m value =>
    (some (.lookingBack call),
      (s.amid (m.discard value s.surroundings).2).note call (.discarded value))
  | .lookingBack call =>
    match s.slot with
    | some value => (none, s.note call (.answered (.ok value)))
    | none => (none, s.note call (.answered (.error vanished)))

/-- Everything may change but the slot. -/
def routine (σ α : Type) : Routine (Shared σ α) (Maker σ α) (Phase σ α) σ where
  start := .looking
  next _ phase s := some (next phase s)
  besides surroundings s := some (s.amid surroundings)

abbrev State (σ α : Type) := Routine.State (Shared σ α) (Phase σ α)

def start (surroundings : σ) : State σ α := { shared := { surroundings } }

end ClassRecovery.Slot
