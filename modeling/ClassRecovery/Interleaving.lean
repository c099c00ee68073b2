/-!
Threads that share a state. A step is what a thread does between two moments at which another one
can come between; whoever else has access to the state can change it there too.
-/

namespace ClassRecovery

/-- What threads do that are asked something. They share a `σ`, and each is somewhere in a `φ`; a
request is a `ρ`, and an `ω` is what may happen besides. -/
structure Routine (σ ρ φ ω : Type) where
  start : ρ → φ
  /-- The next step of a thread, unless it has to wait. Nothing is left of a request that is
  answered. -/
  next : (thread : Nat) → φ → σ → Option (Option φ × σ)
  /-- What threads can rely on does not happen. -/
  besides : ω → σ → Option σ

namespace Routine

variable {σ ρ φ ω : Type}

structure State (σ φ : Type) where
  shared : σ
  /-- Where each thread is; most have nothing to do. -/
  phases : Nat → Option φ := fun _ => none

def State.put (m : State σ φ) (t : Nat) (phase : Option φ) (shared : σ) : State σ φ where
  shared := shared
  phases u := if u = t then phase else m.phases u

inductive Move (ρ ω : Type)
  | call (thread : Nat) (request : ρ)
  | go (thread : Nat)
  | besides (event : ω)

variable (p : Routine σ ρ φ ω)

def step (m : State σ φ) : Move ρ ω → Option (State σ φ)
  | .call t r =>
    match m.phases t with
    | none => some (m.put t (some (p.start r)) m.shared)
    | some _ => none
  | .go t => do
    let (phase, shared) ← p.next t (← m.phases t) m.shared
    return m.put t phase shared
  | .besides e => return { m with shared := ← p.besides e m.shared }

def run (m : State σ φ) (moves : List (Move ρ ω)) : Option (State σ φ) := moves.foldlM p.step m

end Routine

end ClassRecovery
