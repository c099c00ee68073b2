import ClassRecovery.Agent.Bootstrap

/-!
Sources of an instrument, and the handle that asks a source once for the whole process. A handle
that holds an instrument never asks again; a failure leaves it empty.
-/

namespace ClassRecovery

namespace InstrumentSource

def describe : InstrumentSource → String
  | fixed _ => "FixedInstrumentation"
  | unavailable reason => "Unavailable(" ++ Text.quoted reason ++ ")"
  | answers _ | agent _ => ""

/-- The answer that comes at the `n`-th time. The last one repeats. -/
def nthAnswer {α : Type} : List α → (n : Nat) → Option α
  | [], _ => none
  | [a], _ => some a
  | a :: _, 0 => some a
  | _ :: rest, n + 1 => nthAnswer rest n

def nextAnswer (index : Nat) : Attempt Error Instrument := do
  match (← get).answers[index]? with
  | none => throw (.attach "")
  | some a =>
    modify fun w =>
      { w with answers := w.answers.modify index fun a => { a with asked := a.asked + 1 } }
    match nthAnswer a.answers a.asked with
    | some r => MonadExcept.ofExcept r
    | none => throw (.attach "")

def acquire : InstrumentSource → Attempt Error Instrument
  | fixed i => return i
  | unavailable reason => throw (.attach reason)
  | answers index => nextAnswer index
  | agent index => Agent.acquire index

end InstrumentSource

namespace Handle

/-- The handle that all of a process share unless they bring their own. -/
def ofProcess : Nat := 0

def held (handle : Nat) (w : World) : Option Instrument := (w.handles[handle]?).join

/-- The instrument of the process. Whoever comes first gets it from a source. -/
def getOrAcquire (handle : Nat) (source : InstrumentSource) : Attempt Error Instrument := do
  match held handle (← get) with
  | some i => return i
  | none =>
    let i ← mapFailure Error.asBootstrapFailure source.acquire
    i.retain
    modify fun w => { w with handles := w.handles.modify handle fun h => some (h.getD i) }
    return ((held handle (← get)).getD i)

def gateway (handle : Nat) (source : InstrumentSource) : Attempt Error Instrument := do
  (← getOrAcquire handle source).wrap

end Handle

end ClassRecovery
