import ClassRecovery.Bytes
import ClassRecovery.Capture.Cache
import ClassRecovery.Loader.Basic

/-!
The parties of class transformation. An instrument changes loaded classes by running transformers
over their bytes; several agents share one instrument by wrapping it in a gateway each.
-/

namespace ClassRecovery

/-- Something that can change loaded classes. A gateway passes everything on to what it wraps. -/
inductive Instrument
  | machine
  | given (index : Nat)
  | gateway (index : Nat) (inner : Instrument)
  deriving DecidableEq, Repr

/-- What a transformer is shown: the class that is changed again, if it is not loaded for the first
time, and the bytes it would have. -/
structure ClassFileEvent where
  loader : Option Loader
  name : Option String
  redefined : Option ClassRef
  bytes : Bytes
  deriving DecidableEq, Repr

/-- A transformer in a queue; `capable` ones are asked again when a class changes. -/
structure Registration where
  transformer : Nat
  capable : Bool
  deriving DecidableEq, Repr

inductive TransformerAction
  | nothing
  | echo
  | append (bytes : Bytes)
  | replace (bytes : Bytes)
  | panic
  /-- On its first call, asks for classes to be transformed again. -/
  | retransform (on : Instrument) (classes : List ClassRef)
  /-- On its first call, registers another transformer. -/
  | add (on : Instrument) (registration : Registration)
  /-- On its first call, takes another transformer out. -/
  | remove (on : Instrument) (transformer : Nat)
  | capture (cache : Nat)
  /-- Runs the queue of a gateway. -/
  | callback (gateway : Nat)
  deriving DecidableEq, Repr

structure Transformer where
  action : TransformerAction
  called : Bool := false
  /-- What it was shown, the latest first. -/
  seen : List ClassFileEvent := []

structure Gateway where
  queue : List Registration := []
  callback : Nat
  installed : Bool := false
  holders : Nat := 1

/-- An instrument over given classes, which behaves as it is told. -/
structure GivenInstrument where
  retransforms : Bool := true
  redefines : Bool := true
  modifiable : Except Error Bool := .ok true
  retransformFault : Option Error := none
  redefineFault : Option Error := none
  /-- Classes that change whenever any class is to change. -/
  also : List String := []
  queue : List Registration := []
  classes : Table String Bytes := {}
  count : Nat := 0

/-- The first registration of a transformer is the one that goes. -/
def removeRegistration (transformer : Nat) : List Registration → List Registration
  | [] => []
  | r :: rest =>
    if r.transformer = transformer then rest else r :: removeRegistration transformer rest

def registered (transformer : Nat) (queue : List Registration) : Bool :=
  queue.any (·.transformer = transformer)

inductive InstrumentSource
  | fixed (instrument : Instrument)
  | unavailable (reason : String)
  /-- Gives its answers one after the other and then the last one again. -/
  | answers (index : Nat)
  | agent (index : Nat)
  deriving DecidableEq, Repr

end ClassRecovery
