import ClassRecovery.Attach.Command
import ClassRecovery.Instrument.Basic
import ClassRecovery.Options

/-!
An agent that is to be brought into the virtual machine: how requests are passed on, and what the
machine offers before and after.
-/

namespace ClassRecovery

/-- What a provider was asked to attach, with the contents of the jar at that time. -/
structure AttachCall where
  command : Attach.Command
  jar : Option (List (String × Bytes))
  deriving DecidableEq, Repr

/-- A provider that behaves as it is told. -/
structure GivenProvider where
  /-- Whether it deletes the file that is attached. -/
  eats : Bool := false
  fault : Option Error := none
  delivers : Option Instrument := none
  handsOver : Bool := false
  deriving DecidableEq, Repr

inductive AttachProvider
  | given (provider : GivenProvider)
  | listener
  deriving DecidableEq, Repr

/-- What a host says about itself, if it is a given one. -/
structure GivenHost where
  boot : Loader
  system : Except Error Loader
  instrument : Except Error Instrument
  deliveryFault : Option Error

inductive AgentHost
  | given (host : GivenHost)
  /-- A virtual machine, by the number of the connection to it. -/
  | machine (connection : Nat)

structure Agent where
  options : Options
  provider : AttachProvider
  host : AgentHost
  attached : Bool := false
  /-- What the agent handed over. -/
  delivered : Option Instrument := none
  /-- The latest first. -/
  calls : List AttachCall := []

end ClassRecovery
