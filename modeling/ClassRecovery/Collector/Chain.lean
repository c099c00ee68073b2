import ClassRecovery.Loader.Basic
import ClassRecovery.Outcome
import ClassRecovery.Text.Quoted

/-!
Collectors and the chain that asks them. Each collector is one way to the bytes of a class; the
chain asks the enabled ones by ascending priority, and in the order given where priorities agree,
until one answers.
-/

namespace ClassRecovery

structure Collector (σ : Type) where
  name : String
  priority : Int
  enabled : Bool
  /-- The number of the capture point that it works at, if it captures. -/
  point : Option Nat := none
  collect : ClassRef → ExceptT Error (StateM σ) (Option Bytes)

structure Chain (σ : Type) where
  collectors : List (Collector σ)

namespace Chain

variable {σ : Type}

def ofCollectors (cs : List (Collector σ)) : Chain σ :=
  ⟨(cs.filter (·.enabled)).mergeSort fun c d => c.priority ≤ d.priority⟩

def names (chain : Chain σ) : List String := chain.collectors.map (·.name)

/-- The capture points of its collectors. -/
def points (chain : Chain σ) : List Nat := chain.collectors.filterMap (·.point)

def describe (chain : Chain σ) : String :=
  "[" ++ ", ".intercalate (chain.names.map Text.quoted) ++ "]"

/-- A collector that could not get started is passed over, unless it is the only one. -/
def isSkipped (sole : Bool) (e : Error) : Bool := e.isBootstrapFailure && !sole

def search (sole : Bool) (c : ClassRef) :
    List (Collector σ) → ExceptT Error (StateM σ) (Option Bytes)
  | [] => pure none
  | collector :: rest => do
    match ← outcome (collector.collect c) with
    | .ok (some bytes) => pure (some bytes)
    | .ok none => search sole c rest
    | .error e => if isSkipped sole e then search sole c rest else throw e

/-- No class has no bytes. -/
def get (chain : Chain σ) (c : Option ClassRef) : ExceptT Error (StateM σ) (Option Bytes) :=
  match c with
  | none => pure none
  | some c => search (chain.collectors.length = 1) c chain.collectors

end Chain

end ClassRecovery
