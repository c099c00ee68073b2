import ClassRecovery.ClassFile.References
import ClassRecovery.Collector.Chain
import ClassRecovery.Loader.Access
import ClassRecovery.Options

/-!
Finding all classes nested in a class. Members are declared, anonymous classes are numbered and so
can be tried one by one, and local classes are referred to by the class around them. Whatever is
found is searched in the same way.
-/

namespace ClassRecovery.Discovery

section Closure

variable {σ : Type} (direct : ClassRef → ExceptT Error (StateM σ) (List ClassRef))
  (release : ClassRef → StateM σ Unit)

/-- Puts the new ones among `nested` onto both lists and gives the others back. -/
def enlist (root : ClassRef) : (nested found pending : List ClassRef) →
    StateM σ (List ClassRef × List ClassRef)
  | [], found, pending => pure (found, pending)
  | c :: nested, found, pending => do
    if c.same root || found.any c.same then
      release c
      enlist root nested found pending
    else enlist root nested (c :: found) (c :: pending)

/-- Searches the pending classes, the latest first. `none` says that `fuel` classes were searched
and some were left. A fault ends the search and gives everything back. -/
def explore (root : ClassRef) : (fuel : Nat) → (found pending : List ClassRef) →
    ExceptT Error (StateM σ) (Option (List ClassRef))
  | _, found, [] => pure (some found.reverse)
  | 0, _, _ :: _ => pure none
  | fuel + 1, found, outer :: pending => do
    let nested ← onFailure (found.forM release) (direct outer)
    let (found, pending) ← enlist release root nested found pending
    explore root fuel found pending

end Closure

structure Settings where
  chain : Chain World
  probe : ProbeOptions
  boot : Option Loader := none

/-- Runs an attempt; if it fails, the classes held meanwhile are given back. -/
def holding {α : Type} (cs : List ClassRef) (a : Attempt Error α) : Attempt Error α :=
  onFailure (ClassRef.releaseAll cs) a

def probe (loader : Loader) (outer : String) (stop : ProbeStop) :
    (left n : Nat) → (found : List ClassRef) → Attempt Error (List ClassRef)
  | 0, _, found => return found.reverse
  | left + 1, n, found => do
    match ← holding found (loader.load s!"{outer}${n}") with
    | some c => probe loader outer stop left (n + 1) (c :: found)
    | none =>
      if stop = .firstMiss then return found.reverse
      else probe loader outer stop left (n + 1) found

def locals (loader : Loader) (outer : String) :
    List (Except ClassFile.Malformed String) → (found : List ClassRef) →
    Attempt Error (List ClassRef)
  | [], found => return found.reverse
  | .error m :: _, found => holding found (throw (.ofMalformed m))
  | .ok name :: rest, found => do
    if (outer ++ "$").toList.isPrefixOf name.toList then
      match ← holding found (loader.load name) with
      | some c =>
        if c.kind = .local then locals loader outer rest (c :: found)
        else
          c.release
          locals loader outer rest found
      | none => locals loader outer rest found
    else locals loader outer rest found

/-- The classes directly nested in a class. Without a loader only the members are known. -/
def direct (s : Settings) (outer : ClassRef) : Attempt Error (List ClassRef) := do
  let members ← outer.members
  match outer.loader.orElse fun _ => s.boot with
  | none => return members
  | some loader =>
    let anonymous ← holding members (probe loader outer.name s.probe.stop s.probe.max 1 [])
    let held := members ++ anonymous
    match ← holding held (s.chain.get (some outer)) with
    | none => return held
    | some bytes =>
      let references := (ClassFile.References.ofBytes .qualified bytes).toList
      return held ++ (← holding held (locals loader outer.name references []))

/-- All classes nested in a class, each once; `none` if there are more than `fuel`. -/
def find (s : Settings) (fuel : Nat) (c : Option ClassRef) :
    Attempt Error (Option (List ClassRef)) := do
  match c with
  | none => throw .nullInputClass
  | some c =>
    if c.kind = .array ∨ c.kind = .primitive then throw (.illegalInputClass c.name)
    explore (direct s) ClassRef.release c fuel [] [c]

end ClassRecovery.Discovery
