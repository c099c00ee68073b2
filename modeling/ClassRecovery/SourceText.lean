import ClassRecovery.Discovery

/-!
The source text of a class, by way of a decompiler that is given the class and all classes nested in
it. Nested classes without bytes are left out; the others come in the order of their names.
-/

namespace ClassRecovery

structure SourceParser where
  chain : Chain World
  discovery : Discovery.Settings
  decompile : Bytes → List (String × Bytes) → Except Error String

namespace SourceParser

def innerBytes (p : SourceParser) : List ClassRef → Attempt Error (List (String × Bytes))
  | [] => return []
  | c :: rest => do
    match ← p.chain.get (some c) with
    | some bytes => return (c.internalName, bytes) :: (← innerBytes p rest)
    | none => innerBytes p rest

/-- Nothing is decompiled unless the class itself has bytes. The nested classes are a set, which is
gone through in some `order`. -/
def parse (p : SourceParser) (order : List ClassRef → List ClassRef) (fuel : Nat) (c : ClassRef) :
    Attempt Error (Option String) := do
  match ← p.chain.get (some c) with
  | none => return none
  | some bytes =>
    let nested := order ((← Discovery.find p.discovery fuel (some c)).getD [])
    let inner ← Discovery.holding nested (p.innerBytes nested)
    ClassRef.releaseAll nested
    match p.decompile bytes (inner.mergeSort fun a b => a.1 ≤ b.1) with
    | .ok text => return some text
    | .error e => throw e

end SourceParser

end ClassRecovery
