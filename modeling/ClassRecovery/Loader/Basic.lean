import ClassRecovery.ClassName
import ClassRecovery.Error
import ClassRecovery.Path

/-!
Class loaders and the classes they define. A class is known by its name and by the number of its
loader, as two loaders may define classes of one name; the built-in loader has the number zero.
-/

namespace ClassRecovery

inductive ClassRoot
  | directory (path : String)
  | jar (path : String)
  deriving DecidableEq, Repr

namespace ClassRoot

/-- What stands behind the last dot of a file name; a dot in front is part of the name. -/
def extension? (path : String) : Option String := do
  let name := (← Path.fileName? path).toList
  if '.' ∈ name.drop 1 then some (.ofList (Text.afterLast (· == '.') name)) else none

/-- A path is taken for an archive by its extension alone. -/
def ofPath (path : String) : ClassRoot :=
  match (extension? path).map fun e => e.map Char.toLower with
  | some "jar" | some "zip" => .jar path
  | _ => .directory path

end ClassRoot

inductive Loader
  | archive (id : Nat) (roots : List ClassRoot)
  /-- A loader that asks its parent first. -/
  | child (id : Nat) (roots : List ClassRoot) (parent : Loader)
  | given (index id : Nat)
  /-- A loader object of a virtual machine, known to the connection `runtime`. -/
  | object (runtime id : Nat)
  deriving DecidableEq, Repr

namespace Loader

def bootId : Nat := 0

def id : Loader → Nat
  | archive id _ | child id _ _ | given _ id | object _ id => id

end Loader

/-- Where a class comes from, as far as its members are found there. -/
inductive Origin
  /-- A class that is known by its name alone, and so has no members. -/
  | named
  | archive
  /-- A class whose members are given. -/
  | given (index : Nat)
  /-- A class object that is held in a virtual machine. -/
  | object (index : Nat)
  deriving DecidableEq, Repr

structure ClassRef where
  name : String
  kind : ClassKind
  loader : Option Loader
  origin : Origin
  deriving DecidableEq, Repr

/-- What makes two references mean one class. -/
structure ClassKey where
  name : String
  loader : Nat
  deriving DecidableEq, Repr

namespace ClassRef

def loaderId (c : ClassRef) : Nat := (c.loader.map Loader.id).getD Loader.bootId

def key (c : ClassRef) : ClassKey := ⟨c.name, c.loaderId⟩

def same (c d : ClassRef) : Bool := c.key = d.key

def internalName (c : ClassRef) : String := ClassName.toInternal c.name

def describe (c : ClassRef) : String := s!"{c.name}@{c.loaderId}"

theorem same_iff {c d : ClassRef} : c.same d = true ↔ c.key = d.key := by simp [same]

end ClassRef

end ClassRecovery
