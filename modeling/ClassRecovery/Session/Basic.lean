import ClassRecovery.Collector.Standard
import ClassRecovery.SourceText
import ClassRecovery.Text.Hex

/-!
Sessions in which objects are made, named and asked one step at a time. What a step has to say is a
report.
-/

namespace ClassRecovery.Session

inductive Report
  | nothing
  | flag (b : Bool)
  | number (n : Int)
  | text (s : String)
  | bytes (b : Bytes)
  | list (reports : List Report)
  | record (fields : List (String × Report))
  | failure (e : Error)
  | fault (e : IoError)
  | success (r : Report)
  /-- A record or an outcome with more fields. -/
  | extended (r : Report) (fields : List (String × Report))

namespace Report

def outcome {α : Type} (f : α → Report) : Except Error α → Report
  | .ok a => success (f a)
  | .error e => failure e

def ioOutcome {α : Type} (f : α → Report) : Except IoError α → Report
  | .ok a => success (f a)
  | .error e => fault e

def option {α : Type} (f : α → Report) : Option α → Report
  | some a => f a
  | none => nothing

def many {α : Type} (f : α → Report) (l : List α) : Report := list (l.map f)

def unit (_ : Unit) : Report := nothing

def bytes? : Option Bytes → Report := option bytes

def count (n : Nat) : Report := number n

def texts (l : List String) : Report := many text l

def entries (l : List (String × Bytes)) : Report :=
  many (fun (name, b) => list [text name, bytes b]) l

end Report

structure NamedCollector where
  collector : Collector World
  directory : Option String := none
  counter : Option Nat := none

/-- What a chain holds: the capture point, and what it gets an instrument through. -/
structure Holding where
  point : Nat
  instrument : Option Instrument := none
  connection : Option Nat := none

structure State where
  world : World
  loaders : Table String Loader := {}
  loaderNames : Table Nat String := {}
  classes : Table String ClassRef := {}
  instruments : Table String Instrument := {}
  gateways : Table String Instrument := {}
  transformers : Table String Nat := {}
  caches : Table String Nat := {}
  handles : Table String Nat := {}
  sources : Table String InstrumentSource := {}
  surroundings : Table String Collector.Surroundings := {}
  collectors : Table String NamedCollector := {}
  chains : Table String (Chain World) := {}
  discoveries : Table String Discovery.Settings := {}
  parsers : Table String SourceParser := {}
  agents : Table String Nat := {}
  /-- The connection to the virtual machine, once a step needed one. -/
  connection : Option Nat := none
  tool : Option Nat := none
  /-- What chains hold beside their collectors. -/
  holdings : Table String Holding := {}
  /-- What agents and providers noted, the latest first. -/
  notes : List Report := []

/-- A step of a session. One that refers to a name that was not given says nothing. -/
abbrev Play (α : Type) := OptionT (StateM State) α

def act {α : Type} (a : Action α) : Play α := do
  let s ← get
  let (x, world) := a s.world
  set { s with world }
  return x

/-- An attempt, with its outcome as a value. -/
def outcomeOf {ε α : Type} (a : Attempt ε α) : Play (Except ε α) := act a.run

def attempt {α : Type} (f : α → Report) (a : Attempt Error α) : Play Report :=
  return .outcome f (← outcomeOf a)

def attemptIo {α : Type} (f : α → Report) (a : Attempt IoError α) : Play Report :=
  return .ioOutcome f (← outcomeOf a)

def done : Play Report := return .success .nothing

def named {α : Type} (table : State → Table String α) (name : String) : Play α := do
  OptionT.mk (return (table (← get)).get? name)

def namedAll {α : Type} (table : State → Table String α) (names : List String) : Play (List α) :=
  names.mapM (named table)

/-- Whoever had the name before is let go. -/
def keepLoader (as : String) (l : Loader) : Play Unit := do
  let old := (← get).loaders.get? as
  act l.retain
  modify fun s => { s with loaders := s.loaders.put as l }
  act (old.forM Loader.release)

def keepClass (as : String) (c : ClassRef) : Play Unit := do
  let old := (← get).classes.get? as
  modify fun s => { s with classes := s.classes.put as c }
  act (old.forM ClassRef.release)

def namedOption {α : Type} (table : State → Table String α) : Option String → Play (Option α)
  | some name => some <$> named table name
  | none => return none

def nameOf {α : Type} [DecidableEq α] (t : Table String α) (a : α) : Option String :=
  (((t.entries.filter fun e => e.2 = a).map (·.1)).mergeSort fun m n => m ≤ n).head?

/-- A loader of archives is reported by its name, any other by its number. -/
def loaderLabel (s : State) : Loader → Report
  | .given _ id | .object _ id => .count id
  | l => .option .text (s.loaderNames.get? l.id)

def describeClass (s : State) (c : ClassRef) : Report :=
  .record [("name", .text c.name), ("kind", .text c.kind.label),
    ("loader", .option (loaderLabel s) c.loader)]

/-- What descriptions of classes are ordered by: their texts in JSON. -/
def descriptionKey (s : State) (c : ClassRef) : String :=
  let loader := match c.loader.map (loaderLabel s) with
    | some (.number id) => toString id
    | some (.text name) => Text.jsonString name
    | _ => "null"
  c.kind.label ++ "," ++ loader ++ "," ++ Text.jsonString c.name

def describeClasses (s : State) (cs : List ClassRef) : Report :=
  let keyed := cs.map fun c => (descriptionKey s c, c)
  .many (describeClass s ·.2) (keyed.mergeSort fun a b => a.1 ≤ b.1)

end ClassRecovery.Session
