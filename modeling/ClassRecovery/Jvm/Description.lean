import ClassRecovery.Jvmti.Capabilities
import ClassRecovery.Table
import ClassRecovery.Text.ModifiedUtf8

/-!
What a virtual machine has, and where it fails. Everything that can go wrong at its interface can be
described, so what is said about all descriptions holds under every fault.
-/

namespace ClassRecovery.Jvm

/-- A text of the machine, or the bytes in which it hands one out. -/
inductive MachineText
  | text (s : String)
  | raw (bytes : Bytes)
  deriving DecidableEq, Repr

/-- Texts are handed out with a zero byte at their end, so none can stand inside. -/
def MachineText.bytes : MachineText → Bytes
  | text s => Text.ModifiedUtf8.encode s
  | raw bytes => if (0 : UInt8) ∈ bytes then [] else bytes

structure Throwable where
  className : String
  text : Option MachineText := none
  supers : List String := []
  /-- The class of the exception that asking for its text throws. -/
  textFault : Option String := none
  deriving DecidableEq, Repr

structure StreamSpec where
  content : Bytes
  /-- The most that one read gives. -/
  chunk : Option Nat := none
  /-- From here on, one read gives nothing though the end is not reached. -/
  emptyAt : Option Nat := none
  /-- From here on, every read throws. -/
  throwAt : Option Nat := none
  exception : Throwable := { className := "java/io/IOException" }
  deriving DecidableEq, Repr

structure ClassSpec where
  /-- Without a name here, the class is named as it is known; the inner `none` is no name at all. -/
  name : Option (Option MachineText) := none
  loader : Option String := none
  flags : List String := []
  /-- `none` where the machine gives no list; an element may be missing too. -/
  declared : Option (List (Option String)) := some []
  modifiable : Bool := true
  bytes : Option Bytes := none
  /-- Whether it is kept from being found by its name. -/
  hidden : Bool := false
  deriving DecidableEq, Repr

inductive PropertyAnswer
  | value (text : MachineText)
  /-- Success, but no value. -/
  | missing
  /-- A status; that of success comes without a value. -/
  | failure (code : Nat)
  deriving DecidableEq, Repr

structure Description where
  classes : List (String × ClassSpec) := []
  loaders : List (String × List (String × StreamSpec)) := []
  bootResources : List (String × StreamSpec) := []
  systemLoader : Option String := none
  throws : List (String × Throwable) := []
  missingClasses : List String := []
  missingMethods : List String := []
  silentClasses : List String := []
  silentMethods : List String := []
  /-- Functions that give nothing. -/
  nulls : List String := []
  attached : Bool := true
  attachAnswer : Int := 0
  environmentAnswer : Option Int := none
  toolAnswer : Int := 0
  olderToolAnswer : Int := 0
  potential : List Jvmti.Capability := []
  granted : Option (List Jvmti.Capability) := none
  toolErrors : List (String × Nat) := []
  missingFunctions : List String := []
  properties : List (String × PropertyAnswer) := []
  /-- The classes that are reported as loaded; all of them if nothing is said. -/
  loaded : Option (List String) := none
  deriving DecidableEq, Repr

namespace Description

/-- Classes that are not described are plain ones of the built-in loader. -/
def classOf (d : Description) (key : String) : ClassSpec := (d.classes.lookup key).getD {}

def nameOf (d : Description) (key : String) : Option MachineText :=
  match (d.classOf key).name with
  | none => some (.text key)
  | some name => name

/-- The name under which a class is found. A class that does not say a text is found as it is
known. -/
def findName (d : Description) (key : String) : String :=
  match d.nameOf key with
  | some (.text name) => name
  | _ => key

def classNamed (d : Description) (name : String) (loader : Option String) : Option String :=
  let found := d.classes.find? fun (key, c) =>
    !c.hidden && d.findName key = name && (c.loader = none || c.loader = loader)
  found.map (·.1)

def throwOf (d : Description) (function subject : String) : Option Throwable :=
  (d.throws.lookup (function ++ ":" ++ subject)).orElse fun _ => d.throws.lookup function

def resource (d : Description) (loader : Option String) (path : String) : Option StreamSpec :=
  match loader with
  | some name => ((d.loaders.lookup name).getD []).lookup path
  | none => d.bootResources.lookup path

end Description

end ClassRecovery.Jvm
