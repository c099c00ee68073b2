import ClassRecovery.World

/-!
What a virtual machine calls in a library that holds an agent. Each entry but the last hands the
machine over; a process makes its agent once.
-/

namespace ClassRecovery.Agent

inductive Entry
  | load (options : Option Bytes)
  | attach (options : Option Bytes)
  | library
  | unload
  deriving DecidableEq, Repr

inductive Event
  /-- It starts, with its options; `existed` says whether it was made by an earlier call. -/
  | started (options : String) (existed : Bool)
  | unloaded
  deriving DecidableEq, Repr

/-- The version of the native interface that a library asks for. -/
def nativeVersion : Int := 0x00010008

def failed : Int := -1

/-- Options that are no text count as none. -/
def optionText (options : Option Bytes) : String := (options.bind Text.Utf8.decode?).getD ""

/-- The agent of the process, which is made if there is none yet; says whether there was one. -/
def make : Action Bool :=
  modifyGet fun w => (w.hasAgent, { w with hasAgent := true })

/-- Calls an entry of an agent that answers its start with `answer`. Where a second agent would have
to be made at start-up, the entry fails; a later attachment goes to the agent there is. -/
def Entry.call (answer : String → Int) (entry : Entry) : Action (Option Int × Option Event) := do
  if entry ≠ .unload then modify fun w => { w with handedOver := true }
  match entry with
  | load options =>
    let text := optionText options
    if ← make then return (some failed, none)
    return (some (answer text), some (.started text false))
  | attach options =>
    let text := optionText options
    return (some (answer text), some (.started text (← make)))
  | library => return (some nativeVersion, none)
  | unload => return (none, if (← get).hasAgent then some .unloaded else none)

end ClassRecovery.Agent
