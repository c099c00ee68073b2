import ClassRecovery.Session.Objects
import ClassRecovery.Session.Transformation

/-!
Steps on the instrument of a virtual machine and on gateways to it.
-/

namespace ClassRecovery.Session

structure ClassFileSpec where
  key : Option String
  loader : Option String
  name : Option Jvm.MachineText
  /-- No bytes, or fewer than none, where the machine gives none. -/
  bytes : Option Bytes
  length : Option Int

/-- The bytes as far as they are said to go. -/
def ClassFileSpec.content (spec : ClassFileSpec) : Option Bytes := do
  let bytes ← spec.bytes
  match spec.length with
  | none => return bytes
  | some n => if n < 0 then none else return bytes.take n.toNat

inductive HookStep
  | install (as : Option String)
  | wrap (as instrument : String)
  | drop (instrument : String)
  | add (instrument transformer : String) (capable : Bool)
  | remove (instrument transformer : String)
  | retransform (instrument : String) (classes : List String)
  | redefine (instrument c : String) (content : Bytes)
  | modifiable (instrument c : String)
  | allLoaded (instrument : String)
  | present (spec : ClassFileSpec)
  /-- The bytes that a class of the machine has now. -/
  | bytes (key : String)

/-- Whoever had the name before is let go. -/
def keepInstrument (as : String) (i : Instrument) : Play Unit := do
  let old := (← get).instruments.get? as
  modify fun s => { s with instruments := s.instruments.put as i }
  act (old.forM Instrument.release)

def instrumentFields (s : State) (i : Instrument) : List (String × Report) :=
  [("retransform", .flag (i.supportsRetransform s.world)),
    ("redefine", .flag (i.supportsRedefine s.world)), ("same_as", instrumentName s i)]

/-- Reports an instrument, which is kept if it is given a name. -/
def foundInstrument (as : Option String) (more : State → List (String × Report)) :
    Except Error Instrument → Play Report
  | .error e => return .failure e
  | .ok i => do
    let s ← get
    as.forM fun as => keepInstrument as i
    return .success (.record (instrumentFields s i ++ more s))

/-- Whether the hook of the process sees classes through a connection. -/
def hookConnection (connection : Nat) (w : World) : Bool :=
  w.hook.any (·.connection = connection)

def showClassFile (spec : ClassFileSpec) : Action (Option Bytes) := do
  let hooked := (← get).link.machine.setup.hooked
  match spec.content with
  | some bytes =>
    if hooked then
      Hook.onClassFile Transform.run
        ⟨spec.key.map .cls, spec.loader.map .loader, spec.name.map (·.bytes), bytes⟩
    else return none
  | none => return none

def HookStep.run : HookStep → Play Report
  | install as => do
    let i ← connected
    let ours := fun (s : State) => [("runtime_is_ours", .flag (hookConnection i s.world))]
    foundInstrument as ours (← outcomeOf (Hook.install i))
  | wrap as i => do
    let gateway ← act (← named State.instruments i).wrap
    foundInstrument (some as) (fun _ => []) (.ok gateway)
  | drop i => do
    let instrument ← named State.instruments i
    modify fun s => { s with instruments := s.instruments.erase i }
    act instrument.release
    done
  | add i t capable => do
    let instrument ← named State.instruments i
    act (instrument.addTransformer ⟨← named State.transformers t, capable⟩)
    done
  | remove i t => do
    let instrument ← named State.instruments i
    return .success (.flag (← act (instrument.removeTransformer (← named State.transformers t))))
  | retransform i classes => do
    let instrument ← named State.instruments i
    attempt .unit (instrument.retransform (← namedAll State.classes classes))
  | redefine i c content => do
    let instrument ← named State.instruments i
    attempt .unit (instrument.redefine (← named State.classes c) content)
  | modifiable i c => do
    let instrument ← named State.instruments i
    attempt .flag (instrument.isModifiable (← named State.classes c))
  | allLoaded i => do
    let r ← outcomeOf (← named State.instruments i).allLoaded
    act (ClassRef.releaseAll (r.toOption.getD []))
    return .outcome (.many (describeClass (← get))) r
  | present spec => return .success (.bytes? (← act (showClassFile spec)))
  | bytes key => do
    return .success (.bytes? (Jvm.Tool.bytesOf (← get).world.link.machine key))

end ClassRecovery.Session
