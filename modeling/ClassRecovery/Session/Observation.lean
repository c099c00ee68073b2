import ClassRecovery.Session.Files
import ClassRecovery.Session.Hosting
import ClassRecovery.Session.Tools

/-!
Sessions in a process with a virtual machine. Beside what a step has to say it is observed what it
called and what it left behind.
-/

namespace ClassRecovery.Session

open Jvm (Call Link)

inductive MachineStep
  /-- From here on the machine is another one to its callers. -/
  | describe (description : Jvm.Description)
  | native (step : NativeStep)
  | objects (step : ObjectStep)
  | tools (step : ToolStep)
  | hooks (step : HookStep)
  | hosting (step : HostingStep)
  | files (step : FileStep)
  | transformation (step : TransformationStep)
  | collection (step : CollectionStep)

/-- The machine under another description; what runs on it stays. -/
def redescribe (d : Jvm.Description) (m : Jvm.Machine) : Jvm.Machine :=
  let attached := if d.attached = m.description.attached then m.attached else d.attached
  { m with description := d, attached }

def MachineStep.play : MachineStep → Play Report
  | describe d => do
    Session.native (modify (redescribe d))
    done
  | native step => step.run
  | objects step => step.run
  | tools step => step.run
  | hooks step => step.run
  | hosting step => step.run
  | files step => step.run
  | transformation step => step.run
  | collection step => step.run

def MachineStep.showsReading : MachineStep → Bool
  | objects (.openResource _ _ sizes) => sizes.isSome
  | _ => false

/-- Whether a call is part of reading a stream, as far as its text tells. -/
def isReading (c : Call) : Bool :=
  let startsWith (front : String) : Bool := front.toList.isPrefixOf c.text.toList
  match c with
  | .newByteArray _ | .region .. => true
  | .findClass _ => startsWith s!"FindClass({Jvm.Checked.streamClass})"
  | .methodId .. => startsWith s!"GetMethodID({Jvm.Checked.streamClass}.read"
  | .invoke .. =>
    startsWith "stream " && Text.occurs ".read(".toList c.text.toList
  | _ => false

def sorted (texts : List String) : List String := texts.mergeSort fun a b => a ≤ b

/-- The texts of calls in order. References that are let go one right after the other have no order
of their own, so they are sorted; `run` holds those of the run that is under way. -/
def callTexts : List Call → (run : List String) → List String
  | [], run => sorted run
  | .deleteGlobal o :: rest, run => callTexts rest ((Call.deleteGlobal o).text :: run)
  | c :: rest, run => sorted run ++ c.text :: callTexts rest []

def shownCalls (showsReading : Bool) (m : Jvm.Machine) : List String :=
  callTexts (m.log.reverse.filter fun c => showsReading || !isReading c) []

def remains (m : Jvm.Machine) : List (String × Report) :=
  [("locals", .count m.locals.live.length), ("globals", .count m.globals.live.length),
    ("memory", .count m.memory)]

def attachNote (c : AttachCall) : Report :=
  .record [("attach", .text (match c.command with
    | .jarAgent .. => "java"
    | .nativeAgent .. => "native"))]

/-- Takes what was noted: first by providers, then by agents. -/
def takeNotes (s : State) : List Report × State :=
  let calls := s.world.agents.toList.flatMap fun a => a.calls.reverse
  let agents := s.world.agents.map fun a => { a with calls := [] }
  (calls.map attachNote ++ s.notes.reverse,
    { s with notes := [], world := { s.world with agents } })

def emptyLog (s : State) : State :=
  let link := s.world.link
  let machine := { link.machine with log := [] }
  { s with world := { s.world with link := { link with machine } } }

def observation (showsReading : Bool) (result : Report) (notes : List Report) (m : Jvm.Machine) :
    Report :=
  let noted := if notes.isEmpty then [] else [("noted", .list notes)]
  .record <| [("result", result), ("calls", .texts (shownCalls showsReading m)),
    ("pending", .option (fun t => .text t.className) m.pending)] ++ remains m ++ noted

def MachineStep.observe (step : MachineStep) (s : State) : Report × State :=
  let (r, s) := step.play.run (emptyLog s)
  let (notes, s) := takeNotes s
  (observation step.showsReading (r.getD .nothing) notes s.world.link.machine, s)

/-- Lets go of everything that the session holds. What the process holds stays. -/
def letGo (s : State) : Action Unit := do
  ClassRef.releaseAll (s.classes.entries.map (·.2))
  s.loaders.entries.forM fun e => e.2.release
  s.holdings.entries.forM fun e => e.2.release
  s.instruments.entries.forM fun e => e.2.release
  let agents := s.agents.entries.filterMap fun e => agentConnection e.2 s.world
  (agents ++ s.connection.toList).forM fun i => World.onLink (Link.releaseConnection i)

def ending (s : State) : Report :=
  let s := emptyLog s
  let m := (letGo s s.world).2.link.machine
  .record (("calls", .texts (shownCalls false m)) :: remains m)

def observeSteps : List MachineStep → State → List Report × Report
  | [], s => ([], ending s)
  | step :: rest, s =>
    let (r, s) := step.observe s
    let (rs, last) := observeSteps rest s
    (r :: rs, last)

/-- The state of a process in a machine before the first step. -/
def State.hosted (s : State) (d : Jvm.Description) : State :=
  { s with world := { s.world with link := { s.world.link with
      machine := { description := d, attached := d.attached } } } }

end ClassRecovery.Session
