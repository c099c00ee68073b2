import ClassRecovery.Session.Basic

/-!
Steps about loaders and the classes they define.
-/

namespace ClassRecovery.Session

structure ClassSpec where
  name : String
  as : String
  kind : ClassKind
  loader : Option String
  declared : Except Error (List String)

inductive ClassStep
  | archiveLoader (as : String) (roots : List ClassRoot) (parent : Option String)
  | givenLoader (as : String) (id : Nat) (resources : List (String × GivenResource))
      (faults : List (String × Error))
  | defineGiven (loader : String) (classes : List String)
  | loaderLog (loader : String)
  | load (loader name : String) (as : Option String)
  | openResource (loader path : String)
  | define (spec : ClassSpec)
  | declared (c : String)
  | identity (classes : List String)
  | same (classes : List String)

def reportRoot : ClassRoot → Report
  | .directory path => .texts ["Directory", path]
  | .jar path => .texts ["Jar", path]

def identityOf (c : ClassRef) : Report :=
  .record [("name", .text c.name), ("loader", .count c.key.loader),
    ("loader_id", .count c.loaderId), ("internal", .text c.internalName), ("display", .text c.name),
    ("debug", .text c.describe), ("fake", .flag true)]

def matrix (f : ClassRef → ClassRef → Bool) (cs : List ClassRef) : Report :=
  .many (fun c => .many (fun d => .flag (f c d)) cs) cs

def neighbours (cs : List ClassRef) : List Bool :=
  (cs.zip (cs.drop 1)).map fun (c, d) => c.same d

def loaderId? : Loader → Option Nat
  | .given index _ => some index
  | _ => none

def givenIndex (name : String) : Play Nat := do
  let l ← named State.loaders name
  OptionT.mk (return loaderId? l)

def defineClass (spec : ClassSpec) : Play Report := do
  let loader ← namedOption State.loaders spec.loader
  let members ← match spec.declared with
    | .ok names => Except.ok <$> namedAll State.classes names
    | .error e => pure (.error e)
  let index := (← get).world.members.size
  act (modify fun w => { w with members := w.members.push members })
  let c : ClassRef := ⟨spec.name, spec.kind, loader, .given index⟩
  keepClass spec.as c
  return .success (describeClass (← get) c)

def ClassStep.run : ClassStep → Play Report
  | archiveLoader as roots parent => do
    let loader ← act (Loader.make roots (← namedOption State.loaders parent))
    modify fun s => { s with loaderNames := s.loaderNames.put loader.id as }
    keepLoader as loader
    return .success (.many reportRoot roots)
  | givenLoader as id resources faults => do
    let index := (← get).world.loaders.size
    let given : GivenLoader := { resources := .ofList resources, faults := .ofList faults }
    act (modify fun w => { w with loaders := w.loaders.push given })
    keepLoader as (.given index id)
    done
  | defineGiven loader names => do
    let index ← givenIndex loader
    let cs ← namedAll State.classes names
    act (World.updateLoader index fun l =>
      { l with classes := cs.foldl (fun t c => t.put c.name c) l.classes })
    done
  | loaderLog loader => do
    let index ← givenIndex loader
    return .success (.texts (((← get).world.loaders[index]?.map (·.log)).getD []).reverse)
  | load loader name as => do
    let l ← named State.loaders loader
    let r ← outcomeOf (l.load name)
    if let (.ok (some c), some as) := (r, as) then keepClass as c
    return .outcome (.option (describeClass (← get))) r
  | openResource loader path => do
    let l ← named State.loaders loader
    attemptIo .bytes? (l.readResource path)
  | define spec => defineClass spec
  | declared c => do
    let r ← outcomeOf (← named State.classes c).members
    return .outcome (describeClasses (← get)) r
  | identity names => do
    let cs ← namedAll State.classes names
    return .success <| .record [("classes", .many identityOf cs),
      ("equal", matrix ClassRef.same cs), ("key_equal", matrix (fun c d => c.key = d.key) cs),
      ("distinct", .count (cs.map ClassRef.key).eraseDups.length),
      ("distinct_keys", .count (cs.map ClassRef.key).eraseDups.length)]
  | same names => do
    return .success (.many .flag (neighbours (← namedAll State.classes names)))

end ClassRecovery.Session
