import ClassRecovery.Jvm.Native
import ClassRecovery.Loader.Basic

/-!
Connections to a virtual machine. A connection numbers the loaders it meets, each object once, and
keeps them pinned; classes are pinned one by one. What is pinned is let go when nobody holds it.
-/

namespace ClassRecovery.Jvm

structure KnownLoader where
  id : Nat
  reference : Reference
  /-- How many hold it beside the connection. -/
  holders : Nat := 0

structure Connection where
  /-- How many hold it; without holders it is released. -/
  holders : Nat := 1
  loaders : List KnownLoader := []
  nextId : Nat := Loader.bootId + 1

structure HeldClass where
  connection : Nat
  reference : Reference

structure Link where
  machine : Machine := {}
  connections : Array Connection := #[]
  held : Array HeldClass := #[]

abbrev Linked (α : Type) := ExceptT Error (StateM Link) α

namespace Link

def native {α : Type} (a : Native α) : StateM Link α :=
  fun l => let (x, machine) := a l.machine; (x, { l with machine })

def call {ε α : Type} (a : Native α) : ExceptT ε (StateM Link) α :=
  fun l => let (x, machine) := a l.machine; (.ok x, { l with machine })

def checked {ε α : Type} (a : ExceptT ε (StateM Machine) α) : ExceptT ε (StateM Link) α :=
  fun l => match a l.machine with
    | (r, machine) => (r, { l with machine })

def holding {α : Type} (r : Option Reference) (use : Linked α) : Linked α :=
  andAlways (native (Machine.deleteLocal r)) use

def updateConnection (i : Nat) (f : Connection → Connection) : StateM Link Unit :=
  modify fun l => { l with connections := l.connections.modify i f }

def connect : StateM Link Nat :=
  modifyGet fun l => (l.connections.size, { l with connections := l.connections.push {} })

def retain (i : Nat) : StateM Link Unit :=
  updateConnection i fun c => { c with holders := c.holders + 1 }

/-- Lets the loaders go that only the connection held. -/
def dropLoaders (i : Nat) : List KnownLoader → StateM Link Unit
  | [] => return
  | l :: rest => do
    if l.holders = 0 then
      native (unpin l.reference)
      updateConnection i fun c => { c with loaders := c.loaders.filter (·.id ≠ l.id) }
    dropLoaders i rest

/-- A holder less. With the last one the connection is released. -/
def releaseConnection (i : Nat) : StateM Link Unit := do
  match (← get).connections[i]? with
  | none => return
  | some c =>
    updateConnection i fun c => { c with holders := c.holders - 1 }
    if c.holders = 1 then dropLoaders i c.loaders

def isReleased (i : Nat) (l : Link) : Bool := (l.connections[i]?.map (·.holders)).getD 0 = 0

def knownLoaders (i : Nat) (l : Link) : List KnownLoader :=
  (l.connections[i]?.map (·.loaders)).getD []

/-- The loader of an object. No object stands for the built-in loader, which is not numbered here;
others are numbered when they are met for the first time. -/
def loaderFor (i : Nat) (o : Option Reference) : Linked (Option Loader) := do
  match o with
  | none => return none
  | some r =>
    match (knownLoaders i (← get)).find? fun k => k.reference.object = r.object with
    | some k => return some (.object i k.id)
    | none =>
      match ← call (pin r.object) with
      | none => throw (.jni "cannot pin class loader")
      | some reference =>
        let id := ((← get).connections[i]?.map (·.nextId)).getD 0
        updateConnection i fun c =>
          { c with loaders := c.loaders ++ [{ id, reference }], nextId := c.nextId + 1 }
        return some (.object i id)

def updateLoader (i id : Nat) (f : KnownLoader → KnownLoader) : StateM Link Unit :=
  updateConnection i fun c =>
    { c with loaders := c.loaders.map fun k => if k.id = id then f k else k }

def retainLoader (i id : Nat) : StateM Link Unit :=
  updateLoader i id fun k => { k with holders := k.holders + 1 }

def releaseLoader (i id : Nat) : StateM Link Unit := do
  updateLoader i id fun k => { k with holders := k.holders - 1 }
  let l ← get
  if isReleased i l then dropLoaders i ((knownLoaders i l).filter (·.id = id))

/-- The kinds in the order in which a class is asked about them. -/
def kindQuestions : List (String × ClassKind) :=
  [("isPrimitive", .primitive), ("isArray", .array), ("isAnonymousClass", .anonymous),
    ("isLocalClass", .local), ("isMemberClass", .member)]

/-- The first kind that the class affirms. -/
def classKind (cls : Object) : List (String × ClassKind) → Checked ClassKind
  | [] => return .topLevel
  | (question, kind) :: rest => do
    if ← Checked.callFlag cls question then return kind else classKind cls rest

def className (cls : Object) : Checked String :=
  Checked.withObject cls "getName" "()Ljava/lang/String;" fun r => do
    match ← Checked.stringText r with
    | some name => return name
    | none => Checked.jni "Class.getName returned null"

def loaderOf (i : Nat) (cls : Object) : Linked (Option Loader) := do
  checked (Checked.requireMethod Checked.classClass "getClassLoader" "()Ljava/lang/ClassLoader;")
  let r ← call (Machine.callObject cls "getClassLoader")
  holding r do
    checked (Checked.check "Class.getClassLoader")
    loaderFor i r

/-- A class of the machine as a class reference, which holds the class and the connection. -/
def classOf (i : Nat) (cls : Option Reference) : Linked ClassRef := do
  match cls with
  | none => throw .nullInputClass
  | some cls =>
    let name ← checked (className cls.object)
    let kind ← checked (classKind cls.object kindQuestions)
    let loader ← loaderOf i cls.object
    match ← call (pin cls.object) with
    | none => throw (.jni s!"cannot pin class {name}")
    | some reference =>
      retain i
      let index := (← get).held.size
      modify fun l => { l with held := l.held.push ⟨i, reference⟩ }
      return ⟨name, kind, loader, .object index⟩

def releaseClass (index : Nat) : StateM Link Unit := do
  match (← get).held[index]? with
  | none => return
  | some h =>
    native (unpin h.reference)
    releaseConnection h.connection

def releaseAll : List ClassRef → StateM Link Unit
  | [] => return
  | c :: rest => do
    match c.origin with
    | .object index => releaseClass index
    | _ => pure ()
    releaseAll rest

def classesOf (i : Nat) (array : Object) :
    List Nat → (found : List ClassRef) → Linked (List ClassRef)
  | [], found => return found.reverse
  | n :: rest, found => do
    let member ← call (Machine.element array n)
    let c ← onFailure (releaseAll found.reverse) <| holding member do
      checked (Checked.check "GetObjectArrayElement")
      classOf i member
    classesOf i array rest (c :: found)

def declaredClasses (index : Nat) : Linked (List ClassRef) := do
  match (← get).held[index]? with
  | none => return []
  | some h =>
    checked Checked.environment
    checked (Checked.requireMethod Checked.classClass "getDeclaredClasses" "()[Ljava/lang/Class;")
    let array ← call (Machine.callObject h.reference.object "getDeclaredClasses")
    holding array do
      checked (Checked.check "Class.getDeclaredClasses")
      match array with
      | some ⟨_, .classes elements⟩ =>
        classesOf h.connection (.classes elements) (List.range elements.length) []
      | _ => return []

/-- The name under which the machine knows a loader; the built-in loader has none. -/
def loaderName (i id : Nat) (l : Link) : Option String :=
  ((knownLoaders i l).find? fun k => k.id = id).bind fun k => match k.reference.object with
    | .loader name => some name
    | _ => none

def systemLoader (i : Nat) : Linked Loader := do
  checked Checked.environment
  let r ← checked <| Checked.withClass Checked.loaderClass fun cls => do
    if ← Checked.methodId true cls "getSystemClassLoader" "()Ljava/lang/ClassLoader;" then
      Machine.systemLoader
    else Checked.jni "ClassLoader.getSystemClassLoader not found"
  holding r do
    checked (Checked.check "ClassLoader.getSystemClassLoader")
    return (← loaderFor i r).getD (.object i Loader.bootId)

/-- What an exception says about the class that was asked for: some mean that it is not there. -/
def judgeMiss (name : String) (t : Object) : Checked Unit := do
  if ← Checked.throwableIs t "java/lang/ClassNotFoundException" then return
  if ← Checked.throwableIs t "java/lang/LinkageError" then return
  Checked.jni s!"Class.forName({name}): {← Checked.describeThrowable t}"

def load (i id : Nat) (name : String) : Linked (Option ClassRef) := do
  if isReleased i (← get) then throw (.jni "JVM runtime already released")
  let loader := loaderName i id (← get)
  checked Checked.environment
  let found ← checked <| Checked.withClass Checked.classClass fun cls => do
    let signature := "(Ljava/lang/String;ZLjava/lang/ClassLoader;)Ljava/lang/Class;"
    if ← Checked.methodId true cls "forName" signature then
      Checked.withString name (Machine.forName name loader)
    else Checked.jni "Class.forName not found"
  holding found do
    match ← call Checked.takeException with
    | some t =>
      holding (some t) (checked (judgeMiss name t.object))
      return none
    | none =>
      match found with
      | none => return none
      | some _ => some <$> classOf i found

end Link

end ClassRecovery.Jvm
