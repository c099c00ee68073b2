import ClassRecovery.Instrument.Transform
import ClassRecovery.Loader.Access

/-!
A client of a virtual machine. It holds what its operations gave it until it drops that, and uses
nothing else; between its operations the machine may become another one in any way.
-/

namespace ClassRecovery

open Jvm (InputStream Link Reference)

structure Client where
  world : World
  connections : List Nat := []
  classes : List ClassRef := []
  /-- Loaders by their connection and number. -/
  loaders : List (Nat × Nat) := []
  streams : List InputStream := []
  /-- Whether the last operation failed. -/
  failed : Bool := false

namespace Client

inductive Operation
  | connect
  | install (connection : Nat)
  | bootLoader (connection : Nat)
  | systemLoader (connection : Nat)
  /-- Takes up a class object that the client has a reference to, or nothing. -/
  | meet (connection : Nat) (cls : Option Reference)
  | members (c : ClassRef)
  | loaderOf (c : ClassRef)
  | load (loader : Nat × Nat) (name : String)
  | openResource (loader : Nat × Nat) (path : String)
  | read (s : InputStream) (size : Nat)
  | allLoaded
  /-- The machine calls the hook of the process. -/
  | classFile (f : Hook.ClassFile)
  | dropConnection (connection : Nat)
  | dropClass (c : ClassRef)
  | dropLoader (loader : Nat × Nat)
  | dropStream (s : InputStream)

/-- Whether the client holds what an operation is about. -/
def holds (c : Client) : Operation → Bool
  | .connect | .allLoaded | .classFile _ => true
  | .install i | .bootLoader i | .systemLoader i | .meet i _ | .dropConnection i =>
    decide (i ∈ c.connections)
  | .members d | .loaderOf d | .dropClass d => decide (d ∈ c.classes)
  | .load l _ | .openResource l _ | .dropLoader l => decide (l ∈ c.loaders)
  | .read s _ | .dropStream s => decide (s ∈ c.streams)

def attempt {ε α : Type} (c : Client) (a : Attempt ε α) (keep : α → Client → Client) : Client :=
  match a c.world with
  | (.ok x, world) => keep x { c with world, failed := false }
  | (.error _, world) => { c with world, failed := true }

def act (c : Client) (a : Action Unit) : Client :=
  { c with world := (a c.world).2, failed := false }

def keepLoader (l : Loader) (c : Client) : Client :=
  match l with
  | .object i id => { c with loaders := (i, id) :: c.loaders }
  | _ => c

def takeLoader (c : Client) (l : Loader) : Client := (c.act l.retain).keepLoader l

/-- Does something with what the client holds. -/
def use (c : Client) : Operation → Client
  | .connect => c.attempt (liftM (World.onLink Link.connect) : Attempt Error Nat) fun i c =>
    { c with connections := i :: c.connections }
  | .install i => c.attempt (Hook.install i) fun _ c => c
  | .bootLoader i => c.takeLoader (.object i Loader.bootId)
  | .systemLoader i =>
    c.attempt (do
      let l ← World.attemptLink (Link.systemLoader i)
      l.retain
      return l) keepLoader
  | .meet i cls => c.attempt (World.attemptLink (Link.classOf i cls)) fun d c =>
    { c with classes := d :: c.classes }
  | .members d =>
    match d.origin with
    | .object index => c.attempt (World.attemptLink (Link.declaredClasses index)) fun ds c =>
      { c with classes := ds ++ c.classes }
    | _ => c
  | .loaderOf d =>
    match d.loader with
    | some l => c.takeLoader l
    | none => c
  | .load (i, id) name => c.attempt (World.attemptLink (Link.load i id name)) fun d c =>
    { c with classes := d.toList ++ c.classes }
  | .openResource (i, id) path =>
    c.attempt (do
      let name := Link.loaderName i id (← get).link
      World.attemptMachine (InputStream.open? name path)) fun s c =>
        { c with streams := s.toList ++ c.streams }
  | .read s size => c.attempt (World.attemptMachine (s.read size)) fun (_, s') c =>
    { c with streams := s' :: c.streams.erase s }
  | .allLoaded => c.attempt Hook.allLoaded fun ds c => { c with classes := ds ++ c.classes }
  | .classFile f => c.act (discard <| Hook.onClassFile Transform.run f)
  | .dropConnection i =>
    { c.act (World.onLink (Link.releaseConnection i)) with connections := c.connections.erase i }
  | .dropClass d => { c.act d.release with classes := c.classes.erase d }
  | .dropLoader (i, id) =>
    { c.act (World.onLink (Link.releaseLoader i id)) with loaders := c.loaders.erase (i, id) }
  | .dropStream s => { c.act (World.onMachine s.drop) with streams := c.streams.erase s }

/-- What is not held cannot be used. -/
def perform (c : Client) (op : Operation) : Client := if c.holds op then c.use op else c

inductive Move
  | perform (op : Operation)
  /-- The client makes a reference of its own. -/
  | own (o : Jvm.Object)
  /-- The client gives a reference back. -/
  | giveBack (r : Reference)
  /-- All about the machine changes but what is referred to. -/
  | machine (m : Jvm.Machine)
  /-- All but the machine and the connection of the hook changes. -/
  | others (w : World)

def onMachine (c : Client) (a : Jvm.Native Unit) : Client :=
  { c with world := (World.onMachine a c.world).2 }

def move (c : Client) : Move → Client
  | .perform op => c.perform op
  | .own o => c.onMachine (discard <| Jvm.Machine.newLocal o)
  | .giveBack r => c.onMachine (Jvm.Machine.deleteLocal (some r))
  | .machine m =>
    c.onMachine (modify fun old => { m with locals := old.locals, globals := old.globals })
  | .others w =>
    let sameHook := w.hook.map (·.connection) = c.world.hook.map (·.connection)
    { c with world := { w with
        link := c.world.link, hook := if sameHook then w.hook else c.world.hook } }

/-- Whoever starts holds nothing. -/
def start (files : FileSystem) : Client := { world := { files } }

def run (files : FileSystem) (moves : List Move) : Client := moves.foldl move (start files)

end Client

end ClassRecovery
