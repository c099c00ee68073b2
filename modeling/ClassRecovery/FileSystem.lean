import ClassRecovery.Bytes
import ClassRecovery.Error
import ClassRecovery.Path
import ClassRecovery.Text.Utf8

/-!
A tree of files as a process without privileges sees it. Files and directories are numbered nodes
and a directory maps names to numbers, so an open file stays readable when its name goes away. Of
the mode bits only the owner's count, as the process owns all that it makes.
-/

namespace ClassRecovery

inductive FileContent
  | file (bytes : Bytes)
  | directory (entries : List (String × Nat))
  deriving DecidableEq, Repr

structure FileNode where
  content : FileContent
  mode : Nat
  deriving DecidableEq, Repr

/-- A place in the tree: node and name, preceded by those of the directories above it. -/
abbrev Place := List (String × Nat)

inductive Access
  | read
  | write
  | search
  deriving DecidableEq, Repr

def Access.bit : Access → Nat
  | read => 8
  | write => 7
  | search => 6

def FileNode.allows (n : FileNode) (a : Access) : Bool := n.mode.testBit a.bit

structure FileSystem where
  nodes : Array FileNode
  working : Place

namespace FileSystem

def rootPlace : Place := [("", 0)]

/-- A tree with a directory for temporary files, in it the working directory, named `home`, and the
directory in which the process finds itself under its number. What the process does not own it
cannot change. -/
def initial (home process : String) : FileSystem where
  nodes := #[
    ⟨.directory [("tmp", 2), ("proc", 3)], 0o555⟩,
    ⟨.directory [], 0o755⟩,
    ⟨.directory [(home, 1)], 0o777⟩,
    ⟨.directory [(process, 4)], 0o555⟩,
    ⟨.directory [("cwd", 1), ("root", 0)], 0o555⟩]
  working := [(home, 1), ("tmp", 2), ("", 0)]

def node? (fs : FileSystem) (i : Nat) : Option FileNode := fs.nodes[i]?

def isDirectoryNode (fs : FileSystem) (i : Nat) : Bool :=
  match fs.node? i with
  | some ⟨.directory _, _⟩ => true
  | _ => false

/-- The longest name a directory can hold, in bytes. -/
def nameLimit : Nat := 255

/-- The longest path that can be used, in bytes. -/
def pathLimit : Nat := 4095

def byteLength (s : String) : Nat := (Text.Utf8.encode s).length

/-- The entries of a directory that may be searched. -/
def searchable (fs : FileSystem) (place : Place) : Except IoError (List (String × Nat)) :=
  match place.head?.bind fun p => fs.node? p.2 with
  | some ⟨.directory entries, mode⟩ =>
    if (FileNode.mk (.directory entries) mode).allows .search then .ok entries
    else .error .permissionDenied
  | _ => .error .notADirectory

/-- Goes on from a place by one piece of a path. -/
def step (fs : FileSystem) (place : Place) (piece : String) : Except IoError Place := do
  let entries ← fs.searchable place
  if piece = "." then return place
  if piece = ".." then return if place.length ≤ 1 then place else place.drop 1
  if nameLimit < byteLength piece then throw .nameTooLong
  match entries.lookup piece with
  | some i => return (piece, i) :: place
  | none => throw .notFound

def walk (fs : FileSystem) : Place → List String → Except IoError Place
  | place, [] => .ok place
  | place, piece :: pieces => do walk fs (← fs.step place piece) pieces

def pieces (path : String) : List String := (Text.split '/' path).filter (· ≠ "")

def endsInSlash (path : String) : Bool := path.toList.getLast? = some '/'

def start (fs : FileSystem) (path : String) : Except IoError Place :=
  if '\x00' ∈ path.toList then .error .nulInPath
  else if path = "" then .error .notFound
  else if pathLimit < byteLength path then .error .nameTooLong
  else .ok (if Path.isAbsolute path then rootPlace else fs.working)

def place (fs : FileSystem) (path : String) : Except IoError Place := do
  let place ← fs.walk (← fs.start path) (pieces path)
  match place.head? with
  | some (_, i) =>
    if endsInSlash path && !fs.isDirectoryNode i then throw .notADirectory
    return place
  | none => throw .notFound

def find (fs : FileSystem) (path : String) : Except IoError (Nat × FileNode) := do
  match (← fs.place path).head? with
  | some (_, i) =>
    match fs.node? i with
    | some n => return (i, n)
    | none => throw .notFound
  | none => throw .notFound

def isPresent (fs : FileSystem) (path : String) : Bool := (fs.find path).isOk

def isFile (fs : FileSystem) (path : String) : Bool :=
  match fs.find path with
  | .ok (_, ⟨.file _, _⟩) => true
  | _ => false

def isDirectory (fs : FileSystem) (path : String) : Bool :=
  match fs.find path with
  | .ok (_, ⟨.directory _, _⟩) => true
  | _ => false

/-- The absolute path of what a path names, without links and dots. -/
def canonical (fs : FileSystem) (path : String) : Except IoError String := do
  return "/" ++ "/".intercalate (((← fs.place path).map (·.1)).reverse.drop 1)

/-- Opens a file for reading. Opening a directory succeeds too, but nothing can be read from it. -/
def openFile (fs : FileSystem) (path : String) : Except IoError Nat := do
  let (i, n) ← fs.find path
  if n.allows .read then return i else throw .permissionDenied

def readOpen (fs : FileSystem) (i : Nat) : Except IoError Bytes :=
  match fs.node? i with
  | some ⟨.file bytes, _⟩ => .ok bytes
  | _ => .error .isADirectory

def read (fs : FileSystem) (path : String) : Except IoError Bytes := do
  fs.readOpen (← fs.openFile path)

/-- The names in a directory, and whether each is a directory itself. A directory can tell that
without being searched. -/
def list (fs : FileSystem) (path : String) : Except IoError (List (String × Bool)) := do
  let (_, n) ← fs.find path
  match n.content with
  | .directory entries =>
    if n.allows .read then return entries.map fun (name, i) => (name, fs.isDirectoryNode i)
    else throw .permissionDenied
  | .file _ => throw .notADirectory

/-- What the end of a path is, seen from the directory before it. -/
inductive Ending
  | root
  | here
  | up
  | name (directory : Nat) (text : String)
  deriving DecidableEq, Repr

def ending (fs : FileSystem) (path : String) : Except IoError Ending := do
  let origin ← fs.start path
  let ps := pieces path
  match ps.getLast? with
  | none => return .root
  | some name =>
    let place ← fs.walk origin ps.dropLast
    let _ ← fs.searchable place
    match name, place.head? with
    | ".", _ => return .here
    | "..", _ => return .up
    | _, some (_, i) => return .name i name
    | _, none => throw .notFound

/-- What a path that is to be created or removed comes down to: the directory, the name in it, and
the node that has the name now. -/
structure Target where
  directory : Nat
  name : String
  node : Option Nat

def target (fs : FileSystem) (directory : Nat) (name : String) : Except IoError Target :=
  if nameLimit < byteLength name then .error .nameTooLong
  else match fs.node? directory with
    | some ⟨.directory entries, _⟩ => .ok ⟨directory, name, entries.lookup name⟩
    | _ => .error .notFound

def setNode (fs : FileSystem) (i : Nat) (n : FileNode) : FileSystem :=
  { fs with nodes := fs.nodes.setIfInBounds i n }

def mayChange (fs : FileSystem) (directory : Nat) : Bool :=
  match fs.node? directory with
  | some n => n.allows .write && n.allows .search
  | none => false

def changeEntries (fs : FileSystem) (directory : Nat)
    (f : List (String × Nat) → List (String × Nat)) : FileSystem :=
  match fs.node? directory with
  | some ⟨.directory entries, mode⟩ => fs.setNode directory ⟨.directory (f entries), mode⟩
  | _ => fs

def create (fs : FileSystem) (t : Target) (n : FileNode) : Except IoError FileSystem :=
  if fs.mayChange t.directory then
    let fs' := { fs with nodes := fs.nodes.push n }
    .ok (fs'.changeEntries t.directory (· ++ [(t.name, fs.nodes.size)]))
  else .error .permissionDenied

/-- Writes a file, which keeps its node if it is there already. A path that ends in a slash is that
of a directory, whatever is there. -/
def write (fs : FileSystem) (path : String) (bytes : Bytes) : Except IoError FileSystem := do
  match ← fs.ending path with
  | .name directory name =>
    if endsInSlash path then throw .isADirectory
    let t ← fs.target directory name
    match t.node.bind fun i => (fs.node? i).map fun n => (i, n) with
    | some (i, n) =>
      match n.content with
      | .directory _ => throw .isADirectory
      | .file _ =>
        if n.allows .write then return fs.setNode i ⟨.file bytes, n.mode⟩
        else throw .permissionDenied
    | none => fs.create t ⟨.file bytes, 0o644⟩
  | _ => throw .isADirectory

def makeDirectory (fs : FileSystem) (path : String) : Except IoError FileSystem := do
  match ← fs.ending path with
  | .name directory name =>
    let t ← fs.target directory name
    if t.node.isSome then throw .alreadyExists
    fs.create t ⟨.directory [], 0o755⟩
  | _ => throw .alreadyExists

/-- Makes the directories at the paths, each inside the one before. Those made before a fault
stay. -/
def makeAll (fs : FileSystem) : List String → FileSystem × Except IoError Unit
  | [] => (fs, .ok ())
  | path :: rest =>
    match fs.makeDirectory path with
    | .ok fs' => makeAll fs' rest
    | .error e => if fs.isDirectory path then makeAll fs rest else (fs, .error e)

/-- The path and the paths above it, innermost first, as far as they have names. There are no more
of them than `depth` says. -/
def ancestry : (depth : Nat) → (path : String) → List String
  | 0, _ => []
  | depth + 1, path =>
    match Path.parent? path with
    | none => []
    | some above => path :: ancestry depth above

/-- Makes a directory and whatever is missing above it. Only the innermost path that can be made or
is there already is started from, so nothing above it needs to be accessible. -/
def makeDirectories (fs : FileSystem) (path : String) : FileSystem × Except IoError Unit :=
  go (ancestry (Path.components path).length path) []
where
  go : (upwards missing : List String) → FileSystem × Except IoError Unit
    | [], missing => fs.makeAll missing
    | path :: upwards, missing =>
      match fs.makeDirectory path with
      | .ok fs' => fs'.makeAll missing
      | .error e =>
        if e = .notFound then go upwards (path :: missing)
        else if fs.isDirectory path then fs.makeAll missing
        else (fs, .error e)

def unlink (fs : FileSystem) (t : Target) : FileSystem :=
  fs.changeEntries t.directory (·.filter (·.1 ≠ t.name))

def removeFile (fs : FileSystem) (path : String) : Except IoError FileSystem := do
  match ← fs.ending path with
  | .name directory name =>
    let t ← fs.target directory name
    match t.node with
    | none => throw .notFound
    | some i =>
      if endsInSlash path && !fs.isDirectoryNode i then throw .notADirectory
      if !fs.mayChange directory then throw .permissionDenied
      if fs.isDirectoryNode i then throw .isADirectory
      return fs.unlink t
  | _ => throw .isADirectory

def removeDirectory (fs : FileSystem) (path : String) : Except IoError FileSystem := do
  match ← fs.ending path with
  | .name directory name =>
    let t ← fs.target directory name
    match t.node.bind fs.node? with
    | none => throw .notFound
    | some n =>
      if !fs.mayChange directory then throw .permissionDenied
      match n.content with
      | .file _ => throw .notADirectory
      | .directory [] => return fs.unlink t
      | .directory _ => throw .directoryNotEmpty
  | .here => throw .invalidArgument
  | .up => throw .directoryNotEmpty
  | .root => throw .busy

/-- Removes one entry of a directory after the other with `removeOne`, as far as that succeeds. -/
def removeEach (removeOne : FileSystem → String → Bool → FileSystem × Except IoError Unit)
    (directory : String) : FileSystem → List (String × Bool) → FileSystem × Except IoError Unit
  | fs, [] => (fs, .ok ())
  | fs, (name, isDirectory) :: rest =>
    match removeOne fs (Path.join directory name) isDirectory with
    | (fs, .ok ()) => removeEach removeOne directory fs rest
    | (fs, .error e) => (fs, .error e)

/-- Removes what is at the path, contents first, up to the first fault. No tree is deeper than it
has nodes. -/
def removeAll : (depth : Nat) → FileSystem → String → (isDirectory : Bool) →
    FileSystem × Except IoError Unit
  | 0, fs, _, _ => (fs, .ok ())
  | depth + 1, fs, path, isDirectory =>
    if isDirectory then
      match fs.list path with
      | .error e => (fs, .error e)
      | .ok entries =>
        match removeEach (removeAll depth) path fs entries with
        | (fs, .error e) => (fs, .error e)
        | (fs, .ok ()) =>
          match fs.removeDirectory path with
          | .ok fs => (fs, .ok ())
          | .error e => (fs, .error e)
    else
      match fs.removeFile path with
      | .ok fs => (fs, .ok ())
      | .error e => (fs, .error e)

def removeTree (fs : FileSystem) (path : String) : FileSystem :=
  (removeAll (fs.nodes.size + 1) fs path (fs.isDirectory path)).1

def setMode (fs : FileSystem) (path : String) (mode : Nat) : FileSystem :=
  match fs.find path with
  | .ok (i, n) => fs.setNode i { n with mode }
  | .error _ => fs

/-- Everything that can be seen below a node, directories with a slash at the end; `depth` bounds
how far it goes. -/
def below (fs : FileSystem) : (depth : Nat) → (above : String) → (node : Nat) → List String
  | 0, _, _ => []
  | depth + 1, above, node =>
    match fs.node? node with
    | some ⟨.directory entries, mode⟩ =>
      let n : FileNode := ⟨.directory entries, mode⟩
      if n.allows .read then
        entries.flatMap fun (name, i) =>
          let path := above ++ name
          if fs.isDirectoryNode i then
            (path ++ "/") :: if n.allows .search then below fs depth (path ++ "/") i else []
          else [path]
      else []
    | _ => []

/-- All paths below a directory, in ascending order. No path is longer than the tree has nodes. -/
def tree (fs : FileSystem) (path : String) : List String :=
  match fs.find path with
  | .ok (i, _) => (fs.below fs.nodes.size "" i).mergeSort (· ≤ ·)
  | .error _ => []

end FileSystem

end ClassRecovery
