import ClassRecovery.Archive.Reader
import ClassRecovery.ClassFile.References
import ClassRecovery.World

/-!
Finding resources and members in directories and jars. Roots are asked in order and the first that
has a resource gives it. A jar is opened when it is first needed and then kept open.
-/

namespace ClassRecovery.ClassRoot

def openJar (loader index : Nat) (path : String) : Attempt IoError OpenJar := do
  match (← get).jars.get? (loader, index) with
  | some opened => return opened
  | none =>
    let node ← World.withFiles (·.openFile path)
    let bytes ← World.withFiles (·.readOpen node)
    match Archive.Directory.read bytes.toArray with
    | .error fault => throw fault.toIoError
    | .ok listing =>
      let opened : OpenJar := ⟨node, listing⟩
      modify fun w => { w with jars := w.jars.put (loader, index) opened }
      return opened

/-- Absence is no failure, as long as nothing but the file is missing. -/
def readFile (path : String) : Attempt IoError (Option Bytes) := do
  match (← get).files.read path with
  | .ok bytes => return some bytes
  | .error e => if e.kind = .notFound then return none else throw e

def readResource (loader index : Nat) (root : ClassRoot) (resource : String) :
    Attempt IoError (Option Bytes) := do
  match root with
  | .directory path => readFile (Path.join path resource)
  | .jar path =>
    let opened ← openJar loader index path
    match opened.directory.find? resource with
    | none => return none
    | some entry =>
      let data ← World.withFiles (·.readOpen opened.node)
      match Archive.readContent data.toArray entry with
      | .ok bytes => return some bytes
      | .error e => throw e

def dropSuffix? (tail : String) (s : String) : Option String :=
  (String.dropSuffix? s tail).map (·.toString)

/-- The stem of a class file directly in the package, from the name of an archive entry. -/
def stemInPackage? (package entry : String) : Option String :=
  let front := if package = "" then [] else (package ++ "/").toList
  if front.isPrefixOf entry.toList then
    let rest := String.ofList (entry.toList.drop front.length)
    if '/' ∈ rest.toList then none else dropSuffix? ".class" rest
  else none

def listPackage (loader index : Nat) (root : ClassRoot) (package : String) :
    Attempt IoError (List String) := do
  match root with
  | .directory path =>
    match (← get).files.list (if package = "" then path else Path.join path package) with
    | .ok entries => return entries.filterMap (dropSuffix? ".class" ·.1)
    | .error e => if e.kind = .notFound then return [] else throw e
  | .jar path =>
    let opened ← openJar loader index path
    return (opened.directory.entries.map (·.name)).eraseDups.filterMap (stemInPackage? package)

end ClassRecovery.ClassRoot

namespace ClassRecovery.Loader

/-- The first root that has the resource gives it; a fault on the way ends the search. -/
def readRoots (id : Nat) (resource : String) : List (ClassRoot × Nat) →
    Attempt IoError (Option Bytes)
  | [] => return none
  | (root, index) :: rest => do
    match ← root.readResource id index resource with
    | some bytes => return some bytes
    | none => readRoots id resource rest

def readOwn (id : Nat) (roots : List ClassRoot) (resource : String) :
    Attempt IoError (Option Bytes) :=
  readRoots id resource roots.zipIdx

/-- What stands behind the outer name and its `$`, if it is the plain name of a member: no further
nesting, and no number in front, which marks local and anonymous classes. -/
def memberSegment? (simple stem : String) : Option String :=
  let front := (simple ++ "$").toList
  if front.isPrefixOf stem.toList then
    let rest := stem.toList.drop front.length
    if rest = [] ∨ '$' ∈ rest ∨ rest.head?.any Char.isDigit then none else some (.ofList rest)
  else none

def splitPackage (internal : String) : String × String :=
  let cs := internal.toList
  if '/' ∈ cs then
    let simple := Text.afterLast (· == '/') cs
    (.ofList (cs.take (cs.length - simple.length - 1)), .ofList simple)
  else ("", internal)

/-- The names of the members of a class, each once, as the files beside it tell. -/
def memberNames (id : Nat) (roots : List ClassRoot) (outer : String) :
    Attempt IoError (List String) := do
  let (package, simple) := splitPackage (ClassName.toInternal outer)
  let stems ← roots.zipIdx.mapM fun (root, index) => root.listPackage id index package
  return (stems.flatten.filterMap (memberSegment? simple)).eraseDups.map fun segment =>
    outer ++ "$" ++ segment

/-- Defines the class of a name from the loader's own roots. A file that defines another class under
this name counts as absent. -/
def define (self : Loader) (roots : List ClassRoot) (name : String) :
    Attempt Error (Option ClassRef) := do
  if name.toList.head? = some '[' then return none
  let resource := ClassName.resourcePath name
  match ← mapFailure (.resourceRead resource) (readOwn self.id roots resource) with
  | none => return none
  | some bytes =>
    match ClassFile.definedName .qualified bytes with
    | .error m => throw (.ofMalformed m)
    | .ok defined =>
      if defined = name then return some ⟨name, ClassKind.ofName name, some self, .archive⟩
      else return none

end ClassRecovery.Loader
