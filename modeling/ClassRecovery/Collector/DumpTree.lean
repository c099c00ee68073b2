import ClassRecovery.FileSystem

/-!
Removing a dump directory. What may not be removed is left where it is, and so are the directories
above it; any other fault ends the removal.
-/

namespace ClassRecovery.DumpTree

def isDenied (e : IoError) : Bool := e.kind = .permissionDenied

/-- A directory that can be seen to hold something. -/
def isSeenFull (fs : FileSystem) (path : String) : Bool :=
  match fs.list path with
  | .ok entries => entries ≠ []
  | .error _ => false

def removeEntry (fs : FileSystem) (path : String) (isDirectory : Bool) :
    Except IoError FileSystem :=
  let removed := if isDirectory then fs.removeDirectory path else fs.removeFile path
  match removed with
  | .ok fs' => .ok fs'
  | .error e =>
    if isDenied e then .ok fs
    else if isDirectory && isSeenFull fs path then .ok fs
    else .error e

/-- Removes what is at the path, contents first. What was removed before a fault stays removed. No
tree is deeper than it has nodes. -/
def removeBelow : (depth : Nat) → FileSystem → String → (isDirectory : Bool) →
    FileSystem × Except IoError Unit
  | 0, fs, _, _ => (fs, .ok ())
  | depth + 1, fs, path, isDirectory =>
    let contents : FileSystem × Except IoError Unit :=
      if isDirectory then
        match fs.list path with
        | .ok entries => FileSystem.removeEach (removeBelow depth) path fs entries
        | .error e => (fs, if isDenied e then .ok () else .error e)
      else (fs, .ok ())
    match contents with
    | (fs, .error e) => (fs, .error e)
    | (fs, .ok _) =>
      match removeEntry fs path isDirectory with
      | .ok fs => (fs, .ok ())
      | .error e => (fs, .error e)

/-- A path that is not there needs no removal. -/
def remove (fs : FileSystem) (path : String) : FileSystem × Except IoError Unit :=
  if fs.isPresent path then removeBelow (fs.nodes.size + 1) fs path (fs.isDirectory path)
  else (fs, .ok ())

end ClassRecovery.DumpTree
