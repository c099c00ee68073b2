import ClassRecovery.Text.Basic

/-!
File paths as text. A path is absolute when it starts with a slash; repeated slashes and inner dots
say nothing, while a leading dot and every double dot do.
-/

namespace ClassRecovery.Path

inductive Component
  | root
  | here
  | up
  | name (text : String)
  deriving DecidableEq, Repr

def isAbsolute (path : String) : Bool := path.toList.head? = some '/'

/-- What a piece between slashes stands for behind the front of a path. -/
def innerComponent (piece : String) : Option Component :=
  if piece = "" ∨ piece = "." then none
  else if piece = ".." then some .up
  else some (.name piece)

def components (path : String) : List Component :=
  let pieces := Text.split '/' path
  let inner := pieces.filterMap innerComponent
  if isAbsolute path then .root :: inner
  else if pieces.head? = some "." then .here :: inner
  else inner

/-- `path` seen from `directory`, unless it is absolute already. -/
def join (directory path : String) : String :=
  if isAbsolute path then path
  else if directory = "" then path
  else if directory.toList.getLast? = some '/' then directory ++ path
  else directory ++ "/" ++ path

/-- The pieces up to the last one that stands for a component. -/
def trimPieces (pieces : List String) : List String :=
  (pieces.reverse.dropWhile fun piece => (innerComponent piece).isNone).reverse

/-- The path without its last component, as it is written up to there. Neither the root nor the
empty path has one to lose. -/
def parent? (path : String) : Option String :=
  let pieces := Text.split '/' path
  let (front, body) :=
    if isAbsolute path || pieces.head? = some "." then pieces.splitAt 1 else ([], pieces)
  match trimPieces body with
  | [] => if front = ["."] then some "" else none
  | body =>
    let rest := trimPieces body.dropLast
    some (if front = [""] && rest.isEmpty then "/" else "/".intercalate (front ++ rest))

/-- The last component, if it is a name. -/
def fileName? (path : String) : Option String :=
  match (components path).getLast? with
  | some (.name text) => some text
  | _ => none

def same (p q : String) : Bool := components p = components q

end ClassRecovery.Path
