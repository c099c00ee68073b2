import ClassRecovery.Text.Basic

/-!
Class names and what they tell. The qualified form separates packages with `.`, the internal form of
class files with `/`; the `$` of nested classes stands in both, so the forms convert back and forth.
-/

namespace ClassRecovery

inductive NameForm
  | qualified
  | internal
  deriving DecidableEq, Repr

namespace ClassName

def toInternal (name : String) : String :=
  name.map fun c => if c = '.' then '/' else c

def toQualified (name : String) : String :=
  name.map fun c => if c = '/' then '.' else c

def resourcePath (name : String) : String := toInternal name ++ ".class"

def isSeparator (c : Char) : Bool := c == '.' || c == '/'

def simple (name : String) : String := .ofList (Text.afterLast isSeparator name.toList)

/-- Internal names are the starting point, so only the qualified form changes anything. -/
def render (form : NameForm) (internal : String) : String :=
  match form with
  | .qualified => toQualified internal
  | .internal => internal

end ClassName

inductive ClassKind
  | primitive
  | array
  | topLevel
  | member
  | «local»
  | anonymous
  deriving DecidableEq, Repr

namespace ClassKind

def label : ClassKind → String
  | .primitive => "Primitive"
  | .array => "Array"
  | .topLevel => "TopLevel"
  | .member => "Member"
  | .local => "Local"
  | .anonymous => "Anonymous"

def ofLabel? (s : String) : Option ClassKind :=
  [primitive, array, topLevel, member, .local, anonymous].find? (·.label = s)

def lastSegment (simple : List Char) : Option (List Char) :=
  if '$' ∈ simple then some (Text.afterLast (· == '$') simple) else none

/-- Compilers number anonymous classes and put a number before the name of a local one. -/
def ofName (name : String) : ClassKind :=
  if name.toList.head? = some '[' then .array
  else
    match lastSegment (ClassName.simple name).toList with
    | none => .topLevel
    | some [] => .topLevel
    | some segment =>
      if segment.all Char.isDigit then .anonymous
      else if segment.head?.any Char.isDigit then .local
      else .member

end ClassKind

end ClassRecovery
