import ClassRecovery.ClassFile.Cursor

/-!
Why an operation failed. Failures at the system's interface keep their kind, so that callers can
tell an absent file from one that cannot be read.
-/

namespace ClassRecovery

inductive IoKind
  | notFound
  | permissionDenied
  | alreadyExists
  | notADirectory
  | isADirectory
  | directoryNotEmpty
  | invalidFilename
  | resourceBusy
  | connectionRefused
  | invalidInput
  | invalidData
  | unexpectedEof
  | interrupted
  | timedOut
  | outOfMemory
  | other
  deriving DecidableEq, Repr

structure IoError where
  kind : IoKind
  text : String
  deriving DecidableEq, Repr

namespace IoError

def notFound : IoError := ⟨.notFound, "No such file or directory (os error 2)"⟩
def permissionDenied : IoError := ⟨.permissionDenied, "Permission denied (os error 13)"⟩
def alreadyExists : IoError := ⟨.alreadyExists, "File exists (os error 17)"⟩
def notADirectory : IoError := ⟨.notADirectory, "Not a directory (os error 20)"⟩
def isADirectory : IoError := ⟨.isADirectory, "Is a directory (os error 21)"⟩
def busy : IoError := ⟨.resourceBusy, "Device or resource busy (os error 16)"⟩
def invalidArgument : IoError := ⟨.invalidInput, "Invalid argument (os error 22)"⟩
def nameTooLong : IoError := ⟨.invalidFilename, "File name too long (os error 36)"⟩
def directoryNotEmpty : IoError := ⟨.directoryNotEmpty, "Directory not empty (os error 39)"⟩
def connectionRefused : IoError := ⟨.connectionRefused, "Connection refused (os error 111)"⟩
def nulInPath : IoError := ⟨.invalidInput, "file name contained an unexpected NUL byte"⟩
def notUtf8 : IoError := ⟨.invalidData, "stream did not contain valid UTF-8"⟩

end IoError

/-- A status number of the tool interface of a virtual machine. -/
structure JvmtiCode where
  value : Nat
  deriving DecidableEq, Repr

namespace JvmtiCode

def none : JvmtiCode := ⟨0⟩
def notAvailable : JvmtiCode := ⟨98⟩
def mustPossessCapability : JvmtiCode := ⟨99⟩
def nullPointer : JvmtiCode := ⟨100⟩

def name? (code : JvmtiCode) : Option String :=
  match code.value with
  | 0 => some "NONE"
  | 10 => some "INVALID_THREAD"
  | 21 => some "INVALID_CLASS"
  | 60 => some "INVALID_CLASS_FORMAT"
  | 62 => some "FAILS_VERIFICATION"
  | 68 => some "UNSUPPORTED_VERSION"
  | 79 => some "UNMODIFIABLE_CLASS"
  | 98 => some "NOT_AVAILABLE"
  | 99 => some "MUST_POSSESS_CAPABILITY"
  | 100 => some "NULL_POINTER"
  | 101 => some "ABSENT_INFORMATION"
  | 102 => some "INVALID_EVENT_TYPE"
  | 112 => some "WRONG_PHASE"
  | 113 => some "INTERNAL"
  | _ => Option.none

def message (code : JvmtiCode) : String :=
  match code.name? with
  | some name => "JVMTI_ERROR_" ++ name
  | Option.none => s!"JVMTI_ERROR({code.value})"

end JvmtiCode

inductive Error
  | malformedClassData (offset : Nat) (reason : String)
  | resourceRead (resource : String) (cause : IoError)
  | artifactBuild (reason : String)
  | artifactNotFound (path : String)
  | attach (reason : String)
  /-- Arrays and primitive types nest nothing. -/
  | illegalInputClass (name : String)
  | nullInputClass
  | configuration (reason : String)
  | jvmti (code : JvmtiCode)
  | jni (reason : String)
  | io (cause : IoError)
  deriving DecidableEq, Repr

namespace Error

def message : Error → String
  | malformedClassData offset reason => s!"malformed class data at byte {offset}: {reason}"
  | resourceRead resource cause => s!"failed to read resource {resource}: {cause.text}"
  | artifactBuild reason => s!"failed to build agent artifact: {reason}"
  | artifactNotFound path => s!"agent artifact not found: {path}"
  | attach reason => s!"failed to attach agent: {reason}"
  | illegalInputClass name =>
    s!"illegal input class {name}: arrays and primitives have no nested classes"
  | nullInputClass => "input class is null"
  | configuration reason => s!"invalid configuration: {reason}"
  | jvmti code => s!"JVMTI error: {code.message}"
  | jni reason => s!"JNI error: {reason}"
  | io cause => s!"io error: {cause.text}"

/-- Bringing an agent in is optional as long as other ways to the bytes are left, so its failures
are told apart from all others. -/
def isBootstrapFailure : Error → Bool
  | artifactBuild _ | artifactNotFound _ | attach _ => true
  | _ => false

/-- What the failure of acquiring instrumentation counts as. -/
def asBootstrapFailure (e : Error) : Error :=
  if e.isBootstrapFailure then e else attach s!"instrumentation unavailable: {e.message}"

/-- The failure underneath, if one is kept. -/
def cause? : Error → Option IoError
  | resourceRead _ cause => some cause
  | io cause => some cause
  | _ => none

def ofMalformed (m : ClassFile.Malformed) : Error :=
  malformedClassData m.offset m.defect.message

theorem isBootstrapFailure_asBootstrapFailure (e : Error) :
    e.asBootstrapFailure.isBootstrapFailure := by
  unfold asBootstrapFailure
  split
  · assumption
  · rfl

end Error

end ClassRecovery
