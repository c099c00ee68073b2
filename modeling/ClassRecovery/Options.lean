import ClassRecovery.Error
import ClassRecovery.Path
import ClassRecovery.Text.Decimal

/-!
What the user can choose: which sources of class bytes are asked, in which order, and how an agent
is brought in. Options are written as `key=value` pairs separated by commas; a key that does not
exist and a value that cannot be read are refused, never replaced by a default.
-/

namespace ClassRecovery

structure CollectorOptions where
  enabled : Bool
  priority : Int
  deriving DecidableEq, Repr

inductive ArtifactPolicy
  | buildAttachDelete
  | reuseCached
  deriving DecidableEq, Repr

inductive ProbeStop
  | firstMiss
  | exhaust
  deriving DecidableEq, Repr

/-- How far to look for numbered classes. -/
structure ProbeOptions where
  max : Nat := 1000
  stop : ProbeStop := .firstMiss
  deriving DecidableEq, Repr

structure AgentOptions where
  directory : String := "."
  fileName : String := "agent.jar"
  cache : ArtifactPolicy := .buildAttachDelete
  agentClass : Option String := none
  library : Option String := none
  companions : List String := []
  args : String := ""
  deriving DecidableEq, Repr

structure Options where
  classpath : CollectorOptions := ⟨true, 0⟩
  dumper : CollectorOptions := ⟨true, 500⟩
  dumpDirectory : String := Path.join "." "DUMP_CLASS_FILES"
  instrumentation : CollectorOptions := ⟨true, 1000⟩
  agent : AgentOptions := {}
  toolsPath : Option String := none
  probe : ProbeOptions := {}
  deriving DecidableEq, Repr

namespace Options

inductive Fault
  | notAPair (text : String)
  | unknownKey (key : String)
  | notAFileName (value : String)
  | notAPolicy (value : String)
  | notAStop (value : String)
  | empty (key : String)
  | unreadable (key value reason : String)
  | environment (raw : Bytes)
  deriving DecidableEq, Repr

def environmentVariable : String := "JVMTI_CLASSBYTES_OPTIONS"

def Fault.message : Fault → String
  | notAPair text => s!"expected key=value, got `{text}`"
  | unknownKey key => s!"unknown option `{key}`"
  | notAFileName value => s!"agent.file must be a plain file name, got `{value}`"
  | notAPolicy value => s!"agent.cache must be `delete` or `reuse`, got `{value}`"
  | notAStop value => s!"probe.stop must be `first-miss` or `exhaust`, got `{value}`"
  | empty key => s!"{key} must not be empty"
  | unreadable key value reason => s!"{key}: cannot parse `{value}`: {reason}"
  | environment raw =>
    environmentVariable ++ ": environment variable was not valid unicode: " ++ Text.quotedBytes raw

def Fault.error (fault : Fault) : Error := .configuration fault.message

def readBool (key value : String) : Except Fault Bool :=
  if value = "true" then .ok true
  else if value = "false" then .ok false
  else .error (.unreadable key value "provided string was not `true` or `false`")

def readInt (range : Text.IntRange) (key value : String) : Except Fault Int :=
  match Text.readDecimal range value with
  | .ok n => .ok n
  | .error fault => .error (.unreadable key value fault.message)

def readPriority : String → String → Except Fault Int := readInt .signed32

def readCount (key value : String) : Except Fault Nat :=
  (readInt .unsigned32 key value).map Int.toNat

def readPolicy (value : String) : Except Fault ArtifactPolicy :=
  if value = "delete" then .ok .buildAttachDelete
  else if value = "reuse" then .ok .reuseCached
  else .error (.notAPolicy value)

def readStop (value : String) : Except Fault ProbeStop :=
  if value = "first-miss" then .ok .firstMiss
  else if value = "exhaust" then .ok .exhaust
  else .error (.notAStop value)

def readNonEmpty (key value : String) : Except Fault String :=
  if value = "" then .error (.empty key) else .ok value

def readFileName (value : String) : Except Fault String :=
  if value = "" ∨ '/' ∈ value.toList ∨ '\\' ∈ value.toList then .error (.notAFileName value)
  else .ok value

/-- The names in a list; semicolons separate them, as commas separate options. -/
def readCompanions (value : String) : List String :=
  ((Text.split ';' value).map Text.trim).filter (· ≠ "")

/-- The options after a change, and the fault that ended it early. -/
abbrev Change := Options × Except Fault Unit

/-- Goes on to a further change if nothing went wrong so far. -/
def goOn (r : Change) (next : Options → Change) : Change :=
  match r with
  | (o, .ok ()) => next o
  | (o, .error fault) => (o, .error fault)

/-- Writes what was read; where nothing could be read, nothing is written. -/
def store {α : Type} (o : Options) (read : Except Fault α) (write : α → Options) : Change :=
  match read with
  | .ok v => (write v, .ok ())
  | .error fault => (o, .error fault)

/-- Changes the option of a key. -/
def put (o : Options) (key value : String) : Change :=
  match key with
  | "classpath.enabled" => o.store (readBool key value) ({ o with classpath.enabled := · })
  | "classpath.priority" => o.store (readPriority key value) ({ o with classpath.priority := · })
  | "dumper.enabled" => o.store (readBool key value) ({ o with dumper.enabled := · })
  | "dumper.priority" => o.store (readPriority key value) ({ o with dumper.priority := · })
  | "dumper.directory" => o.store (readNonEmpty key value) ({ o with dumpDirectory := · })
  | "instrumentation.enabled" =>
    o.store (readBool key value) ({ o with instrumentation.enabled := · })
  | "instrumentation.priority" =>
    o.store (readPriority key value) ({ o with instrumentation.priority := · })
  | "agent.directory" => o.store (readNonEmpty key value) ({ o with agent.directory := · })
  | "agent.file" => o.store (readFileName value) ({ o with agent.fileName := · })
  | "agent.cache" => o.store (readPolicy value) ({ o with agent.cache := · })
  | "agent.class" =>
    o.store (readNonEmpty key value) fun name => { o with agent.agentClass := some name }
  | "agent.companions" => o.store (.ok (readCompanions value)) ({ o with agent.companions := · })
  | "agent.library" =>
    o.store (readNonEmpty key value) fun path => { o with agent.library := some path }
  | "agent.args" => o.store (.ok value) ({ o with agent.args := · })
  | "tools.path" => o.store (readNonEmpty key value) fun path => { o with toolsPath := some path }
  | "probe.max" => o.store (readCount key value) ({ o with probe.max := · })
  | "probe.stop" => o.store (readStop value) ({ o with probe.stop := · })
  | _ => (o, .error (.unknownKey key))

/-- The options with one of them changed. -/
def set (o : Options) (key value : String) : Except Fault Options :=
  match o.put key value with
  | (o', .ok ()) => .ok o'
  | (_, .error fault) => .error fault

/-- The pairs of an option text. Blank ones count for nothing. -/
def pairs (text : String) : List String :=
  ((Text.split ',' text).map Text.trim).filter (· ≠ "")

/-- Changes an option as its pair says; the key ends at the first equals sign. -/
def putPair (o : Options) (pair : String) : Change :=
  match Text.splitFirst? '=' pair with
  | none => (o, .error (.notAPair pair))
  | some (key, value) => o.put (Text.trim key) (Text.trim value)

/-- Changes one option after the other and stops at the first fault, which keeps what was changed
so far. -/
def putPairs (o : Options) : List String → Change
  | [] => (o, .ok ())
  | pair :: rest => goOn (o.putPair pair) fun o' => putPairs o' rest

def apply (o : Options) (text : String) : Change := o.putPairs (pairs text)

/-- The defaults with `text` applied to them. -/
def parse (text : String) : Except Fault Options :=
  match apply {} text with
  | (o, .ok ()) => .ok o
  | (_, .error fault) => .error fault

/-- Applies what an environment variable holds, if it is set. -/
def applyEnvironment (o : Options) (value : Option Bytes) : Change :=
  match value with
  | none => (o, .ok ())
  | some raw =>
    match Text.Utf8.decode? raw with
    | some text => o.apply text
    | none => (o, .error (.environment raw))

def ofEnvironment (value : Option Bytes) : Except Fault Options :=
  match applyEnvironment {} value with
  | (o, .ok ()) => .ok o
  | (_, .error fault) => .error fault

def artifactPath (o : Options) : String := Path.join o.agent.directory o.agent.fileName

/-- An agent is brought in only where the user names one. -/
def agentConfigured (o : Options) : Bool := o.agent.library.isSome || o.agent.agentClass.isSome

end Options

end ClassRecovery
