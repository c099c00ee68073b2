import ClassRecovery.Text.Utf8

/-!
The request that makes a running virtual machine load an agent. Every part ends in a zero byte.
-/

namespace ClassRecovery.Attach

inductive Command
  | jarAgent (jar args : String)
  | nativeAgent (library args : String)
  deriving DecidableEq, Repr

namespace Command

def protocolVersion : String := "1"

/-- A jar is loaded by the machine's own instrumentation library, which takes jar and arguments as
one text; a library of the user's is named by an absolute path. -/
def loadArguments : Command → List String
  | jarAgent jar args => ["instrument", "false", if args = "" then jar else jar ++ "=" ++ args]
  | nativeAgent library args => [library, "true", args]

def parts (c : Command) : List String := protocolVersion :: "load" :: c.loadArguments

def encode (c : Command) : Bytes :=
  c.parts.flatMap fun part => Text.Utf8.encode part ++ [0]

end Command

end ClassRecovery.Attach
