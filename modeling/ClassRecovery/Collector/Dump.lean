import ClassRecovery.Collector.Chain
import ClassRecovery.Loader.Access
import ClassRecovery.Options

/-!
Class files that the virtual machine dumps while it runs. The collector is active only where the
machine was told to dump, by two system properties.
-/

namespace ClassRecovery.Collector

def dumpProperties : List String :=
  ["jdk.internal.lambda.dumpProxyClasses", "java.lang.invoke.MethodHandle.DUMP_CLASS_FILES"]

/-- A property is set unless it is blank or says false. -/
def isTruthy : Option String → Bool
  | none => false
  | some value =>
    let value := Text.trim value
    value ≠ "" && value.map Char.toLower ≠ "false"

def dumpPath (directory : String) (name : String) : String :=
  Path.join directory (ClassName.resourcePath name)

def readDump (directory : String) (c : ClassRef) : Attempt Error (Option Bytes) :=
  let path := dumpPath directory c.name
  mapFailure (.resourceRead path) (ClassRoot.readFile path)

def dumper (settings : CollectorOptions) (directory : String) (active : Bool) :
    Collector World where
  name := "dumper"
  priority := settings.priority
  enabled := settings.enabled && active
  collect := readDump directory

end ClassRecovery.Collector
