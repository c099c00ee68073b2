import ClassRecovery.Collector.Chain
import ClassRecovery.Loader.Access
import ClassRecovery.Options

/-!
The class file that the loader of a class has for it. Classes without a loader are looked up with
the built-in one.
-/

namespace ClassRecovery.Collector

def readClasspath (boot : Loader) (c : ClassRef) : Attempt Error (Option Bytes) :=
  let resource := ClassName.resourcePath c.name
  mapFailure (.resourceRead resource) ((c.loader.getD boot).readResource resource)

def classpath (settings : CollectorOptions) (boot : Loader) : Collector World where
  name := "classpath"
  priority := settings.priority
  enabled := settings.enabled
  collect := readClasspath boot

/-- The settings of a collector that is used on its own. -/
def classpathDefault : CollectorOptions := ⟨true, 0⟩

end ClassRecovery.Collector
