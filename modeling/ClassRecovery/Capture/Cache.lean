import ClassRecovery.Bytes
import ClassRecovery.Table

/-!
Bytes that were captured and not fetched yet, by the name they were captured under. Capturing again
replaces what is kept under the name; fetching takes it away.
-/

namespace ClassRecovery.Capture

abbrev Cache := Table String Bytes

def Cache.take (cache : Cache) (name : String) : Option Bytes × Cache :=
  (cache.get? name, cache.erase name)

end ClassRecovery.Capture
