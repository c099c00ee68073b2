import ClassRecovery.Collector.Classpath
import ClassRecovery.Collector.Dump
import ClassRecovery.Collector.Live

/-!
The collectors that everyone starts from, and the surroundings they are made in.
-/

namespace ClassRecovery.Collector

structure Surroundings where
  options : Options
  boot : Loader
  source : InstrumentSource
  handle : Nat
  dumping : Bool

/-- The machine dumps only if all properties are set. -/
def isDumping (property : String → Option String) : Bool :=
  dumpProperties.all fun key => isTruthy (property key)

def newPoint : Action Nat := do
  let cache ← World.addCache
  modifyGet fun w => (w.points.size, { w with points := w.points.push { cache } })

namespace Surroundings

def classpath (s : Surroundings) : Collector World :=
  Collector.classpath s.options.classpath s.boot

def dumper (s : Surroundings) : Collector World :=
  Collector.dumper s.options.dumper s.options.dumpDirectory s.dumping

def live (s : Surroundings) (point : Nat) : Collector World :=
  Collector.live s.options.instrumentation point s.handle s.source

def standard (s : Surroundings) : Action (List (Collector World)) := do
  let point ← newPoint
  return [s.classpath, s.dumper, s.live point]

end Surroundings

end ClassRecovery.Collector
