import ClassRecovery.Collector.Chain
import ClassRecovery.Instrument.Source

/-!
Bytes of loaded classes, as the virtual machine has them: the class is transformed again by a
transformer that keeps what it is shown and changes nothing. The gateway of a capture point is made
when the first class is asked for. Who captures a class holds the lock of its name.
-/

namespace ClassRecovery.Collector

/-- The gateway of a capture point. A failure leaves the point without one. -/
def pointGateway (point handle : Nat) (source : InstrumentSource) : Attempt Error Instrument := do
  match (← get).points[point]?.bind (·.gateway) with
  | some g => return g
  | none =>
    let g ← Handle.gateway handle source
    World.updatePoint point fun p => { p with gateway := some g }
    return g

def releasePoint (point : Nat) : Action Unit := do
  let gateway := (← get).points[point]?.bind (·.gateway)
  World.updatePoint point fun p => { p with gateway := none }
  gateway.forM Instrument.release

def ensureCapture (point : Nat) (gateway : Instrument) : Action Unit := do
  match (← get).points[point]? with
  | none => return
  | some p =>
    if p.installed then return
    World.updatePoint point fun p => { p with installed := true }
    let t ← World.addTransformer { action := .capture p.cache }
    gateway.addTransformer ⟨t, true⟩

def takeCaptured (point : Nat) (name : String) : Action (Option Bytes) := do
  let w ← get
  match w.points[point]? with
  | none => return none
  | some p =>
    let (taken, cache) := Capture.Cache.take ((w.caches[p.cache]?).getD {}) name
    World.updateCache p.cache fun _ => cache
    return taken

def acquireLock (point : Nat) (name : String) : Action Nat := do
  match (← get).points[point]? with
  | none => return 0
  | some p =>
    let (lock, locks) := p.locks.acquire name
    World.updatePoint point fun p => { p with locks }
    return lock

/-- Takes the lock out of the table if nobody else wants it. -/
def unlistLock (point : Nat) (name : String) (lock : Nat) : Action Unit :=
  World.updatePoint point fun p => { p with locks := p.locks.release name lock }

def dropLock (point lock : Nat) : Action Unit :=
  World.updatePoint point fun p => { p with locks := p.locks.drop lock }

def releaseLock (point : Nat) (name : String) (lock : Nat) : Action Unit := do
  unlistLock point name lock
  dropLock point lock

/-- Nothing is transformed where that is not supported or the class may not change. -/
def capture (point : Nat) (gateway : Instrument) (c : ClassRef) : Attempt Error (Option Bytes) := do
  ensureCapture point gateway
  if !gateway.supportsRetransform (← get) then return none
  if !(← gateway.isModifiable c) then return none
  gateway.retransform [c]
  takeCaptured point c.name

def readLive (point handle : Nat) (source : InstrumentSource) (c : ClassRef) :
    Attempt Error (Option Bytes) := do
  let gateway ← pointGateway point handle source
  let lock ← acquireLock point c.name
  andAlways (releaseLock point c.name lock) (capture point gateway c)

def live (settings : CollectorOptions) (point handle : Nat) (source : InstrumentSource) :
    Collector World where
  name := "instrumentation"
  priority := settings.priority
  enabled := settings.enabled
  point := some point
  collect := readLive point handle source

end ClassRecovery.Collector
