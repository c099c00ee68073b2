import ClassRecovery.World

/-!
Running several transformers. Whoever changes classes runs a series, each transformer on the result
of the one before; a gateway shows all its transformers the same bytes and takes the last answer.
-/

namespace ClassRecovery

inductive Verdict
  | unchanged
  | replaced (bytes : Bytes)
  | panicked
  deriving DecidableEq, Repr

def Verdict.bytesOr (bytes : Bytes) : Verdict → Bytes
  | unchanged | panicked => bytes
  | replaced new => new

abbrev Runner := Nat → ClassFileEvent → Action Verdict

namespace Transform

/-- Each transformer works on what the one before left. A panic ends the series and undoes it. -/
def runSeries (run : Runner) (event : ClassFileEvent) : List Nat → Action Verdict
  | ts => go ts none
where
  go : List Nat → Option Bytes → Action Verdict
    | [], none => return .unchanged
    | [], some bytes => return if bytes = event.bytes then .unchanged else .replaced bytes
    | t :: ts, current => do
      match ← run t { event with bytes := current.getD event.bytes } with
      | .unchanged => go ts current
      | .replaced bytes => go ts (some bytes)
      | .panicked => return .panicked

/-- All transformers see the bytes of the event; the last capable one that answers counts. -/
def runQueue (run : Runner) (event : ClassFileEvent) : List Registration → Action Verdict
  | rs => go rs none
where
  go : List Registration → Option Bytes → Action Verdict
    | [], none => return .unchanged
    | [], some bytes => return if bytes = event.bytes then .unchanged else .replaced bytes
    | r :: rs, accepted => do
      match ← run r.transformer event with
      | .unchanged => go rs accepted
      | .replaced bytes => go rs (if r.capable then some bytes else accepted)
      | .panicked => return .panicked

/-- The transformers that are asked when a class that is loaded already changes. -/
def capable (queue : List Registration) : List Nat :=
  (queue.filter (·.capable)).map (·.transformer)

end Transform

end ClassRecovery
