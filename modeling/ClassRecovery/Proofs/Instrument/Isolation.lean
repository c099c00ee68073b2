import ClassRecovery.Proofs.Instrument.Retransform
import ClassRecovery.Proofs.Instrument.Without

/-!
A gateway that is not at work does not show in what others ask for. Its callback is silent, so a
series or a queue runs as if the callback were not in it; with it, whatever was registered with the
gateway drops out of every transformation that somebody else asked for.
-/

namespace ClassRecovery

/-- All but the callback of the gateway. -/
def World.others {ι : Type} (gateway : Nat) (w : World) (who : ι → Nat) (l : List ι) : List ι :=
  l.filter fun i => w.actionOf (who i) ≠ some (.callback gateway)

namespace Transform

/-- What a series and a queue have in common. They differ in what those who come later are shown,
and in whose answer counts. -/
def askEach {ι : Type} (run : Runner) (who : ι → Nat) (shown : Option Bytes → ClassFileEvent)
    (take : ι → Bytes → Option Bytes → Option Bytes) (finish : Option Bytes → Verdict) :
    List ι → Option Bytes → Action Verdict
  | [], kept => return finish kept
  | i :: rest, kept => do
    match ← run (who i) (shown kept) with
    | .unchanged => askEach run who shown take finish rest kept
    | .replaced bytes => askEach run who shown take finish rest (take i bytes kept)
    | .panicked => return .panicked

/-- An answer that leaves the bytes as they are counts as none. -/
def settle (event : ClassFileEvent) : Option Bytes → Verdict
  | none => .unchanged
  | some bytes => if bytes = event.bytes then .unchanged else .replaced bytes

variable {gateway : Nat} {w w' : World} {event : ClassFileEvent} {run : Runner}

theorem runSeries_eq (ts : List Nat) :
    runSeries run event ts = askEach run id
      (fun kept => { event with bytes := kept.getD event.bytes }) (fun _ bytes _ => some bytes)
      (settle event) ts none := by
  have hgo : ∀ kept, runSeries.go run event ts kept = askEach run id
      (fun kept => { event with bytes := kept.getD event.bytes }) (fun _ bytes _ => some bytes)
      (settle event) ts kept := by
    induction ts with
    | nil =>
      intro kept
      cases kept with
      | none => rfl
      | some bytes =>
        rw [runSeries.go, askEach, settle]
    | cons t ts ih =>
      intro kept
      rw [runSeries.go, askEach]
      congr 1
      funext v
      cases v <;> simp only [ih]
  exact hgo none

theorem runQueue_eq (queue : List Registration) :
    runQueue run event queue = askEach run (·.transformer) (fun _ => event)
      (fun r bytes kept => if r.capable then some bytes else kept) (settle event) queue none := by
  have hgo : ∀ kept, runQueue.go run event queue kept = askEach run (·.transformer)
      (fun _ => event) (fun r bytes kept => if r.capable then some bytes else kept) (settle event)
      queue kept := by
    induction queue with
    | nil =>
      intro kept
      cases kept with
      | none => rfl
      | some bytes =>
        rw [runQueue.go, askEach, settle]
    | cons r queue ih =>
      intro kept
      rw [runQueue.go, askEach]
      congr 1
      funext v
      cases v <;> simp only [ih]
  exact hgo none

theorem exists_of_mem_audience {retransforming : Bool} {queue : List Registration} {t : Nat}
    (ht : t ∈ Hook.audience retransforming queue) : ∃ r ∈ queue, r.transformer = t := by
  unfold Hook.audience capable at ht
  cases retransforming
  · simpa using ht
  · obtain ⟨r, hr, rfl⟩ := List.mem_map.mp ht
    exact ⟨r, (List.mem_filter.mp hr).1, rfl⟩

namespace Isolates

section AskEach

variable {ι : Type} {who : ι → Nat} {shown : Option Bytes → ClassFileEvent}
  {take : ι → Bytes → Option Bytes → Option Bytes} {finish : Option Bytes → Verdict}

end AskEach

variable {queue queue' : List Registration}

end Isolates

end Transform

namespace Hook

variable {gateway : Nat} {w w' : World} {run : Runner} {α : Type}

/-- Only the machine was asked something, and its classes are as they were. -/
structure Looked (w v : World) : Prop where
  same : v = { w with link := v.link }
  classes : v.link.classes = w.link.classes

theorem Looked.refl (w : World) : Looked w w := ⟨rfl, rfl⟩

theorem Looked.trans {v v' : World} (h : Looked w v) (h' : Looked v v') : Looked w v' where
  same := h'.same.trans (congrArg (fun u : World => { u with link := v'.link }) h.same)
  classes := h'.classes.trans h.classes

theorem Looked.actionOf {v : World} (h : Looked w v) : v.actionOf = w.actionOf := by
  have htransformers := congrArg World.transformers h.same
  change v.transformers = w.transformers at htransformers
  unfold World.actionOf
  rw [htransformers]

theorem Looked.inFlight {v : World} (h : Looked w v) : v.inFlight = w.inFlight := by
  have := congrArg World.inFlight h.same
  exact this

theorem objectOf_eq (c : ClassRef) (hlink : w.link = w'.link) :
    ∃ r, objectOf c w = (r, w) ∧ objectOf c w' = (r, w') := by
  unfold objectOf
  cases c.origin with
  | object index =>
    simp only [Attempt.get_bind, ← hlink]
    cases w.link.held[index]? <;> exact ⟨_, rfl, rfl⟩
  | _ => exact ⟨_, rfl, rfl⟩

theorem mapM_objectOf_eq (classes : List ClassRef) (hlink : w.link = w'.link) :
    ∃ r, classes.mapM objectOf w = (r, w) ∧ classes.mapM objectOf w' = (r, w') := by
  induction classes with
  | nil => exact ⟨.ok [], rfl, rfl⟩
  | cons c rest ih =>
    obtain ⟨r, hr, hr'⟩ := objectOf_eq c hlink
    obtain ⟨rs, hrs, hrs'⟩ := ih
    rw [List.mapM_cons, bind_apply, bind_apply, hr, hr']
    cases r with
    | error e => exact ⟨.error e, rfl, rfl⟩
    | ok o =>
      simp only [bind_apply, hrs, hrs']
      cases rs with
      | error e => exact ⟨.error e, rfl, rfl⟩
      | ok os => exact ⟨.ok (o :: os), rfl, rfl⟩

theorem retransform_eq_of_hook {hook : Hook} (classes : List ClassRef) (hw : w.hook = some hook) :
    retransform run classes w =
      (if hook.retransforms then do retransformObjects run hook.tool (← classes.mapM objectOf)
        else throw (.jvmti .mustPossessCapability) : Attempt Error Unit) w := by
  unfold retransform granted
  rw [bind_apply, Attempt.get_bind, hw]
  cases hr : hook.retransforms <;> simp only [hr, ↓reduceIte, Bool.false_eq_true] <;> rfl

theorem retransform_eq_of_none (classes : List ClassRef) (hw : w.hook = none) :
    retransform run classes w = (.error (.jvmti .mustPossessCapability), w) := by
  unfold retransform granted
  rw [bind_apply, Attempt.get_bind, hw]
  rfl

end Hook

namespace Instrument

variable {gateway : Nat} {w w' : World} {run : Runner}

/-- The gateway is not on the way to what does the work. -/
def Avoids (gateway : Nat) : Instrument → Prop
  | .gateway other inner => other ≠ gateway ∧ inner.Avoids gateway
  | _ => True

section Neighbours

/-- Two gateways over one instrument. What the first one has differs, and only then its callback is
registered. -/
def neighbours (first : List Registration) : World where
  files := ⟨#[], []⟩
  transformers := #[{ action := .callback 0 }, { action := .callback 1 },
    { action := .replace [9] }, { action := .append [3] }]
  gateways := #[{ queue := first, callback := 0, installed := !first.isEmpty },
    { queue := [⟨3, true⟩], callback := 1, installed := true }]
  instruments := #[{
    queue := (if first.isEmpty then [] else [⟨0, true⟩]) ++ [⟨1, true⟩]
    classes := ⟨[("a.T", [1, 2])]⟩ }]

end Neighbours

end Instrument

end ClassRecovery
