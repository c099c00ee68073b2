import Mathlib
import ClassRecovery.Instrument.Transform

/-!
What the callbacks of gateways do. One whose gateway is not at work on this thread is silent. One
whose gateway is, and has the capturing transformer alone, notes the bytes it is shown and answers
like a silent one; so a series of callbacks never changes a class.
-/

namespace ClassRecovery

namespace World

/-- What a transformer does, by its number. -/
def actionOf (w : World) (transformer : Nat) : Option TransformerAction :=
  w.transformers[transformer]?.map (·.action)

/-- The bytes are kept in a cache under the name. -/
def keeping (w : World) (cache : Nat) (name : String) (bytes : Bytes) : World :=
  { w with caches := w.caches.modify cache (·.put name bytes) }

theorem keeping_keeping (w : World) (cache : Nat) (name : String) (bytes : Bytes) :
    (w.keeping cache name bytes).keeping cache name bytes = w.keeping cache name bytes := by
  unfold keeping
  simp only [modify_modify, Function.comp_def, Table.put_put]

end World

/-- The gateway alone is at work on this thread, and its only transformer captures. -/
structure Capturing (gateway cache : Nat) (w : World) : Prop where
  alone : w.inFlight = [gateway]
  queued : ∃ t, w.gateways[gateway]?.map (·.queue) = some [⟨t, true⟩] ∧
    w.actionOf t = some (.capture cache)

namespace Transform

variable {gateway cache : Nat} {w : World} {event : ClassFileEvent} {c : ClassRef}

theorem runNested_capture {depth t : Nat} (ha : w.actionOf t = some (.capture cache)) :
    runNested (depth + 1) t event w = (.unchanged, (capture cache event w).2) := by
  unfold World.actionOf at ha
  rw [Option.map_eq_some_iff] at ha
  obtain ⟨⟨_, _, _⟩, ht, rfl⟩ := ha
  unfold runNested
  rw [Action.get_bind, ht]
  rfl

theorem capture_eq_keeping (hc : event.redefined = some c) :
    (capture cache event w).2 = w.keeping cache c.name event.bytes := by
  simp only [capture, hc]
  rfl

theorem runNested_callback {depth t g : Nat} (ha : w.actionOf t = some (.callback g)) :
    runNested (depth + 1) t event w = runCallback (runNested depth) g event w := by
  unfold World.actionOf at ha
  rw [Option.map_eq_some_iff] at ha
  obtain ⟨⟨_, _, _⟩, ht, rfl⟩ := ha
  rw [runNested, Action.get_bind, ht]

/-- There is always room for a callback and for the transformer that it calls. -/
theorem exists_depthLimit (w : World) : ∃ depth, depthLimit w = depth + 2 := by
  have h : 2 ≤ (w.transformers.size + 1) * (w.gateways.size + 2) :=
    Nat.le_trans (Nat.le_add_left 2 _) (Nat.le_mul_of_pos_left _ (Nat.succ_pos _))
  exact ⟨depthLimit w - 2, by unfold depthLimit; omega⟩

theorem run_quiet {t g : Nat} (ha : w.actionOf t = some (.callback g)) (hg : g ∉ w.inFlight) :
    run t event w = (.unchanged, w) := by
  obtain ⟨depth, hd⟩ := exists_depthLimit w
  unfold run
  rw [Action.get_bind, hd, runNested_callback ha]
  unfold runCallback
  rw [Action.get_bind, if_neg hg]
  rfl

/-- Called while its gateway is at work, a callback passes on what it is shown. -/
theorem run_of_inFlight {t u : Nat} (ha : w.actionOf t = some (.callback gateway))
    (hg : gateway ∈ w.inFlight) (hq : w.gateways[gateway]?.map (·.queue) = some [⟨u, true⟩])
    (hu : w.actionOf u = some (.capture cache)) :
    run t event w = (.unchanged, (capture cache event w).2) := by
  obtain ⟨depth, hd⟩ := exists_depthLimit w
  unfold run
  rw [Action.get_bind, hd, runNested_callback ha]
  unfold runCallback
  rw [Action.get_bind, if_pos hg, hq]
  simp only [Option.getD_some, runQueue, runQueue.go]
  rw [Action.bind_apply, runNested_capture hu]
  rfl

theorem run_capturing {t : Nat} (ha : w.actionOf t = some (.callback gateway))
    (hw : Capturing gateway cache w) (hc : event.redefined = some c) :
    run t event w = (.unchanged, w.keeping cache c.name event.bytes) := by
  obtain ⟨u, hq, hu⟩ := hw.queued
  rw [run_of_inFlight ha (by simp [hw.alone]) hq hu, capture_eq_keeping hc]

/-- A callback answers nothing, and only that of the capturing gateway leaves a trace. -/
theorem run_callback {t g : Nat} (ha : w.actionOf t = some (.callback g))
    (hw : Capturing gateway cache w) (hc : event.redefined = some c) :
    run t event w =
      (.unchanged, if g = gateway then w.keeping cache c.name event.bytes else w) := by
  by_cases hg : g = gateway
  · subst hg
    rw [if_pos rfl, run_capturing ha hw hc]
  · rw [if_neg hg, run_quiet ha]
    simp [hw.alone, hg]

theorem runSeries_quiet (hquiet : w.inFlight = []) (ts : List Nat)
    (hts : ∀ t ∈ ts, ∃ g, w.actionOf t = some (.callback g)) :
    runSeries run event ts w = (.unchanged, w) := by
  unfold runSeries
  induction ts with
  | nil => rfl
  | cons t ts ih =>
    obtain ⟨g, hg⟩ := hts t List.mem_cons_self
    unfold runSeries.go
    rw [Action.bind_apply, Option.getD_none, run_quiet hg (by simp [hquiet])]
    exact ih fun t ht => hts t (List.mem_cons_of_mem _ ht)

theorem runSeries_callbacks (hw : Capturing gateway cache w) (hc : event.redefined = some c)
    (ts : List Nat) (hts : ∀ t ∈ ts, ∃ g, w.actionOf t = some (.callback g)) :
    runSeries run event ts w =
      (.unchanged, if ts.any fun t => w.actionOf t = some (.callback gateway)
        then w.keeping cache c.name event.bytes else w) := by
  unfold runSeries
  induction ts generalizing w with
  | nil => rfl
  | cons t ts ih =>
    obtain ⟨g, hg⟩ := hts t List.mem_cons_self
    have hrest : ∀ t ∈ ts, ∃ g, w.actionOf t = some (.callback g) := fun t ht =>
      hts t (List.mem_cons_of_mem _ ht)
    unfold runSeries.go
    rw [Action.bind_apply, Option.getD_none, run_callback hg hw hc]
    by_cases h : g = gateway
    · subst h
      -- Later callbacks of the same gateway see the same bytes, so they add nothing.
      rw [if_pos rfl]
      have hk : Capturing g cache (w.keeping cache c.name event.bytes) := ⟨hw.alone, hw.queued⟩
      refine (ih hk hrest).trans ?_
      simp [hg, World.keeping_keeping]
    · rw [if_neg h]
      refine (ih hw hrest).trans ?_
      simp [hg, h]

end Transform

end ClassRecovery
