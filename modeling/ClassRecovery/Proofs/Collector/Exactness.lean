import ClassRecovery.Proofs.Collector.Capture
import ClassRecovery.Session.Transformation

/-!
A live collector tells exactly what the instrument has, and the instrument has the same afterwards.
Between calls classes may be defined and changed, and other agents may wrap the instrument and
register what they like; earlier calls leave captured bytes of other classes behind, which no later
call gives away.
-/

namespace ClassRecovery

namespace Instrument

/-- The instrument itself, or gateways over it. -/
def Over (index : Nat) : Instrument → Prop
  | machine => False
  | given k => k = index
  | gateway _ inner => inner.Over index

/-- A gateway that no capture point has. -/
def Foreign (w : World) (gateway : Nat) : Prop :=
  ∀ (n : Nat) (p : CapturePoint) (inner : Instrument), w.points[n]? = some p →
    p.gateway ≠ some (.gateway gateway inner)

/-- All gateways on the way to the instrument are foreign. -/
def AllForeign (w : World) : Instrument → Prop
  | gateway g inner => Foreign w g ∧ inner.AllForeign w
  | _ => True

end Instrument

namespace World

/-- The instrument has other bytes for a name. -/
def defined (index : Nat) (name : String) (bytes : Bytes) (w : World) : World :=
  { w with instruments := w.instruments.modify index fun i =>
      { i with classes := i.classes.put name bytes } }

end World

namespace Collector

/-- What happens between two questions to the same collector. -/
inductive Event (index : Nat) (w : World) : World → Prop
  | newPoint : Event index w (newPoint w).2
  | call (n handle : Nat) (source : InstrumentSource) (c : ClassRef) (hn : n < w.points.size)
      (ha : Answerable index n handle source w) : Event index w (readLive n handle source c w).2
  | define (name : String) (bytes : Bytes) : Event index w (w.defined index name bytes)
  | load (i : GivenInstrument) (hi : w.instruments[index]? = some i) (name : String)
      (isNamed : Bool) (bytes : Bytes) :
      Event index w (Session.firstLoad index i name isNamed bytes w).2
  | redefine (on : Instrument) (hon : on.Over index) (c : ClassRef) (bytes : Bytes) :
      Event index w (on.redefine c bytes w).2
  | wrap (inner : Instrument) : Event index w (inner.wrap w).2
  | register (g : Nat) (inner : Instrument) (hon : (Instrument.gateway g inner).Over index)
      (hf : (Instrument.gateway g inner).AllForeign w) (r : Registration) :
      Event index w ((Instrument.gateway g inner).addTransformer r w).2

inductive Run (index : Nat) (w : World) : World → Prop
  | refl : Run index w w
  | tail {w' w'' : World} (run : Run index w w') (event : Event index w' w'') : Run index w w''

variable {index : Nat} {w w' : World}

theorem NoStray.mono (hs : NoStray index w) (hpoints : w'.points = w.points)
    (hcaches : w'.caches = w.caches)
    (hheld : ∀ name, (w.held index name).isSome → (w'.held index name).isSome) :
    NoStray index w' := by
  intro n p name hp hc
  rw [hpoints] at hp
  unfold World.cached at hc
  rw [hcaches] at hc
  exact hheld name (hs n p name hp hc)

theorem noStray_newPoint (h : Connected index w) (hs : NoStray index w) :
    NoStray index (newPoint w).2 := by
  intro n p name hp hc
  change (w.points.push { cache := w.caches.size })[n]? = some p at hp
  change ((w.caches.push {})[p.cache]?.bind (·.get? name)).isSome at hc
  rw [Array.getElem?_push] at hp hc
  split at hp
  next =>
    cases hp
    simp at hc
  next =>
    rw [if_neg (Nat.ne_of_lt (h.room n p hp))] at hc
    exact hs n p name hp hc

theorem connected_defined (h : Connected index w) (name : String) (bytes : Bytes) :
    Connected index (w.defined index name bytes) :=
  h.updateInstrument _ (fun _ hi => ⟨hi.1, hi.2, hi.3⟩) (fun _ _ hr => hr)
    (fun _ _ hr => .inl hr)

theorem noStray_defined (hs : NoStray index w) (name : String) (bytes : Bytes) :
    NoStray index (w.defined index name bytes) := by
  refine hs.mono rfl rfl ?_
  intro other ho
  unfold World.held World.defined at *
  rw [Array.getElem?_modify, if_pos rfl]
  cases hi : w.instruments[index]? with
  | none =>
    rw [hi] at ho
    cases ho
  | some i =>
    rw [hi] at ho
    simp only [Option.map_some, Option.bind_some, Table.get?_put] at ho ⊢
    split
    · rfl
    · exact ho

/-- Callbacks keep still while classes are loaded for the first time. -/
theorem firstLoad_eq {i : GivenInstrument} (h : Connected index w)
    (hi : w.instruments[index]? = some i) (name : String) (isNamed : Bool) (bytes : Bytes) :
    (Session.firstLoad index i name isNamed bytes w).2 = w.defined index name bytes := by
  have hall : ∀ t ∈ i.queue.map (·.transformer), ∃ g, w.actionOf t = some (.callback g) := by
    intro t ht
    obtain ⟨r, hr, rfl⟩ := List.mem_map.mp ht
    apply h.shared r
    simpa [Instrument.queue, hi] using hr
  unfold Session.firstLoad
  rw [Action.bind_apply, Transform.runSeries_quiet h.quiet _ hall]
  rfl

theorem redefine_cases {on : Instrument} (hon : on.Over index) (c : ClassRef) (bytes : Bytes) :
    (on.redefine c bytes w).2 = w ∨ (on.redefine c bytes w).2 = w.defined index c.name bytes := by
  induction on with
  | machine => cases hon
  | gateway g inner ih => exact ih hon
  | given k =>
    cases hon
    unfold Instrument.redefine
    rw [Attempt.get_bind]
    cases hi : w.instruments[index]? with
    | none => exact .inl rfl
    | some i =>
      cases hf : i.redefineFault with
      | none =>
        right
        simp only [hf]
        rfl
      | some e =>
        left
        simp only [hf]
        rfl

theorem addTransformer_foreign {on : Instrument} (h : Connected index w) (hon : on.Over index)
    (hf : on.AllForeign w) (r : Registration)
    (hr : on = .given index → ∃ g, w.actionOf r.transformer = some (.callback g)) :
    Connected index (on.addTransformer r w).2 ∧ (on.addTransformer r w).2.points = w.points ∧
      (on.addTransformer r w).2.caches = w.caches ∧
      ∀ name, (on.addTransformer r w).2.held index name = w.held index name := by
  induction on generalizing r with
  | machine => cases hon
  | given k =>
    cases hon
    refine ⟨h.updateInstrument _ (fun _ hi => ⟨hi.1, hi.2, hi.3⟩) ?_ ?_, rfl, rfl,
      World.held_modify fun _ => rfl⟩
    · exact fun _ _ hq => List.mem_append_left _ hq
    · intro i q hq
      rcases List.mem_append.mp hq with hq | hq
      · exact .inl hq
      · rw [List.mem_singleton] at hq
        subst hq
        exact .inr (hr rfl)
  | gateway g inner ih =>
    -- A gateway that no point has may change in any way that keeps its callback.
    have hupdate : ∀ {w₁ : World} (f : Gateway → Gateway), (∀ x, (f x).callback = x.callback) →
        Connected index w₁ → w₁.points = w.points →
        Connected index { w₁ with gateways := w₁.gateways.modify g f } := by
      intro w₁ f hcb h₁ hpoints
      refine h₁.updateGateway g f hcb ?_
      intro n p hp hpg
      rw [hpoints] at hp
      exact absurd hpg (hf.1 n p _ hp)
    cases hc : Instrument.hasCallback g w with
    | true =>
      have hrun : ((Instrument.gateway g inner).addTransformer r w).2 =
          { w with gateways := w.gateways.modify g (·.add r) } := by
        unfold Instrument.addTransformer
        rw [Action.get_bind, hc]
        rfl
      rw [hrun]
      exact ⟨hupdate (·.add r) (fun _ => rfl) h rfl, rfl, rfl, fun _ => rfl⟩
    | false =>
      rw [addTransformer_first hc]
      cases hb : Instrument.callbackOf g w with
      | none =>
        have h₁ := hupdate (fun x => { x with installed := true }) (fun _ => rfl) h rfl
        exact ⟨hupdate (·.add r) (fun _ => rfl) h₁ rfl, rfl, rfl, fun _ => rfl⟩
      | some callback =>
        obtain ⟨x, hx, rfl⟩ := Option.map_eq_some_iff.mp hb
        obtain ⟨h₁, hpoints, hcaches, hheld⟩ :=
          ih hon hf.2 ⟨x.callback, true⟩ fun _ => ⟨g, h.own g x hx⟩
        have h₂ := hupdate (fun x => { x with installed := true }) (fun _ => rfl) h₁ hpoints
        exact ⟨hupdate (·.add r) (fun _ => rfl) h₂ hpoints, hpoints, hcaches, hheld⟩

/-- What one event keeps. -/
theorem Event.keeps (e : Event index w w') (h : Connected index w) (hs : NoStray index w) :
    Connected index w' ∧ NoStray index w' := by
  cases e with
  | newPoint => exact ⟨h.newPoint, noStray_newPoint h hs⟩
  | call n handle source c hn ha =>
    obtain ⟨w₁, hw₁, ho⟩ := readLive_exact h hs (Array.getElem?_eq_getElem hn) ha c
    rw [hw₁]
    exact ⟨ho.connected, ho.noStray⟩
  | define name bytes => exact ⟨connected_defined h name bytes, noStray_defined hs name bytes⟩
  | load i hi name isNamed bytes =>
    rw [firstLoad_eq h hi]
    exact ⟨connected_defined h name bytes, noStray_defined hs name bytes⟩
  | redefine on hon c bytes =>
    rcases redefine_cases (w := w) hon c bytes with hw | hw
    · rw [hw]
      exact ⟨h, hs⟩
    · rw [hw]
      exact ⟨connected_defined h c.name bytes, noStray_defined hs c.name bytes⟩
  | wrap inner =>
    refine ⟨h.wrap inner, hs.mono ?_ ?_ ?_⟩
    · cases inner <;> rfl
    · cases inner <;> rfl
    · cases inner <;> exact fun _ hh => hh
  | register g inner hon hf r =>
    obtain ⟨h₁, hpoints, hcaches, hheld⟩ :=
      addTransformer_foreign h hon hf r (fun h => nomatch h)
    exact ⟨h₁, hs.mono hpoints hcaches fun name hh => by rw [hheld]; exact hh⟩

theorem Run.keeps (run : Run index w w') (h : Connected index w) (hs : NoStray index w) :
    Connected index w' ∧ NoStray index w' := by
  induction run with
  | refl => exact ⟨h, hs⟩
  | tail _ event ih => exact event.keeps ih.1 ih.2

theorem Run.keeps_of_unused (run : Run index w w') (h : Unused index w) :
    Connected index w' ∧ NoStray index w' := by
  refine run.keeps (.of_unused h) ?_
  intro n p name hp
  simp [h.noPoints] at hp

/-- Whatever happened since the first collector was made, a call tells what the instrument has for
the name, if anything, and changes none of what it has. -/
theorem readLive_tells_what_is_held {n handle : Nat} {source : InstrumentSource}
    (h : Unused index w) (run : Run index w w') (hn : n < w'.points.size)
    (ha : Answerable index n handle source w') (c : ClassRef) :
    ∃ w'', readLive n handle source c w' = (.ok (w'.held index c.name), w'') ∧
      ∀ name, w''.held index name = w'.held index name := by
  obtain ⟨hc, hs⟩ := run.keeps_of_unused h
  obtain ⟨w'', hw'', ho⟩ := readLive_exact hc hs (Array.getElem?_eq_getElem hn) ha c
  exact ⟨w'', hw'', ho.held⟩

/-- An instrument with two classes that always change together. Another agent changes what it is
shown, when it asks for that. -/
def occupied : World where
  files := ⟨#[], []⟩
  transformers := #[{ action := .callback 0 }, { action := .append [9] }]
  gateways := #[{ queue := [⟨1, true⟩], callback := 0, installed := true }]
  instruments := #[{
    also := ["a.C"]
    queue := [⟨0, true⟩]
    classes := ⟨[("a.B", [1]), ("a.C", [2])]⟩ }]

/-- A collector asked for the one class, then the other class changed. -/
def renewed : World :=
  (readLive 0 0 (.fixed (.given 0)) (Instrument.namedClass "a.B")
    (newPoint occupied).2).2.defined 0 "a.C" [3]

theorem unused_occupied : Unused 0 occupied := by
  refine ⟨rfl, ⟨_, rfl, ⟨rfl, rfl, rfl⟩⟩, ?_, ?_, rfl⟩
  · intro r hr
    cases hr with
    | head => exact ⟨0, rfl⟩
    | tail _ h => cases h
  · intro g x hx
    cases g with
    | zero =>
      cases hx
      rfl
    | succ g => cases hx

/-- The bytes that the first question left behind are not given away. -/
theorem readLive_tells_what_is_held_renewed :
    renewed.cached 0 "a.C" = some [2] ∧ ∃ w,
      readLive 0 0 (.fixed (.given 0)) (Instrument.namedClass "a.C") renewed = (.ok (some [3]), w) ∧
        ∀ name, w.held 0 name = renewed.held 0 name := by
  have run : Run 0 occupied renewed := by
    refine .tail (.tail (.tail .refl .newPoint) (.call 0 0 _ _ (by cbv) (.inr ?_))) (.define _ _)
    exact Handle.supplies_of_none rfl
  have hheld : renewed.held 0 "a.C" = some [3] := by cbv
  refine ⟨by cbv, ?_⟩
  rw [← hheld]
  exact readLive_tells_what_is_held unused_occupied run (by cbv) (.inl (by cbv))
    (Instrument.namedClass "a.C")

end Collector

end ClassRecovery
