import ClassRecovery.Proofs.Instrument.Callback

/-!
Transforming given classes again through a gateway that captures. As long as the instrument shows
classes to callbacks only, it ends up with the bytes that it had, and the cache has those of every
class that was shown.
-/

namespace ClassRecovery

namespace World

/-- The bytes that an instrument over given classes has for a name. -/
def held (w : World) (index : Nat) (name : String) : Option Bytes :=
  w.instruments[index]?.bind (·.classes.get? name)

def cached (w : World) (cache : Nat) (name : String) : Option Bytes :=
  w.caches[cache]?.bind (·.get? name)

theorem held_modify {w : World} {index k : Nat} {f : GivenInstrument → GivenInstrument}
    (hf : ∀ i, (f i).classes = i.classes) (name : String) :
    ({ w with instruments := w.instruments.modify k f } : World).held index name =
      w.held index name := by
  have h : ∀ o : Option GivenInstrument,
      o.bind (·.classes.get? name) = (o.map (·.classes)).bind (·.get? name) := by
    intro o
    cases o <;> rfl
  unfold held
  rw [h, h, map_getElem?_modify hf]

theorem cached_keeping {w : World} {cache : Nat} (hk : cache < w.caches.size)
    (name other : String) (bytes : Bytes) :
    (w.keeping cache name bytes).cached cache other =
      if other = name then some bytes else w.cached cache other := by
  simp [cached, keeping, Array.getElem?_modify, Array.getElem?_eq_getElem hk, Table.get?_put]

/-- The gateway is at work on this thread. -/
def entered (w : World) (gateway : Nat) : World := { w with inFlight := gateway :: w.inFlight }

def left (w : World) (gateway : Nat) : World := { w with inFlight := w.inFlight.erase gateway }

/-- The instrument was asked once more. -/
def asked (w : World) (index : Nat) : World :=
  { w with instruments := w.instruments.modify index fun i => { i with count := i.count + 1 } }

end World

namespace Instrument

/-- Every transformer of the instrument is the callback of a gateway. -/
def OnlyCallbacks (i : Instrument) (w : World) : Prop :=
  ∀ r ∈ i.queue w, ∃ g, w.actionOf r.transformer = some (.callback g)

/-- The instrument calls a gateway back when classes change. -/
def CallsBack (i : Instrument) (gateway : Nat) (w : World) : Prop :=
  ∃ r ∈ i.queue w, r.capable = true ∧ w.actionOf r.transformer = some (.callback gateway)

theorem OnlyCallbacks.capable {i : Instrument} {w : World} (h : i.OnlyCallbacks w) :
    ∀ t ∈ Transform.capable (i.queue w), ∃ g, w.actionOf t = some (.callback g) := by
  intro t ht
  simp only [Transform.capable, List.mem_map, List.mem_filter] at ht
  obtain ⟨r, ⟨hr, -⟩, rfl⟩ := ht
  exact h r hr

theorem CallsBack.capable {i : Instrument} {gateway : Nat} {w : World}
    (h : i.CallsBack gateway w) :
    ∃ t ∈ Transform.capable (i.queue w), w.actionOf t = some (.callback gateway) := by
  obtain ⟨r, hr, hcap, hact⟩ := h
  simp only [Transform.capable, List.mem_map, List.mem_filter]
  exact ⟨r.transformer, ⟨r, ⟨hr, hcap⟩, rfl⟩, hact⟩

end Instrument

/-- `w'` differs from `w` at most in what the cache has, which it got from the instrument, and in
how often the instrument was asked. -/
structure Observed (index cache : Nat) (w w' : World) : Prop where
  transformers : w'.transformers = w.transformers
  gateways : w'.gateways = w.gateways
  inFlight : w'.inFlight = w.inFlight
  points : w'.points = w.points
  instrument : ∀ i, w.instruments[index]? = some i →
    ∃ classes count, w'.instruments[index]? = some { i with classes, count }
  held : ∀ name, w'.held index name = w.held index name
  room : w'.caches.size = w.caches.size
  others : ∀ k, k ≠ cache → w'.caches[k]? = w.caches[k]?
  cached : ∀ name, w'.cached cache name = w.cached cache name ∨
    (w.held index name).isSome ∧ w'.cached cache name = w.held index name

namespace Observed

variable {index cache gateway : Nat} {w w' w'' : World}

theorem refl (index cache : Nat) (w : World) : Observed index cache w w :=
  ⟨rfl, rfl, rfl, rfl, fun i hi => ⟨i.classes, i.count, hi⟩, fun _ => rfl, rfl, fun _ _ => rfl,
    fun _ => .inl rfl⟩

theorem trans (h : Observed index cache w w') (h' : Observed index cache w' w'') :
    Observed index cache w w'' where
  transformers := h'.transformers.trans h.transformers
  gateways := h'.gateways.trans h.gateways
  inFlight := h'.inFlight.trans h.inFlight
  points := h'.points.trans h.points
  instrument := by
    intro i hi
    obtain ⟨_, _, hi'⟩ := h.instrument i hi
    obtain ⟨classes, count, hi''⟩ := h'.instrument _ hi'
    exact ⟨classes, count, hi''⟩
  held name := (h'.held name).trans (h.held name)
  room := h'.room.trans h.room
  others k hk := (h'.others k hk).trans (h.others k hk)
  cached := by
    intro name
    rcases h'.cached name with hc | ⟨hs, hc⟩
    · rw [hc]
      exact h.cached name
    · rw [h.held] at hs hc
      exact .inr ⟨hs, hc⟩

theorem actionOf (h : Observed index cache w w') (t : Nat) : w'.actionOf t = w.actionOf t := by
  unfold World.actionOf
  rw [h.transformers]

theorem capturing (h : Observed index cache w w') (hw : Capturing gateway cache w) :
    Capturing gateway cache w' := by
  obtain ⟨t, hq, ht⟩ := hw.queued
  exact ⟨h.inFlight.trans hw.alone, t, by rw [h.gateways, hq], by rw [h.actionOf, ht]⟩

theorem queue {i : GivenInstrument} (h : Observed index cache w w')
    (hi : w.instruments[index]? = some i) :
    (Instrument.given index).queue w' = (Instrument.given index).queue w := by
  obtain ⟨_, _, hi'⟩ := h.instrument i hi
  simp [Instrument.queue, hi, hi']

theorem onlyCallbacks {i : GivenInstrument} (h : Observed index cache w w')
    (hi : w.instruments[index]? = some i) (ho : (Instrument.given index).OnlyCallbacks w) :
    (Instrument.given index).OnlyCallbacks w' := by
  intro r hr
  rw [h.queue hi] at hr
  rw [h.actionOf]
  exact ho r hr

theorem callsBack {i : GivenInstrument} (h : Observed index cache w w')
    (hi : w.instruments[index]? = some i) (hg : (Instrument.given index).CallsBack gateway w) :
    (Instrument.given index).CallsBack gateway w' := by
  obtain ⟨r, hr, hcap, hact⟩ := hg
  rw [← h.queue hi] at hr
  rw [← h.actionOf] at hact
  exact ⟨r, hr, hcap, hact⟩

/-- What was captured once stays, for the bytes of the class stay. -/
theorem cached_eq {name : String} {bytes : Bytes} (h : Observed index cache w w')
    (hh : w.held index name = some bytes) (hc : w.cached cache name = some bytes) :
    w'.cached cache name = some bytes := by
  rcases h.cached name with hk | ⟨-, hk⟩
  · rw [hk, hc]
  · rw [hk, hh]

end Observed

namespace Instrument

variable {index cache gateway : Nat} {w : World} {i : GivenInstrument}

/-- The class is shown to the callbacks and kept as it is. -/
def shown (index cache : Nat) (c : ClassRef) (bytes : Bytes) (w : World) : World :=
  { w.keeping cache c.name bytes with
    instruments := w.instruments.modify index fun i =>
      { i with classes := i.classes.put c.name bytes } }

theorem observed_shown {c : ClassRef} {bytes : Bytes} (hi : w.instruments[index]? = some i)
    (hc : i.classes.get? c.name = some bytes) (hk : cache < w.caches.size) :
    Observed index cache w (shown index cache c bytes w) := by
  have hi' : (shown index cache c bytes w).instruments[index]? =
      some { i with classes := i.classes.put c.name bytes } := by
    simp [shown, Array.getElem?_modify, hi]
  refine ⟨rfl, rfl, rfl, rfl, ?_, ?_, by simp [shown, World.keeping], ?_, ?_⟩
  · intro j hj
    rw [hi] at hj
    cases hj
    exact ⟨_, _, hi'⟩
  · intro name
    simp only [World.held, hi, hi', Option.bind_some, Table.get?_put]
    split
    next h => rw [h, hc]
    next => rfl
  · intro k hne
    simp [shown, World.keeping, Array.getElem?_modify, Ne.symm hne]
  · intro name
    simp only [World.held, World.cached, shown, World.keeping, hi, Option.bind_some,
      Array.getElem?_modify, Array.getElem?_eq_getElem hk, Option.map_some, Table.get?_put,
      ↓reduceIte]
    split
    next h => simp [h, hc]
    next => exact .inl rfl

theorem changeGiven_eq_shown {c : ClassRef} {bytes : Bytes} (hw : Capturing gateway cache w)
    (ho : (given index).OnlyCallbacks w) (hg : (given index).CallsBack gateway w)
    (hi : w.instruments[index]? = some i) (hc : i.classes.get? c.name = some bytes) :
    changeGiven Transform.run index c w = ((), shown index cache c bytes w) := by
  have hq : (given index).queue w = i.queue := by simp [queue, hi]
  have hall := ho.capable
  obtain ⟨t, ht, hact⟩ := hg.capable
  rw [hq] at hall ht
  have hany : (Transform.capable i.queue).any
      (fun t => w.actionOf t = some (.callback gateway)) = true :=
    List.any_eq_true.mpr ⟨t, ht, by simp [hact]⟩
  unfold changeGiven
  rw [Action.get_bind, hi]
  simp only [hc]
  rw [Action.bind_apply, Transform.runSeries_callbacks hw rfl _ hall, if_pos hany]
  rfl

theorem changeGiven_observed (c : ClassRef) (hw : Capturing gateway cache w)
    (ho : (given index).OnlyCallbacks w) (hg : (given index).CallsBack gateway w)
    (hi : w.instruments[index]? = some i) (hk : cache < w.caches.size) :
    ∃ w', changeGiven Transform.run index c w = ((), w') ∧ Observed index cache w w' ∧
      ∀ bytes, w.held index c.name = some bytes → w'.cached cache c.name = some bytes := by
  cases hc : i.classes.get? c.name with
  | none =>
    refine ⟨w, ?_, .refl index cache w, ?_⟩
    · unfold changeGiven
      rw [Action.get_bind, hi]
      simp only [hc]
      rfl
    · intro bytes hb
      simp [World.held, hi, hc] at hb
  | some bytes =>
    refine ⟨_, changeGiven_eq_shown hw ho hg hi hc, observed_shown hi hc hk, ?_⟩
    intro b hb
    simp only [World.held, hi, Option.bind_some, hc, Option.some.injEq] at hb
    subst hb
    simp [World.cached, shown, World.keeping, Array.getElem?_modify, Array.getElem?_eq_getElem hk,
      Table.get?_put]

def changeAll (index : Nat) (classes : List ClassRef) : Attempt Error Unit :=
  classes.forM fun c => changeGiven Transform.run index c

theorem changeAll_observed (classes : List ClassRef) (hw : Capturing gateway cache w)
    (ho : (given index).OnlyCallbacks w) (hg : (given index).CallsBack gateway w)
    (hi : w.instruments[index]? = some i) (hk : cache < w.caches.size) :
    ∃ w', changeAll index classes w = (.ok (), w') ∧ Observed index cache w w' ∧
      ∀ c ∈ classes, ∀ bytes, w.held index c.name = some bytes →
        w'.cached cache c.name = some bytes := by
  induction classes generalizing w i with
  | nil => exact ⟨w, rfl, .refl index cache w, fun _ h => nomatch h⟩
  | cons c classes ih =>
    obtain ⟨w₁, h₁, hob₁, hc₁⟩ := changeGiven_observed c hw ho hg hi hk
    obtain ⟨_, _, hi₁⟩ := hob₁.instrument i hi
    obtain ⟨w₂, h₂, hob₂, hc₂⟩ := ih (hob₁.capturing hw) (hob₁.onlyCallbacks hi ho)
      (hob₁.callsBack hi hg) hi₁ (by rw [hob₁.room]; exact hk)
    refine ⟨w₂, ?_, hob₁.trans hob₂, ?_⟩
    · unfold changeAll List.forM
      rw [Attempt.lift_bind, h₁]
      exact h₂
    · intro d hd bytes hb
      have hb₁ : w₁.held index d.name = some bytes := by rw [hob₁.held, hb]
      rcases List.mem_cons.mp hd with rfl | hd
      · exact hob₂.cached_eq hb₁ (hc₁ bytes hb)
      · exact hc₂ d hd bytes hb₁

theorem retransform_eq (c : ClassRef) (hi : w.instruments[index]? = some i)
    (hf : i.retransformFault = none) :
    retransform [c] (.gateway gateway (.given index)) w =
      andAlways (modify fun w => w.left gateway)
        (changeAll index (c :: i.also.map namedClass)) ((w.entered gateway).asked index) := by
  have hi' : ((w.entered gateway).asked index).instruments[index]? =
      some { i with count := i.count + 1 } := by
    simp [World.asked, World.entered, Array.getElem?_modify, hi]
  have hnoted : (World.updateInstrument index (fun i => { i with count := i.count + 1 })
      (w.entered gateway)).2 = (w.entered gateway).asked index := rfl
  have hrun : retransformWith Transform.run [c] (.given index) (w.entered gateway) =
      changeAll index (c :: i.also.map namedClass) ((w.entered gateway).asked index) := by
    unfold retransformWith retransformGiven
    rw [Attempt.lift_bind, Attempt.get_bind]
    rw [hnoted, hi']
    simp only [hf]
    rfl
  change andAlways (modify fun w => w.left gateway)
    (retransformWith Transform.run [c] (.given index)) (w.entered gateway) = _
  rw [andAlways_apply, hrun, andAlways_apply]

theorem observed_asked (hi : w.instruments[index]? = some i) :
    Observed index cache w (w.asked index) := by
  have hi' : (w.asked index).instruments[index]? = some { i with count := i.count + 1 } := by
    simp [World.asked, Array.getElem?_modify, hi]
  refine ⟨rfl, rfl, rfl, rfl, ?_, ?_, rfl, fun _ _ => rfl, fun _ => .inl rfl⟩
  · intro j hj
    rw [hi] at hj
    cases hj
    exact ⟨_, _, hi'⟩
  · intro name
    simp [World.held, hi, hi']

/-- A gateway that captures brings the bytes of the class into the cache, if there are any. -/
theorem retransform_observed (c : ClassRef) (hquiet : w.inFlight = [])
    (hw : Capturing gateway cache (w.entered gateway)) (ho : (given index).OnlyCallbacks w)
    (hg : (given index).CallsBack gateway w) (hi : w.instruments[index]? = some i)
    (hf : i.retransformFault = none) (hk : cache < w.caches.size) :
    ∃ w', retransform [c] (.gateway gateway (.given index)) w = (.ok (), w') ∧
      Observed index cache w w' ∧
      ∀ bytes, w.held index c.name = some bytes → w'.cached cache c.name = some bytes := by
  have hi' : (w.entered gateway).instruments[index]? = some i := hi
  have hob₁ : Observed index cache (w.entered gateway) ((w.entered gateway).asked index) :=
    observed_asked hi'
  obtain ⟨_, _, hi₁⟩ := hob₁.instrument i hi'
  obtain ⟨w₂, h₂, hob₂, hc₂⟩ := changeAll_observed (c :: i.also.map namedClass) (hob₁.capturing hw)
    (hob₁.onlyCallbacks hi' ho) (hob₁.callsBack hi' hg) hi₁ hk
  have hob := hob₁.trans hob₂
  refine ⟨w₂.left gateway, ?_, ?_, fun bytes hb => hc₂ c List.mem_cons_self bytes ?_⟩
  · rw [retransform_eq c hi hf, andAlways_apply, h₂]
    rfl
  · refine ⟨hob.transformers, hob.gateways, ?_, hob.points, hob.instrument, hob.held, hob.room,
      hob.others, hob.cached⟩
    have hin : w₂.inFlight = [gateway] := by
      rw [hob.inFlight, World.entered, hquiet]
    simp [World.left, hin, hquiet]
  · rw [hob₁.held]
    exact hb

end Instrument

end ClassRecovery
