import ClassRecovery.Proofs.Collector.Wiring

/-!
What one call of a live collector does. It brings the capture point into use, shows the class to it
once and takes away what was captured; what other classes left in the cache is never older than the
instrument, since an entry is replaced whenever its class is shown.
-/

namespace ClassRecovery

/-- What does not matter to capture points stays as it is. -/
structure World.SameParties (w w' : World) : Prop where
  transformers : w'.transformers = w.transformers
  gateways : w'.gateways = w.gateways
  instruments : w'.instruments = w.instruments
  caches : w'.caches = w.caches
  points : w'.points = w.points
  inFlight : w'.inFlight = w.inFlight

/-- The handle has the instrument, or gets it from the source without touching capture points. -/
def Handle.Supplies (index handle : Nat) (source : InstrumentSource) (w : World) : Prop :=
  ∃ w', getOrAcquire handle source w = (.ok (.given index), w') ∧ w.SameParties w'

theorem Handle.supplies_of_held {index handle : Nat} {source : InstrumentSource} {w : World}
    (h : held handle w = some (.given index)) : Supplies index handle source w := by
  refine ⟨w, ?_, ⟨rfl, rfl, rfl, rfl, rfl, rfl⟩⟩
  unfold getOrAcquire
  rw [Attempt.get_bind, h]
  rfl

theorem Handle.supplies_fixed {index handle : Nat} {w : World}
    (h : ∀ i, held handle w = some i → i = .given index) :
    Supplies index handle (.fixed (.given index)) w := by
  cases hw : held handle w with
  | some i => exact supplies_of_held (by rw [hw, h i hw])
  | none =>
    let w' : World :=
      { w with handles := w.handles.modify handle fun h => some (h.getD (.given index)) }
    have hw' : (held handle w').getD (.given index) = .given index := by
      unfold held at hw ⊢
      simp only [w', Array.getElem?_modify, if_pos]
      cases hh : w.handles[handle]? with
      | none => rfl
      | some o =>
        rw [hh] at hw
        cases hw
        rfl
    refine ⟨w', ?_, ⟨rfl, rfl, rfl, rfl, rfl, rfl⟩⟩
    unfold getOrAcquire
    rw [Attempt.get_bind, hw]
    change (Except.ok ((held handle w').getD (.given index)), w') = _
    rw [hw']

theorem Handle.supplies_of_none {index handle : Nat} {w : World} (h : held handle w = none) :
    Supplies index handle (.fixed (.given index)) w := by
  apply supplies_fixed
  intro i hi
  rw [h] at hi
  cases hi

namespace Collector

/-- A collector at the point can get at the instrument. -/
def Answerable (index point handle : Nat) (source : InstrumentSource) (w : World) : Prop :=
  (w.points[point]?.bind (·.gateway)).isSome ∨ Handle.Supplies index handle source w

/-- Nothing was captured that the instrument does not have. -/
def NoStray (index : Nat) (w : World) : Prop :=
  ∀ (n : Nat) (p : CapturePoint) (name : String), w.points[n]? = some p →
    (w.cached p.cache name).isSome → (w.held index name).isSome

/-- What a step does that neither shows classes nor takes captured bytes. -/
structure Arranged (index : Nat) (w w' : World) : Prop where
  connected : Connected index w'
  caches : w'.caches = w.caches
  actions : ∀ t a, w.actionOf t = some a → w'.actionOf t = some a
  held : ∀ name, w'.held index name = w.held index name
  count : w'.instruments[index]?.map (·.count) = w.instruments[index]?.map (·.count)
  also : w'.instruments[index]?.map (·.also) = w.instruments[index]?.map (·.also)
  points : ∀ m : Nat, w'.points[m]?.map (·.cache) = w.points[m]?.map (·.cache)

namespace Arranged

variable {index : Nat} {w w' w'' : World}

theorem refl (h : Connected index w) : Arranged index w w :=
  ⟨h, rfl, fun _ _ ha => ha, fun _ => rfl, rfl, rfl, fun _ => rfl⟩

theorem trans (h : Arranged index w w') (h' : Arranged index w' w'') : Arranged index w w'' where
  connected := h'.connected
  caches := h'.caches.trans h.caches
  actions t a ha := h'.actions t a (h.actions t a ha)
  held name := (h'.held name).trans (h.held name)
  count := h'.count.trans h.count
  also := h'.also.trans h.also
  points m := (h'.points m).trans (h.points m)

theorem noStray (h : Arranged index w w') (hs : NoStray index w) : NoStray index w' := by
  intro n p name hp hc
  have hm : w.points[n]?.map (·.cache) = some p.cache := by
    rw [← h.points, hp]
    rfl
  rw [Option.map_eq_some_iff] at hm
  obtain ⟨q, hq, hqc⟩ := hm
  rw [h.held]
  apply hs n q name hq
  rw [hqc]
  unfold World.cached at hc ⊢
  rw [← h.caches]
  exact hc

end Arranged

variable {index n handle : Nat} {source : InstrumentSource} {w : World} {p : CapturePoint}

theorem arranged_updatePoint (f : CapturePoint → CapturePoint)
    (hf : ∀ q, (f q).cache = q.cache)
    (h : Connected index { w with points := w.points.modify n f }) :
    Arranged index w { w with points := w.points.modify n f } :=
  ⟨h, rfl, fun _ _ ha => ha, fun _ => rfl, rfl, rfl, map_getElem?_modify hf⟩

theorem acquireLock_eq (hp : w.points[n]? = some p) (name : String) :
    acquireLock n name w = ((p.locks.acquire name).1,
      { w with points := w.points.modify n fun q =>
          { q with locks := (p.locks.acquire name).2 } }) := by
  unfold acquireLock
  rw [Action.get_bind, hp]
  rfl

theorem acquireLock_arranged (h : Connected index w) (hp : w.points[n]? = some p)
    (name : String) :
    ∃ w', acquireLock n name w = ((p.locks.acquire name).1, w') ∧ Arranged index w w' ∧
      w'.points[n]? = some { p with locks := (p.locks.acquire name).2 } := by
  refine ⟨_, acquireLock_eq hp name, arranged_updatePoint _ (fun _ => rfl) ?_, ?_⟩
  · exact h.updatePoint_same hp _ rfl rfl rfl
  · simp [Array.getElem?_modify, hp]

theorem unlistLock_arranged (h : Connected index w) (hp : w.points[n]? = some p)
    (name : String) (lock : Nat) :
    ∃ w', unlistLock n name lock w = ((), w') ∧ Arranged index w w' ∧
      w'.points[n]? = some { p with locks := p.locks.release name lock } := by
  refine ⟨_, rfl, arranged_updatePoint _ (fun _ => rfl) ?_, ?_⟩
  · exact h.updatePoint_same hp _ rfl rfl rfl
  · simp [Array.getElem?_modify, hp]

theorem dropLock_arranged (h : Connected index w) (hp : w.points[n]? = some p) (lock : Nat) :
    ∃ w', dropLock n lock w = ((), w') ∧ Arranged index w w' ∧
      w'.points[n]? = some { p with locks := p.locks.drop lock } := by
  refine ⟨_, rfl, arranged_updatePoint _ (fun _ => rfl) ?_, ?_⟩
  · exact h.updatePoint_same hp _ rfl rfl rfl
  · simp [Array.getElem?_modify, hp]

theorem releaseLock_arranged (h : Connected index w) (hp : w.points[n]? = some p)
    (name : String) (lock : Nat) :
    ∃ w', releaseLock n name lock w = ((), w') ∧ Arranged index w w' := by
  obtain ⟨w₁, hw₁, ha₁, hp₁⟩ := unlistLock_arranged h hp name lock
  obtain ⟨w₂, hw₂, ha₂, -⟩ := dropLock_arranged ha₁.connected hp₁ lock
  refine ⟨w₂, ?_, ha₁.trans ha₂⟩
  unfold releaseLock
  rw [Action.bind_apply, hw₁, hw₂]

theorem Arranged.of_sameParties {w' : World} (h : Connected index w) (hsame : w.SameParties w') :
    Arranged index w w' := by
  refine ⟨h.congr hsame.transformers hsame.gateways hsame.instruments (by rw [hsame.caches])
    hsame.points hsame.inFlight, hsame.caches, ?_, ?_, ?_, ?_, ?_⟩
  · intro t a ha
    unfold World.actionOf at ha ⊢
    rw [hsame.transformers]
    exact ha
  · intro name
    unfold World.held
    rw [hsame.instruments]
  · rw [hsame.instruments]
  · rw [hsame.instruments]
  · intro m
    rw [hsame.points]

/-- The world after the instrument was wrapped for a capture point. -/
def pointed (n : Nat) (on : Instrument) (w : World) : World :=
  { w with
    transformers := w.transformers.push { action := .callback w.gateways.size }
    gateways := w.gateways.push { callback := w.transformers.size }
    points := w.points.modify n fun q => { q with gateway := some on } }

theorem pointed_arranged (h : Connected index w) (hp : w.points[n]? = some p)
    (hi : p.installed = false) :
    Arranged index w (pointed n (.gateway w.gateways.size (.given index)) w) := by
  let on : Instrument := .gateway w.gateways.size (.given index)
  have h₁ := h.wrap (.given index)
  have hp₁ : ((Instrument.given index).wrap w).2.points[n]? = some p := hp
  have hfree : ∀ (m : Nat) (q : CapturePoint), w.points[m]? = some q → q.gateway ≠ some on := by
    intro m q hq hqg
    obtain ⟨k, y, hk, hy⟩ := (h.wired m q hq).exists_gateway hqg
    injection hk with hk
    subst hk
    exact absurd (Array.getElem?_eq_some_iff.mp hy).1 (Nat.lt_irrefl _)
  refine ⟨?_, rfl, fun _ _ => Connected.actionOf_push (w := w) _, fun _ => rfl, rfl, rfl,
    map_getElem?_modify fun _ => rfl⟩
  refine h₁.updatePoint hp₁ (fun q => { q with gateway := some on }) rfl
    (.wrapped w.gateways.size { callback := w.transformers.size } rfl hi
      Array.getElem?_push_size rfl rfl) ?_
  intro m q on' _ hq hon hqon
  cases hon
  exact hfree m q hq hqon

theorem pointGateway_arranged (h : Connected index w) (hp : w.points[n]? = some p)
    (ha : Answerable index n handle source w) :
    ∃ g w', pointGateway n handle source w = (.ok (.gateway g (.given index)), w') ∧
      Arranged index w w' ∧
      w'.points[n]? = some { p with gateway := some (.gateway g (.given index)) } ∧
      ∀ on, p.gateway = some on → on = .gateway g (.given index) := by
  have hbind : w.points[n]?.bind (·.gateway) = p.gateway := by rw [hp]; rfl
  have hconnected : ∀ g, p.gateway = some (.gateway g (.given index)) →
      ∃ g w', pointGateway n handle source w = (.ok (.gateway g (.given index)), w') ∧
        Arranged index w w' ∧
        w'.points[n]? = some { p with gateway := some (.gateway g (.given index)) } ∧
        ∀ on, p.gateway = some on → on = .gateway g (.given index) := by
    intro g hg
    refine ⟨g, w, ?_, .refl h, ?_, fun on hon => Option.some.inj (hon.symm.trans hg)⟩
    · unfold pointGateway
      rw [Attempt.get_bind, hbind, hg]
      rfl
    · rw [hp, ← hg]
  cases h.wired n p hp with
  | wrapped g x hg => exact hconnected g hg
  | started g t x hg => exact hconnected g hg
  | fresh hg hi =>
    rw [Answerable, hbind, hg] at ha
    rcases ha with ha | ⟨w₁, hw₁, hsame⟩
    · cases ha
    have harranged := Arranged.of_sameParties h hsame
    have hp₁ : w₁.points[n]? = some p := hsame.points ▸ hp
    have hrun : Handle.gateway handle source w =
        (.ok (.gateway w₁.gateways.size (.given index)), ((Instrument.given index).wrap w₁).2) := by
      unfold Handle.gateway
      rw [bind_apply, hw₁]
      rfl
    refine ⟨w₁.gateways.size, pointed n (.gateway w₁.gateways.size (.given index)) w₁, ?_,
      harranged.trans (pointed_arranged harranged.connected hp₁ hi), ?_, ?_⟩
    · unfold pointGateway
      rw [Attempt.get_bind, hbind, hg]
      simp only
      rw [bind_apply, hrun]
      rfl
    · simp [pointed, Array.getElem?_modify, hp₁]
    · intro on hon
      rw [hg] at hon
      cases hon

/-- A gateway whose callback is not registered yet has it registered first. -/
theorem addTransformer_first {g : Nat} {inner : Instrument}
    (hc : Instrument.hasCallback g w = false) (r : Registration) :
    (Instrument.gateway g inner).addTransformer r w =
      let w₁ := match Instrument.callbackOf g w with
        | some callback => (inner.addTransformer ⟨callback, true⟩ w).2
        | none => w
      ((), { w₁ with gateways :=
        (w₁.gateways.modify g fun x => { x with installed := true }).modify g (·.add r) }) := by
  conv => lhs; unfold Instrument.addTransformer
  rw [Action.get_bind, hc]
  simp only [Bool.false_eq_true, ↓reduceIte]
  rw [Action.get_bind]
  cases Instrument.callbackOf g w <;> rfl

theorem addTransformer_unused {g : Nat} {x : Gateway} (hx : w.gateways[g]? = some x)
    (hn : x.installed = false) (r : Registration) :
    (Instrument.gateway g (.given index)).addTransformer r w = ((), { w with
      instruments := w.instruments.modify index (·.add ⟨x.callback, true⟩)
      gateways :=
        (w.gateways.modify g fun y => { y with installed := true }).modify g (·.add r) }) := by
  have hc : Instrument.hasCallback g w = false := by simp [Instrument.hasCallback, hx, hn]
  have hb : Instrument.callbackOf g w = some x.callback := by simp [Instrument.callbackOf, hx]
  rw [addTransformer_first hc, hb]
  rfl

/-- The world after the gateway of a point got the transformer that captures. -/
def captureInstalled (index n g callback cache : Nat) (w : World) : World :=
  { w with
    transformers := w.transformers.push { action := .capture cache }
    instruments := w.instruments.modify index (·.add ⟨callback, true⟩)
    gateways := (w.gateways.modify g fun y => { y with installed := true }).modify g
      (·.add ⟨w.transformers.size, true⟩)
    points := w.points.modify n fun p => { p with installed := true } }

theorem captureInstalled_arranged {g : Nat} {x : Gateway} (h : Connected index w)
    (hp : w.points[n]? = some p) (hg : p.gateway = some (.gateway g (.given index)))
    (hx : w.gateways[g]? = some x) (hq : x.queue = []) :
    Arranged index w (captureInstalled index n g x.callback p.cache w) := by
  let t := w.transformers.size
  let w₁ : World := { w with transformers := w.transformers.push { action := .capture p.cache } }
  let w₂ : World := { w₁ with
    instruments := w₁.instruments.modify index (·.add ⟨x.callback, true⟩) }
  have h₁ : Connected index w₁ := h.addTransformer _
  have h₂ : Connected index w₂ := by
    refine h₁.updateInstrument _ (fun i hi => ⟨hi.1, hi.2, hi.3⟩) ?_ ?_
    · intro i r hr
      exact List.mem_append_left _ hr
    · intro i r hr
      rcases List.mem_append.mp hr with hr | hr
      · exact .inl hr
      · rw [List.mem_singleton] at hr
        subst hr
        exact .inr ⟨g, h₁.own g x hx⟩
  have hr : ⟨x.callback, true⟩ ∈ (Instrument.given index).queue w₂ := by
    obtain ⟨i, hi, -⟩ := h₁.able
    have hi₂ : w₂.instruments[index]? = some (i.add ⟨x.callback, true⟩) := by
      simp [w₂, Array.getElem?_modify, hi]
    simp [Instrument.queue, hi₂, GivenInstrument.add]
  let gateways := (w.gateways.modify g fun y => { y with installed := true }).modify g
    (·.add ⟨t, true⟩)
  have hy : gateways[g]? = some { x with installed := true, queue := [⟨t, true⟩] } := by
    simp [gateways, Array.getElem?_modify, hx, Gateway.add, hq]
  have hothers : ∀ k, k ≠ g → gateways[k]? = w₂.gateways[k]? := by
    intro k hk
    simp [gateways, w₂, w₁, Array.getElem?_modify, Ne.symm hk]
  have hact : w₂.actionOf t = some (.capture p.cache) := by
    simp [World.actionOf, w₂, w₁, t]
  refine ⟨h₂.start hp hg hx hact hr gateways hy rfl rfl hothers, rfl,
    fun _ _ => Connected.actionOf_push (w := w) _, World.held_modify (w := w) fun _ => rfl, ?_, ?_,
    map_getElem?_modify fun _ => rfl⟩
  · apply map_getElem?_modify
    exact fun _ => rfl
  · apply map_getElem?_modify
    exact fun _ => rfl

theorem ensureCapture_arranged {g : Nat} (h : Connected index w) (hp : w.points[n]? = some p)
    (hg : p.gateway = some (.gateway g (.given index))) :
    ∃ w', ensureCapture n (.gateway g (.given index)) w = ((), w') ∧ Arranged index w w' ∧
      w'.points[n]? = some { p with installed := true } := by
  cases h.wired n p hp with
  | fresh hn =>
    rw [hn] at hg
    cases hg
  | started k t x hk hi =>
    refine ⟨w, ?_, .refl h, by rw [hp, ← hi]⟩
    unfold ensureCapture
    rw [Action.get_bind, hp]
    simp only [hi]
    rfl
  | wrapped k x hk hi hx hq hn =>
    rw [hg] at hk
    cases hk
    refine ⟨captureInstalled index n g x.callback p.cache w, ?_,
      captureInstalled_arranged h hp hg hx hq, ?_⟩
    · unfold ensureCapture
      rw [Action.get_bind, hp]
      simp only [hi, Bool.false_eq_true, ↓reduceIte]
      let w₁ : World := { w with
        transformers := w.transformers.push { action := .capture p.cache }
        points := w.points.modify n fun p => { p with installed := true } }
      exact addTransformer_unused (w := w₁) hx hn ⟨w.transformers.size, true⟩
    · simp [captureInstalled, Array.getElem?_modify, hp]

theorem capturing_of_installed {g : Nat} (h : Connected index w) (hp : w.points[n]? = some p)
    (hg : p.gateway = some (.gateway g (.given index))) (hi : p.installed = true) :
    Capturing g p.cache (w.entered g) ∧ (Instrument.given index).CallsBack g w := by
  cases h.wired n p hp with
  | fresh hn =>
    rw [hn] at hg
    cases hg
  | wrapped k x hk hi' =>
    rw [hi] at hi'
    cases hi'
  | started k t x hk _ hx hq ht hr =>
    rw [hg] at hk
    cases hk
    have hx' : (w.entered g).gateways[g]? = some x := hx
    refine ⟨⟨?_, t, ?_, ht⟩, ⟨x.callback, true⟩, hr, rfl, h.own g x hx⟩
    · rw [World.entered, h.quiet]
    · rw [hx', Option.map_some, hq]

/-- The captured bytes of a name are taken away. -/
def taken (cache : Nat) (name : String) (w : World) : World :=
  { w with caches := w.caches.modify cache (·.erase name) }

theorem takeCaptured_eq (hp : w.points[n]? = some p) (hk : p.cache < w.caches.size)
    (name : String) :
    takeCaptured n name w = (w.cached p.cache name, taken p.cache name w) := by
  have hget : w.caches[p.cache]? = some w.caches[p.cache] := Array.getElem?_eq_getElem hk
  have hcaches : w.caches.modify p.cache (fun _ => w.caches[p.cache].erase name) =
      w.caches.modify p.cache (·.erase name) := modify_congr fun k hk => by
    rw [Option.some.inj (hget.symm.trans hk)]
  unfold takeCaptured World.cached taken
  rw [Action.get_bind, hp, ← hcaches]
  simp only [hget]
  rfl

theorem cached_taken {cache : Nat} (name other : String) :
    (taken cache name w).cached cache other =
      if other = name then none else w.cached cache other := by
  unfold World.cached taken
  rw [Array.getElem?_modify, if_pos rfl, Option.bind_map]
  cases w.caches[cache]? with
  | none => simp
  | some k => exact Table.get?_erase k name other

theorem cached_taken_of_ne {cache k : Nat} (hk : k ≠ cache) (name other : String) :
    (taken cache name w).cached k other = w.cached k other := by
  unfold World.cached taken
  rw [Array.getElem?_modify, if_neg (Ne.symm hk)]

theorem connected_taken {cache : Nat} (h : Connected index w) (name : String) :
    Connected index (taken cache name w) :=
  h.congr rfl rfl rfl (by simp [taken]) rfl rfl

theorem noStray_taken {cache : Nat} (hs : NoStray index w) (name : String) :
    NoStray index (taken cache name w) := by
  intro m q other hq hc
  apply hs m q other hq
  by_cases h : q.cache = cache
  · rw [h, cached_taken] at hc
    rw [h]
    split at hc
    · cases hc
    · exact hc
  · rwa [cached_taken_of_ne h] at hc

theorem noStray_observed {cache : Nat} {w' : World} (ho : Observed index cache w w')
    (hs : NoStray index w) : NoStray index w' := by
  intro m q name hq hc
  rw [ho.points] at hq
  rw [ho.held]
  by_cases hk : q.cache = cache
  · rw [hk] at hc
    rcases ho.cached name with hcached | ⟨hheld, -⟩
    · rw [hcached, ← hk] at hc
      exact hs m q name hq hc
    · exact hheld
  · apply hs m q name hq
    unfold World.cached at hc ⊢
    rw [← ho.others _ hk]
    exact hc

/-- What one call leaves behind for the next one. -/
structure Answered (index : Nat) (w w' : World) : Prop where
  connected : Connected index w'
  noStray : NoStray index w'
  held : ∀ name, w'.held index name = w.held index name
  points : ∀ m : Nat, w'.points[m]?.map (·.cache) = w.points[m]?.map (·.cache)

theorem supportsRetransform_gateway (h : Connected index w) (g : Nat) :
    (Instrument.gateway g (.given index)).supportsRetransform w = true := by
  obtain ⟨i, hi, hable⟩ := h.able
  simp [Instrument.supportsRetransform, hi, hable.retransforms]

theorem isModifiable_gateway (h : Connected index w) (g : Nat) (c : ClassRef) :
    (Instrument.gateway g (.given index)).isModifiable c w = (.ok true, w) := by
  obtain ⟨i, hi, hable⟩ := h.able
  unfold Instrument.isModifiable Instrument.isModifiable
  rw [Attempt.get_bind, hi]
  simp only [hable.modifiable]
  rfl

theorem capture_eq {g : Nat} {w₁ w₂ : World} {c : ClassRef}
    (hw₁ : ensureCapture n (.gateway g (.given index)) w = ((), w₁)) (h₁ : Connected index w₁)
    (hw₂ : Instrument.retransform [c] (.gateway g (.given index)) w₁ = (.ok (), w₂))
    (hp₂ : w₂.points[n]? = some p) (hroom : p.cache < w₂.caches.size) :
    capture n (.gateway g (.given index)) c w =
      (.ok (w₂.cached p.cache c.name), taken p.cache c.name w₂) := by
  unfold capture
  rw [Attempt.lift_bind, hw₁, Attempt.get_bind, supportsRetransform_gateway h₁]
  simp only [Bool.not_true, Bool.false_eq_true, ↓reduceIte]
  rw [bind_apply, isModifiable_gateway h₁]
  simp only [Bool.not_true, Bool.false_eq_true, ↓reduceIte]
  rw [bind_apply, hw₂]
  change (fun r : Option Bytes × World => (Except.ok r.1, r.2)) (takeCaptured n c.name w₂) = _
  rw [takeCaptured_eq hp₂ hroom]

theorem readLive_eq {on : Instrument} {lock : Nat} {c : ClassRef} {w₁ w₂ w₃ : World}
    {r : Except Error (Option Bytes)}
    (hw₁ : pointGateway n handle source w = (.ok on, w₁))
    (hw₂ : acquireLock n c.name w₁ = (lock, w₂)) (hw₃ : capture n on c w₂ = (r, w₃)) :
    readLive n handle source c w = (r, (releaseLock n c.name lock w₃).2) := by
  unfold readLive
  rw [bind_apply, hw₁]
  simp only
  rw [Attempt.lift_bind, hw₂, andAlways_apply, hw₃]

theorem capture_exact {g : Nat} (h : Connected index w) (hs : NoStray index w)
    (hp : w.points[n]? = some p) (hg : p.gateway = some (.gateway g (.given index)))
    (c : ClassRef) :
    ∃ w', capture n (.gateway g (.given index)) c w = (.ok (w.held index c.name), w') ∧
      Answered index w w' ∧ ∃ p', w'.points[n]? = some p' := by
  obtain ⟨w₁, hw₁, ha₁, hp₁⟩ := ensureCapture_arranged h hp hg
  have h₁ := ha₁.connected
  have hs₁ := ha₁.noStray hs
  obtain ⟨hcapturing, hcalls⟩ := capturing_of_installed h₁ hp₁ hg rfl
  obtain ⟨i, hi, hable⟩ := h₁.able
  have hroom : p.cache < w₁.caches.size := h₁.room n { p with installed := true } hp₁
  obtain ⟨w₂, hw₂, ho, hcap⟩ := Instrument.retransform_observed c h₁.quiet hcapturing h₁.shared
    hcalls hi hable.faultless hroom
  have hp₂ : w₂.points[n]? = some { p with installed := true } := by rw [ho.points, hp₁]
  have hs₂ := noStray_observed ho hs₁
  have hanswer : w₂.cached p.cache c.name = w.held index c.name := by
    rw [← ha₁.held]
    cases hheld : w₁.held index c.name with
    | some bytes => exact hcap bytes hheld
    | none =>
      rw [← Option.not_isSome_iff_eq_none]
      intro hc
      have := hs₂ n _ c.name hp₂ hc
      rw [ho.held, hheld] at this
      cases this
  refine ⟨taken p.cache c.name w₂, ?_, ⟨connected_taken (h₁.observed ho) _, noStray_taken hs₂ _,
    fun name => (ho.held name).trans (ha₁.held name), ?_⟩, _, hp₂⟩
  · rw [capture_eq hw₁ h₁ hw₂ hp₂ (by rw [ho.room]; exact hroom), hanswer]
  · intro m
    exact (congrArg (Option.map _) (congrArg (·[m]?) ho.points)).trans (ha₁.points m)

theorem readLive_exact (h : Connected index w) (hs : NoStray index w)
    (hp : w.points[n]? = some p) (ha : Answerable index n handle source w) (c : ClassRef) :
    ∃ w', readLive n handle source c w = (.ok (w.held index c.name), w') ∧
      Answered index w w' := by
  obtain ⟨g, w₁, hw₁, ha₁, hp₁, -⟩ := pointGateway_arranged h hp ha
  obtain ⟨w₂, hw₂, ha₂, hp₂⟩ := acquireLock_arranged ha₁.connected hp₁ c.name
  obtain ⟨w₃, hw₃, ha₃, p₃, hp₃⟩ := capture_exact ha₂.connected
    (ha₂.noStray (ha₁.noStray hs)) hp₂ rfl c
  obtain ⟨w₄, hw₄, ha₄⟩ := releaseLock_arranged ha₃.connected hp₃ c.name
    (p.locks.acquire c.name).1
  have ha₁₂ := ha₁.trans ha₂
  refine ⟨w₄, ?_, ⟨ha₄.connected, ha₄.noStray ha₃.noStray, ?_, ?_⟩⟩
  · rw [readLive_eq hw₁ hw₂ hw₃, ← ha₁₂.held]
    exact congrArg (Prod.mk _) (congrArg Prod.snd hw₄)
  · exact fun name => (ha₄.held name).trans ((ha₃.held name).trans (ha₁₂.held name))
  · exact fun m => (ha₄.points m).trans ((ha₃.points m).trans (ha₁₂.points m))

end Collector

end ClassRecovery
