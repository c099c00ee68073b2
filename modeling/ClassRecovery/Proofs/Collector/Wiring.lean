import ClassRecovery.Collector.Standard
import ClassRecovery.Proofs.Instrument.Retransform

/-!
How capture points stand to the instrument that they work on. Each has a cache of its own, and a
gateway of its own from the first class on that it is asked for; the instrument shows classes to
callbacks of gateways only. Whatever agents do to the instrument besides keeps that so.
-/

namespace ClassRecovery

/-- The instrument can transform classes again, and does when it is asked to. -/
structure GivenInstrument.Able (i : GivenInstrument) : Prop where
  retransforms : i.retransforms = true
  modifiable : i.modifiable = .ok true
  faultless : i.retransformFault = none

/-- A capture point is not connected yet, or has a gateway that was never used, or one whose only
transformer captures and whose callback the instrument has. -/
inductive Wired (index : Nat) (w : World) (p : CapturePoint) : Prop
  | fresh (hp : p.gateway = none) (hi : p.installed = false)
  | wrapped (g : Nat) (x : Gateway) (hp : p.gateway = some (.gateway g (.given index)))
      (hi : p.installed = false) (hg : w.gateways[g]? = some x) (hq : x.queue = [])
      (hn : x.installed = false)
  | started (g t : Nat) (x : Gateway) (hp : p.gateway = some (.gateway g (.given index)))
      (hi : p.installed = true) (hg : w.gateways[g]? = some x) (hq : x.queue = [⟨t, true⟩])
      (ht : w.actionOf t = some (.capture p.cache))
      (hr : ⟨x.callback, true⟩ ∈ (Instrument.given index).queue w)

/-- The gateway keeps its callback and its transformers; its holders may change. -/
structure Gateway.Kept (x x' : Gateway) : Prop where
  callback : x'.callback = x.callback
  queue : x'.queue = x.queue
  installed : x'.installed = x.installed

theorem Gateway.Kept.refl (x : Gateway) : x.Kept x := ⟨rfl, rfl, rfl⟩

theorem Wired.mono {index : Nat} {w w' : World} {p : CapturePoint} (h : Wired index w p)
    (hact : ∀ t a, w.actionOf t = some a → w'.actionOf t = some a)
    (hgate : ∀ g x, p.gateway = some (.gateway g (.given index)) → w.gateways[g]? = some x →
      ∃ x', w'.gateways[g]? = some x' ∧ x.Kept x')
    (hqueue : ∀ r ∈ (Instrument.given index).queue w, r ∈ (Instrument.given index).queue w') :
    Wired index w' p := by
  cases h with
  | fresh hp hi => exact .fresh hp hi
  | wrapped g x hp hi hg hq hn =>
    obtain ⟨x', hg', hk⟩ := hgate g x hp hg
    exact .wrapped g x' hp hi hg' (hk.queue.trans hq) (hk.installed.trans hn)
  | started g t x hp hi hg hq ht hr =>
    obtain ⟨x', hg', hk⟩ := hgate g x hp hg
    exact .started g t x' hp hi hg' (hk.queue.trans hq) (hact _ _ ht)
      (hk.callback ▸ hqueue _ hr)

theorem Wired.exists_gateway {index : Nat} {w : World} {p : CapturePoint} {on : Instrument}
    (h : Wired index w p) (hp : p.gateway = some on) :
    ∃ g x, on = .gateway g (.given index) ∧ w.gateways[g]? = some x := by
  cases h with
  | fresh hn =>
    rw [hn] at hp
    cases hp
  | wrapped g x hg _ hx | started g _ x hg _ hx =>
    rw [hg] at hp
    cases hp
    exact ⟨g, x, rfl, hx⟩

/-- It does not matter what other capture points there are. -/
theorem Wired.withPoints {index : Nat} {w : World} {p : CapturePoint} (h : Wired index w p)
    (points : Array CapturePoint) : Wired index { w with points } p :=
  h.mono (fun _ _ ha => ha) (fun _ x _ hx => ⟨x, hx, .refl x⟩) (fun _ hr => hr)

/-- An instrument over given classes and the capture points that work on it, between two calls. -/
structure Connected (index : Nat) (w : World) : Prop where
  quiet : w.inFlight = []
  able : ∃ i, w.instruments[index]? = some i ∧ i.Able
  shared : (Instrument.given index).OnlyCallbacks w
  /-- The callback of a gateway runs its own queue. -/
  own : ∀ (g : Nat) (x : Gateway), w.gateways[g]? = some x →
    w.actionOf x.callback = some (.callback g)
  wired : ∀ (n : Nat) (p : CapturePoint), w.points[n]? = some p → Wired index w p
  room : ∀ (n : Nat) (p : CapturePoint), w.points[n]? = some p → p.cache < w.caches.size
  cachesApart : ∀ (m n : Nat) (p q : CapturePoint), w.points[m]? = some p → w.points[n]? = some q →
    p.cache = q.cache → m = n
  gatewaysApart : ∀ (m n : Nat) (p q : CapturePoint) (on : Instrument), w.points[m]? = some p →
    w.points[n]? = some q → p.gateway = some on → q.gateway = some on → m = n

/-- An instrument before there is a capture point, whatever other agents do with it. -/
structure Unused (index : Nat) (w : World) : Prop where
  quiet : w.inFlight = []
  able : ∃ i, w.instruments[index]? = some i ∧ i.Able
  shared : (Instrument.given index).OnlyCallbacks w
  own : ∀ (g : Nat) (x : Gateway), w.gateways[g]? = some x →
    w.actionOf x.callback = some (.callback g)
  noPoints : w.points = #[]

namespace Connected

variable {index : Nat} {w w' : World}

theorem of_unused (h : Unused index w) : Connected index w := by
  refine ⟨h.quiet, h.able, h.shared, h.own, ?_, ?_, ?_, ?_⟩ <;> intros <;> simp_all [h.noPoints]

/-- Only these parts of the state matter. -/
theorem congr (h : Connected index w) (htransformers : w'.transformers = w.transformers)
    (hgateways : w'.gateways = w.gateways) (hinstruments : w'.instruments = w.instruments)
    (hcaches : w'.caches.size = w.caches.size) (hpoints : w'.points = w.points)
    (hinFlight : w'.inFlight = w.inFlight) : Connected index w' := by
  have hact : w'.actionOf = w.actionOf := by
    funext t
    unfold World.actionOf
    rw [htransformers]
  have hqueue : (Instrument.given index).queue w' = (Instrument.given index).queue w := by
    unfold Instrument.queue
    rw [hinstruments]
  refine ⟨hinFlight.trans h.quiet, hinstruments ▸ h.able, ?_, ?_, ?_, ?_, ?_, ?_⟩
  · unfold Instrument.OnlyCallbacks
    rw [hqueue, hact]
    exact h.shared
  · rw [hgateways, hact]
    exact h.own
  · intro n p hp
    rw [hpoints] at hp
    refine (h.wired n p hp).mono (by simp [hact]) ?_ (by simp [hqueue])
    intro g x _ hx
    exact ⟨x, by rw [hgateways, hx], .refl x⟩
  · rw [hpoints, hcaches]
    exact h.room
  · rw [hpoints]
    exact h.cachesApart
  · rw [hpoints]
    exact h.gatewaysApart

theorem observed {cache : Nat} (h : Connected index w) (ho : Observed index cache w w') :
    Connected index w' := by
  obtain ⟨i, hi, hable⟩ := h.able
  obtain ⟨classes, count, hi'⟩ := ho.instrument i hi
  refine ⟨ho.inFlight.trans h.quiet, ⟨_, hi', ⟨hable.1, hable.2, hable.3⟩⟩,
    ho.onlyCallbacks hi h.shared, ?_, ?_, ?_, ?_, ?_⟩
  · intro g x hx
    rw [ho.gateways] at hx
    rw [ho.actionOf]
    exact h.own g x hx
  · intro n p hp
    rw [ho.points] at hp
    refine (h.wired n p hp).mono (fun t a ha => by rw [ho.actionOf, ha]) ?_
      (by simp [ho.queue hi])
    intro g x _ hx
    exact ⟨x, by rw [ho.gateways, hx], .refl x⟩
  · rw [ho.points, ho.room]
    exact h.room
  · rw [ho.points]
    exact h.cachesApart
  · rw [ho.points]
    exact h.gatewaysApart

theorem actionOf_push (x : Transformer) {t : Nat} {a : TransformerAction}
    (ha : w.actionOf t = some a) :
    ({ w with transformers := w.transformers.push x } : World).actionOf t = some a := by
  unfold World.actionOf at ha ⊢
  rw [Option.map_eq_some_iff] at ha
  obtain ⟨y, hy, rfl⟩ := ha
  have ht : t ≠ w.transformers.size := by
    have := (Array.getElem?_eq_some_iff.mp hy).1
    omega
  simp [Array.getElem?_push, ht, hy]

theorem addTransformer (h : Connected index w) (x : Transformer) :
    Connected index { w with transformers := w.transformers.push x } := by
  refine ⟨h.quiet, h.able, ?_, ?_, ?_, h.room, h.cachesApart, h.gatewaysApart⟩
  · intro r hr
    obtain ⟨g, hg⟩ := h.shared r hr
    exact ⟨g, actionOf_push x hg⟩
  · intro g y hy
    exact actionOf_push x (h.own g y hy)
  · intro n p hp
    exact (h.wired n p hp).mono (fun _ _ => actionOf_push x) (fun _ y _ hy => ⟨y, hy, .refl y⟩)
      (fun _ hr => hr)

theorem addGateway (h : Connected index w) (x : Gateway)
    (hx : w.actionOf x.callback = some (.callback w.gateways.size)) :
    Connected index { w with gateways := w.gateways.push x } := by
  refine ⟨h.quiet, h.able, h.shared, ?_, ?_, h.room, h.cachesApart, h.gatewaysApart⟩
  · intro g y hy
    rw [Array.getElem?_push] at hy
    split at hy
    next hg =>
      cases hy
      rw [hg]
      exact hx
    next => exact h.own g y hy
  · intro n p hp
    refine (h.wired n p hp).mono (fun _ _ ha => ha) ?_ (fun _ hr => hr)
    intro g y _ hy
    have hg : g ≠ w.gateways.size := by
      have := (Array.getElem?_eq_some_iff.mp hy).1
      omega
    exact ⟨y, by simp [Array.getElem?_push, hg, hy], .refl y⟩

/-- A gateway of a capture point must be kept; any other may get other transformers. -/
theorem setGateways (h : Connected index w) (gateways : Array Gateway)
    (hcallback : ∀ (g : Nat) (y : Gateway), gateways[g]? = some y →
      ∃ x, w.gateways[g]? = some x ∧ y.callback = x.callback)
    (hkept : ∀ (n : Nat) (p : CapturePoint) (g : Nat) (x : Gateway), w.points[n]? = some p →
      p.gateway = some (.gateway g (.given index)) → w.gateways[g]? = some x →
      ∃ y, gateways[g]? = some y ∧ x.Kept y) :
    Connected index { w with gateways } := by
  refine ⟨h.quiet, h.able, h.shared, ?_, ?_, h.room, h.cachesApart, h.gatewaysApart⟩
  · intro g y hy
    obtain ⟨x, hx, hc⟩ := hcallback g y hy
    rw [hc]
    exact h.own g x hx
  · intro n p hp
    exact (h.wired n p hp).mono (fun _ _ ha => ha) (fun g x => hkept n p g x hp) (fun _ hr => hr)

theorem updateGateway (h : Connected index w) (g : Nat) (f : Gateway → Gateway)
    (hcallback : ∀ x, (f x).callback = x.callback)
    (hkept : ∀ (n : Nat) (p : CapturePoint), w.points[n]? = some p →
      p.gateway = some (.gateway g (.given index)) → ∀ x : Gateway, x.Kept (f x)) :
    Connected index { w with gateways := w.gateways.modify g f } := by
  apply h.setGateways
  · intro k y hy
    rw [Array.getElem?_modify] at hy
    split at hy
    next hg =>
      rw [Option.map_eq_some_iff] at hy
      obtain ⟨x, hx, rfl⟩ := hy
      exact ⟨x, hx, hcallback x⟩
    next => exact ⟨y, hy, rfl⟩
  · intro n p k x hp hk hx
    by_cases hg : g = k
    · subst hg
      exact ⟨f x, by simp [Array.getElem?_modify, hx], hkept n p hp hk x⟩
    · exact ⟨x, by simp [Array.getElem?_modify, hg, hx], .refl x⟩

theorem updateInstrument (h : Connected index w) (f : GivenInstrument → GivenInstrument)
    (hable : ∀ i, i.Able → (f i).Able) (hkeep : ∀ i, ∀ r ∈ i.queue, r ∈ (f i).queue)
    (hnew : ∀ i, ∀ r ∈ (f i).queue,
      r ∈ i.queue ∨ ∃ g, w.actionOf r.transformer = some (.callback g)) :
    Connected index { w with instruments := w.instruments.modify index f } := by
  obtain ⟨i, hi, ha⟩ := h.able
  have hi' : (w.instruments.modify index f)[index]? = some (f i) := by
    simp [Array.getElem?_modify, hi]
  have hq : (Instrument.given index).queue w = i.queue := by simp [Instrument.queue, hi]
  have hq' : (Instrument.given index).queue { w with instruments := w.instruments.modify index f } =
      (f i).queue := by simp [Instrument.queue, hi']
  refine ⟨h.quiet, ⟨f i, hi', hable i ha⟩, ?_, h.own, ?_, h.room, h.cachesApart, h.gatewaysApart⟩
  · intro r hr
    rw [hq'] at hr
    rcases hnew i r hr with hr | hr
    · exact h.shared r (by rw [hq]; exact hr)
    · exact hr
  · intro n p hp
    refine (h.wired n p hp).mono (fun _ _ ha => ha) (fun _ x _ hx => ⟨x, hx, .refl x⟩) ?_
    rw [hq, hq']
    exact hkeep i

theorem getElem?_modify_points {n m : Nat} {p q : CapturePoint} {points : Array CapturePoint}
    {f : CapturePoint → CapturePoint} (hp : points[n]? = some p)
    (hq : (points.modify n f)[m]? = some q) :
    m = n ∧ q = f p ∨ m ≠ n ∧ points[m]? = some q := by
  rw [Array.getElem?_modify] at hq
  split at hq
  next h =>
    subst h
    rw [hp] at hq
    cases hq
    exact .inl ⟨rfl, rfl⟩
  next h => exact .inr ⟨Ne.symm h, hq⟩

theorem updatePoint {n : Nat} {p : CapturePoint} (h : Connected index w)
    (hp : w.points[n]? = some p) (f : CapturePoint → CapturePoint)
    (hcache : (f p).cache = p.cache) (hwired : Wired index w (f p))
    (hgate : ∀ (m : Nat) (q : CapturePoint) (on : Instrument), m ≠ n → w.points[m]? = some q →
      (f p).gateway = some on → q.gateway ≠ some on) :
    Connected index { w with points := w.points.modify n f } := by
  refine ⟨h.quiet, h.able, h.shared, h.own, ?_, ?_, ?_, ?_⟩
  · intro m q hq
    refine Wired.withPoints ?_ _
    rcases getElem?_modify_points hp hq with ⟨-, rfl⟩ | ⟨-, hq⟩
    · exact hwired
    · exact h.wired m q hq
  · intro m q hq
    rcases getElem?_modify_points hp hq with ⟨-, rfl⟩ | ⟨-, hq⟩
    · rw [hcache]
      exact h.room n p hp
    · exact h.room m q hq
  · intro m k q r hq hr heq
    rcases getElem?_modify_points hp hq with ⟨rfl, rfl⟩ | ⟨hm, hq'⟩ <;>
      rcases getElem?_modify_points hp hr with ⟨rfl, rfl⟩ | ⟨hk, hr'⟩
    · rfl
    · exact h.cachesApart _ _ _ _ hp hr' (hcache ▸ heq)
    · exact h.cachesApart _ _ _ _ hq' hp (hcache ▸ heq)
    · exact h.cachesApart _ _ _ _ hq' hr' heq
  · intro m k q r on hq hr hqon hron
    rcases getElem?_modify_points hp hq with ⟨rfl, rfl⟩ | ⟨hm, hq'⟩ <;>
      rcases getElem?_modify_points hp hr with ⟨rfl, rfl⟩ | ⟨hk, hr'⟩
    · rfl
    · exact absurd hron (hgate k r on hk hr' hqon)
    · exact absurd hqon (hgate m q on hm hq' hron)
    · exact h.gatewaysApart _ _ _ _ on hq' hr' hqon hron

/-- A change to a point that leaves its gateway and its cache alone. -/
theorem updatePoint_same {n : Nat} {p : CapturePoint} (h : Connected index w)
    (hp : w.points[n]? = some p) (f : CapturePoint → CapturePoint)
    (hcache : (f p).cache = p.cache) (hgateway : (f p).gateway = p.gateway)
    (hinstalled : (f p).installed = p.installed) :
    Connected index { w with points := w.points.modify n f } := by
  refine h.updatePoint hp f hcache ?_ ?_
  · cases h.wired n p hp with
    | fresh hg hi => exact .fresh (hgateway.trans hg) (hinstalled.trans hi)
    | wrapped g x hg hi hx hq hn =>
      exact .wrapped g x (hgateway.trans hg) (hinstalled.trans hi) hx hq hn
    | started g t x hg hi hx hq ht hr =>
      exact .started g t x (hgateway.trans hg) (hinstalled.trans hi) hx hq (hcache ▸ ht) hr
  · intro m q on hm hq hon hqon
    exact hm (h.gatewaysApart m n q p on hq hp hqon (hgateway ▸ hon))

/-- The gateway of a point gets the transformer that captures, the first one it has. -/
theorem start {n g t : Nat} {p : CapturePoint} {x y : Gateway} (h : Connected index w)
    (hp : w.points[n]? = some p) (hpg : p.gateway = some (.gateway g (.given index)))
    (hx : w.gateways[g]? = some x) (ht : w.actionOf t = some (.capture p.cache))
    (hr : ⟨x.callback, true⟩ ∈ (Instrument.given index).queue w) (gateways : Array Gateway)
    (hy : gateways[g]? = some y) (hcallback : y.callback = x.callback)
    (hqueue : y.queue = [⟨t, true⟩]) (hothers : ∀ k, k ≠ g → gateways[k]? = w.gateways[k]?) :
    Connected index { w with
      gateways, points := w.points.modify n fun p => { p with installed := true } } := by
  -- Without its gateway the point lets any gateway change.
  have h₁ := h.updatePoint hp (fun p => { p with gateway := none, installed := false }) rfl
    (.fresh rfl rfl) (fun _ _ _ _ _ hon => nomatch hon)
  have hp₁ : (w.points.modify n fun p => { p with gateway := none, installed := false })[n]? =
      some { p with gateway := none, installed := false } := by
    simp [Array.getElem?_modify, hp]
  have hfree : ∀ (m : Nat) (q : CapturePoint), m ≠ n → w.points[m]? = some q →
      q.gateway ≠ some (.gateway g (.given index)) := fun m q hm hq hqg =>
    hm (h.gatewaysApart m n q p _ hq hp hqg hpg)
  have h₂ := h₁.setGateways gateways ?_ ?_
  · have h₃ := h₂.updatePoint hp₁ (fun _ => { p with installed := true }) rfl
      (.started g t y hpg rfl hy hqueue ht (hcallback ▸ hr)) ?_
    · have hpoints :
          (w.points.modify n fun p => { p with gateway := none, installed := false }).modify n
            (fun _ => { p with installed := true }) =
          w.points.modify n fun p => { p with installed := true } := by
        rw [modify_modify]
        refine modify_congr fun q hq => ?_
        obtain rfl : p = q := Option.some.inj (hp.symm.trans hq)
        rfl
      exact hpoints ▸ h₃
    · intro m q on hm hq hon hqon
      rw [hpg] at hon
      cases hon
      rcases getElem?_modify_points hp hq with ⟨rfl, -⟩ | ⟨-, hq⟩
      · exact hm rfl
      · exact hfree m q hm hq hqon
  · intro k z hz
    by_cases hk : k = g
    · subst hk
      rw [hy] at hz
      cases hz
      exact ⟨x, hx, hcallback⟩
    · exact ⟨z, (hothers k hk) ▸ hz, rfl⟩
  · intro m q k z hq hqg hz
    rcases getElem?_modify_points hp hq with ⟨-, rfl⟩ | ⟨hm, hq⟩
    · cases hqg
    · have hk : k ≠ g := by
        intro hk
        subst hk
        exact hfree m q hm hq hqg
      exact ⟨z, by rw [hothers k hk, hz], .refl z⟩

theorem newPoint (h : Connected index w) : Connected index (Collector.newPoint w).2 := by
  have hold : ∀ {n : Nat} {p : CapturePoint},
      (w.points.push { cache := w.caches.size })[n]? = some p →
      n = w.points.size ∧ p = { cache := w.caches.size } ∨
        n ≠ w.points.size ∧ w.points[n]? = some p := by
    intro n p hp
    rw [Array.getElem?_push] at hp
    split at hp
    next hn => exact .inl ⟨hn, (Option.some.inj hp).symm⟩
    next hn => exact .inr ⟨hn, hp⟩
  have hroom : ∀ {n : Nat} {p : CapturePoint}, w.points[n]? = some p → p.cache ≠ w.caches.size :=
    fun hp => Nat.ne_of_lt (h.room _ _ hp)
  refine ⟨h.quiet, h.able, h.shared, h.own, ?_, ?_, ?_, ?_⟩
  · intro n p hp
    rcases hold hp with ⟨-, rfl⟩ | ⟨-, hp⟩
    · exact .fresh rfl rfl
    · exact (h.wired n p hp).mono (fun _ _ ha => ha) (fun _ x _ hx => ⟨x, hx, .refl x⟩)
        (fun _ hr => hr)
  · intro n p hp
    change p.cache < (w.caches.push {}).size
    rw [Array.size_push]
    rcases hold hp with ⟨-, rfl⟩ | ⟨-, hp⟩
    · exact Nat.lt_succ_self _
    · exact Nat.lt_succ_of_lt (h.room n p hp)
  · intro m n p q hp hq heq
    rcases hold hp with ⟨rfl, rfl⟩ | ⟨-, hp⟩ <;> rcases hold hq with ⟨rfl, rfl⟩ | ⟨-, hq⟩
    · rfl
    · exact absurd heq.symm (hroom hq)
    · exact absurd heq (hroom hp)
    · exact h.cachesApart m n p q hp hq heq
  · intro m n p q on hp hq hpon hqon
    rcases hold hp with ⟨rfl, rfl⟩ | ⟨-, hp⟩
    · cases hpon
    · rcases hold hq with ⟨rfl, rfl⟩ | ⟨-, hq⟩
      · cases hqon
      · exact h.gatewaysApart m n p q on hp hq hpon hqon

/-- Another agent wraps an instrument. -/
theorem wrap (h : Connected index w) (inner : Instrument) :
    Connected index (inner.wrap w).2 := by
  have h₁ : Connected index (inner.retain w).2 := by
    cases inner with
    | machine => exact h
    | given _ => exact h
    | gateway g _ => exact h.updateGateway g _ (fun _ => rfl) (fun _ _ _ _ _ => ⟨rfl, rfl, rfl⟩)
  have h₂ := h₁.addTransformer { action := .callback (inner.retain w).2.gateways.size }
  refine h₂.addGateway { callback := (inner.retain w).2.transformers.size } ?_
  simp [World.actionOf]

end Connected

end ClassRecovery
