import ClassRecovery.Proofs.Collector.Capture

/-!
A live collector over an instrument of which nothing is known. What such an instrument does when a
class is asked for is taken as data: whether it transforms classes again at all, whether it lets the
class change, which class files it shows to the callback that it was given, in which order, and
whether it fails in the end.
-/

namespace ClassRecovery

def World.caching (w : World) (caches : Array Capture.Cache) : World := { w with caches }

/-- What a collector asks of an instrument, whoever provides that. -/
structure Capability where
  addTransformer : Registration → Action Unit
  supportsRetransform : World → Bool
  isModifiable : ClassRef → Attempt Error Bool
  retransform : List ClassRef → Attempt Error Unit

namespace Capability

def of (i : Instrument) : Capability where
  addTransformer r := i.addTransformer r
  supportsRetransform w := i.supportsRetransform w
  isModifiable c := i.isModifiable c
  retransform classes := i.retransform classes

/-- A gateway over an instrument. -/
def through (k : Capability) (g : Nat) : Capability where
  addTransformer r := do
    unless Instrument.hasCallback g (← get) do
      if let some callback := Instrument.callbackOf g (← get) then
        k.addTransformer ⟨callback, true⟩
      World.updateGateway g fun x => { x with installed := true }
    World.updateGateway g (·.add r)
  supportsRetransform := k.supportsRetransform
  isModifiable := k.isModifiable
  retransform classes := do
    modify fun w => w.entered g
    andAlways (modify fun w => w.left g) (k.retransform classes)

end Capability

/-- A class of that name changes, from whatever loader. -/
def ClassFileEvent.changes (e : ClassFileEvent) (name : String) : Bool :=
  e.redefined.any (·.name = name)

def ClassFileEvent.bytesFor (name : String) (e : ClassFileEvent) : Option Bytes :=
  if e.changes name then some e.bytes else none

/-- The bytes that were shown last for a changing class of that name. -/
def lastShown (name : String) (events : List ClassFileEvent) : Option Bytes :=
  events.reverse.findSome? (·.bytesFor name)

/-- What an instrument does when a class is asked for. -/
structure Reaction where
  supported : Bool
  modifiable : Except Error Bool
  shown : List ClassFileEvent
  result : Except Error Unit

namespace Reaction

def showAll (callback : Nat) (events : List ClassFileEvent) : Action Unit :=
  events.forM fun e => discard (Transform.run callback e)

/-- Class files are shown to the callback of the gateway that asks. -/
def perform (r : Reaction) (g : Nat) : Attempt Error Unit := do
  match Instrument.callbackOf g (← get) with
  | none => MonadExcept.ofExcept r.result
  | some callback =>
    showAll callback r.shown
    MonadExcept.ofExcept r.result

/-- An instrument that reacts so to the gateway over it. -/
def capability (r : Reaction) (g : Nat) : Capability where
  addTransformer _ := return
  supportsRetransform _ := r.supported
  isModifiable _ := MonadExcept.ofExcept r.modifiable
  retransform _ := r.perform g

/-- Whether it comes to a transformation. -/
def lets (r : Reaction) : Bool := r.supported && r.modifiable.toOption.getD false

/-- A gateway over an instrument that reacts so. -/
def gateway (r : Reaction) : Instrument → Capability
  | .gateway g _ => (r.capability g).through g
  | i => .of i

end Reaction

namespace Collector

def ensureCaptureOver (k : Capability) (point : Nat) : Action Unit := do
  match (← get).points[point]? with
  | none => return
  | some p =>
    if p.installed then return
    World.updatePoint point fun p => { p with installed := true }
    let t ← World.addTransformer { action := .capture p.cache }
    k.addTransformer ⟨t, true⟩

def captureOver (k : Capability) (point : Nat) (c : ClassRef) : Attempt Error (Option Bytes) := do
  ensureCaptureOver k point
  if !k.supportsRetransform (← get) then return none
  if !(← k.isModifiable c) then return none
  k.retransform [c]
  takeCaptured point c.name

/-- What a live collector does, with gateways for what `means` says. -/
def readOver (means : Instrument → Capability) (point handle : Nat) (source : InstrumentSource)
    (c : ClassRef) : Attempt Error (Option Bytes) := do
  let gateway ← pointGateway point handle source
  let lock ← acquireLock point c.name
  andAlways (releaseLock point c.name lock) (captureOver (means gateway) point c)

theorem readOver_of (point handle : Nat) (source : InstrumentSource) (c : ClassRef) :
    readOver .of point handle source c = readLive point handle source c := rfl

/-- How far a capture point has got. It has no gateway yet, or one that was never used, or one whose
only transformer captures. -/
inductive Stage (w : World) (p : CapturePoint) : Prop
  | closed (hp : p.gateway = none) (hi : p.installed = false)
  | opened (g : Nat) (inner : Instrument) (x : Gateway) (hp : p.gateway = some (.gateway g inner))
      (hi : p.installed = false) (hg : w.gateways[g]? = some x)
      (hc : w.actionOf x.callback = some (.callback g)) (hq : x.queue = [])
  | started (g t : Nat) (inner : Instrument) (x : Gateway)
      (hp : p.gateway = some (.gateway g inner)) (hi : p.installed = true)
      (hg : w.gateways[g]? = some x) (hc : w.actionOf x.callback = some (.callback g))
      (hq : x.queue = [⟨t, true⟩]) (ht : w.actionOf t = some (.capture p.cache))

/-- The point is there, with its cache and whatever it has made use of. -/
structure Serves (n : Nat) (p : CapturePoint) (w : World) : Prop where
  point : w.points[n]? = some p
  room : p.cache < w.caches.size
  stage : Stage w p

/-- Nobody but the collector at the point works on what the point has. -/
structure Untouched (n : Nat) (w w' : World) : Prop where
  point : w'.points[n]? = w.points[n]?
  cache : ∀ p, w.points[n]? = some p → w'.caches[p.cache]? = w.caches[p.cache]?
  gateway : ∀ p g inner x, w.points[n]? = some p → p.gateway = some (.gateway g inner) →
    w.gateways[g]? = some x → ∃ x', w'.gateways[g]? = some x' ∧ x.Kept x'
  actions : ∀ t a, w.actionOf t = some a → w'.actionOf t = some a

theorem Untouched.refl (n : Nat) (w : World) : Untouched n w w :=
  ⟨rfl, fun _ _ => rfl, fun _ _ _ x _ _ hx => ⟨x, hx, .refl x⟩, fun _ _ ha => ha⟩

variable {n handle : Nat} {source : InstrumentSource} {p q : CapturePoint} {w w' w'' : World}

theorem Untouched.trans (h : Untouched n w w') (h' : Untouched n w' w'') : Untouched n w w'' where
  point := h'.point.trans h.point
  cache p hp := (h'.cache p (h.point.trans hp)).trans (h.cache p hp)
  gateway p g inner x hp hg hx := by
    obtain ⟨x', hx', hk⟩ := h.gateway p g inner x hp hg hx
    obtain ⟨x'', hx'', hk'⟩ := h'.gateway p g inner x' (h.point.trans hp) hg hx'
    exact ⟨x'', hx'', hk'.callback.trans hk.callback, hk'.queue.trans hk.queue,
      hk'.installed.trans hk.installed⟩
  actions t a ha := h'.actions t a (h.actions t a ha)

namespace Stage

theorem mono (h : Stage w p) (hact : ∀ t a, w.actionOf t = some a → w'.actionOf t = some a)
    (hgate : ∀ g inner x, p.gateway = some (.gateway g inner) → w.gateways[g]? = some x →
      ∃ x', w'.gateways[g]? = some x' ∧ x.Kept x') : Stage w' p := by
  cases h with
  | closed hp hi => exact .closed hp hi
  | opened g inner x hp hi hg hc hq =>
    obtain ⟨x', hg', hk⟩ := hgate g inner x hp hg
    exact .opened g inner x' hp hi hg' (hk.callback ▸ hact _ _ hc) (hk.queue.trans hq)
  | started g t inner x hp hi hg hc hq ht =>
    obtain ⟨x', hg', hk⟩ := hgate g inner x hp hg
    exact .started g t inner x' hp hi hg' (hk.callback ▸ hact _ _ hc) (hk.queue.trans hq)
      (hact _ _ ht)

/-- The locks of a point do not matter. -/
theorem congr (h : Stage w p) (hgateway : q.gateway = p.gateway)
    (hinstalled : q.installed = p.installed) (hcache : q.cache = p.cache) : Stage w q := by
  cases h with
  | closed hp hi => exact .closed (hgateway.trans hp) (hinstalled.trans hi)
  | opened g inner x hp hi hg hc hq =>
    exact .opened g inner x (hgateway.trans hp) (hinstalled.trans hi) hg hc hq
  | started g t inner x hp hi hg hc hq ht =>
    exact .started g t inner x (hgateway.trans hp) (hinstalled.trans hi) hg hc hq (hcache ▸ ht)

end Stage

theorem Serves.untouched (h : Serves n p w) (hu : Untouched n w w') :
    Serves n p w' ∧ ∀ name, w'.cached p.cache name = w.cached p.cache name := by
  have hcache := hu.cache p h.point
  refine ⟨⟨hu.point.trans h.point, ?_, ?_⟩, fun name => ?_⟩
  · rw [Array.getElem?_eq_getElem h.room] at hcache
    exact (Array.getElem?_eq_some_iff.mp hcache).1
  · exact h.stage.mono hu.actions fun g inner x hp hx => hu.gateway p g inner x h.point hp hx
  · unfold World.cached
    rw [hcache]

/-- Only the locks of the point change. -/
theorem Serves.relock (h : Serves n p w) (locks : Capture.Locks) :
    Serves n { p with locks } { w with points := w.points.modify n fun q => { q with locks } } := by
  have hstage : Stage w { p with locks } := h.stage.congr rfl rfl rfl
  refine ⟨by simp [Array.getElem?_modify, h.point], h.room, ?_⟩
  exact hstage.mono (fun _ _ ha => ha) fun _ _ x _ hx => ⟨x, hx, .refl x⟩

theorem releaseLock_serves (h : Serves n p w) (name : String) (lock : Nat) :
    ∃ locks, Serves n { p with locks } (releaseLock n name lock w).2 ∧
      (releaseLock n name lock w).2.caches = w.caches := by
  let p₁ : CapturePoint := { p with locks := p.locks.release name lock }
  have hpoints : ((w.points.modify n fun q => { q with locks := q.locks.release name lock }).modify
      n fun q => { q with locks := q.locks.drop lock }) =
      w.points.modify n fun q => { q with locks := p₁.locks.drop lock } := by
    rw [modify_modify]
    refine modify_congr fun q hq => ?_
    obtain rfl : p = q := Option.some.inj (h.point.symm.trans hq)
    rfl
  refine ⟨p₁.locks.drop lock, ?_, rfl⟩
  have hs := h.relock (p₁.locks.drop lock)
  rw [← hpoints] at hs
  exact hs

theorem retain_kept (i : Instrument) (w : World) :
    ∃ gateways, (i.retain w).2 = { w with gateways } ∧
      ∀ (g : Nat) (x : Gateway), w.gateways[g]? = some x →
        ∃ x', gateways[g]? = some x' ∧ x.Kept x' := by
  cases i with
  | machine => exact ⟨w.gateways, rfl, fun g x hx => ⟨x, hx, .refl x⟩⟩
  | given _ => exact ⟨w.gateways, rfl, fun g x hx => ⟨x, hx, .refl x⟩⟩
  | gateway k inner =>
    refine ⟨w.gateways.modify k fun x => { x with holders := x.holders + 1 }, rfl, ?_⟩
    intro g x hx
    by_cases hg : k = g
    · exact ⟨{ x with holders := x.holders + 1 }, by simp [Array.getElem?_modify, hg, hx],
        ⟨rfl, rfl, rfl⟩⟩
    · exact ⟨x, by simp [Array.getElem?_modify, hg, hx], .refl x⟩

theorem retain_untouched (n : Nat) (i : Instrument) (w : World) :
    Untouched n w (i.retain w).2 := by
  obtain ⟨gateways, hretain, hkept⟩ := retain_kept i w
  rw [hretain]
  exact ⟨rfl, fun _ _ => rfl, fun _ g _ x _ _ hx => hkept g x hx, fun _ _ ha => ha⟩

/-- A source may do what it likes to everything else. -/
theorem getOrAcquire_untouched (hsource : ∀ w, Untouched n w (source.acquire w).2) (w : World) :
    Untouched n w (Handle.getOrAcquire handle source w).2 := by
  have hacquire := hsource w
  unfold Handle.getOrAcquire
  rw [Attempt.get_bind]
  cases Handle.held handle w with
  | some i => exact .refl n w
  | none =>
    simp only
    rw [bind_apply, mapFailure]
    revert hacquire
    rcases source.acquire w with ⟨e | i, w₁⟩
    · exact id
    · intro hacquire
      have hfilled : Untouched n (i.retain w₁).2 { (i.retain w₁).2 with
          handles := (i.retain w₁).2.handles.modify handle fun h => some (h.getD i) } :=
        ⟨rfl, fun _ _ => rfl, fun _ _ _ x _ _ hx => ⟨x, hx, .refl x⟩, fun _ _ ha => ha⟩
      exact (hacquire.trans (retain_untouched n i w₁)).trans hfilled

/-- A point that gets a gateway can use it. -/
theorem pointed_serves (h : Serves n p w) (hi : p.installed = false) (inner : Instrument) :
    ∃ g w', inner.wrap w = (.gateway g inner, w') ∧ w'.caches = w.caches ∧
      Serves n { p with gateway := some (.gateway g inner) }
        { w' with points := w'.points.modify n fun q =>
          { q with gateway := some (.gateway g inner) } } := by
  obtain ⟨gateways, hretain, -⟩ := retain_kept inner w
  have hwrap : inner.wrap w = (.gateway gateways.size inner, { w with
      gateways := gateways.push { callback := w.transformers.size }
      transformers := w.transformers.push { action := .callback gateways.size } }) := by
    unfold Instrument.wrap
    rw [Action.bind_apply, hretain]
    rfl
  refine ⟨gateways.size, _, hwrap, rfl, ?_, h.room, ?_⟩
  · simp [Array.getElem?_modify, h.point]
  · exact .opened gateways.size inner { callback := w.transformers.size } rfl hi
      Array.getElem?_push_size (by simp [World.actionOf]) rfl

/-- Opening a point fails and leaves it as it was, or gives the gateway that the point then has. -/
theorem pointGateway_serves (h : Serves n p w)
    (hsource : ∀ w, Untouched n w (source.acquire w).2) :
    (∃ e w', pointGateway n handle source w = (.error e, w') ∧ Serves n p w' ∧
      ∀ name, w'.cached p.cache name = w.cached p.cache name) ∨
    ∃ g inner w', pointGateway n handle source w = (.ok (.gateway g inner), w') ∧
      Serves n { p with gateway := some (.gateway g inner) } w' ∧
      ∀ name, w'.cached p.cache name = w.cached p.cache name := by
  have hbind : w.points[n]?.bind (·.gateway) = p.gateway := by rw [h.point]; rfl
  have hready : ∀ g inner, p.gateway = some (.gateway g inner) →
      ∃ g inner w', pointGateway n handle source w = (.ok (.gateway g inner), w') ∧
        Serves n { p with gateway := some (.gateway g inner) } w' ∧
        ∀ name, w'.cached p.cache name = w.cached p.cache name := by
    intro g inner hp
    refine ⟨g, inner, w, ?_, ?_, fun _ => rfl⟩
    · unfold pointGateway
      rw [Attempt.get_bind, hbind, hp]
      rfl
    · rw [← hp]
      exact h
  have hstage := h.stage
  cases hstage with
  | opened g inner _ hp => exact .inr (hready g inner hp)
  | started g _ inner _ hp => exact .inr (hready g inner hp)
  | closed hp hi =>
    have hopen : pointGateway n handle source w = (do
        let g ← Handle.gateway handle source
        World.updatePoint n fun p => { p with gateway := some g }
        return g : Attempt Error Instrument) w := by
      unfold pointGateway
      rw [Attempt.get_bind, hbind, hp]
    obtain ⟨h₁, hcached⟩ := h.untouched (getOrAcquire_untouched hsource w)
    rw [hopen, bind_apply, Handle.gateway, bind_apply]
    revert h₁ hcached
    rcases Handle.getOrAcquire handle source w with ⟨e | i, w₁⟩
    · exact fun h₁ hcached => .inl ⟨e, w₁, rfl, h₁, hcached⟩
    · intro h₁ hcached
      obtain ⟨g, w₂, hwrap, hcaches, h₂⟩ := pointed_serves h₁ hi i
      refine .inr ⟨g, i, _, ?_, h₂, fun name => ?_⟩
      · have hlift : (liftM i.wrap : Attempt Error Instrument) w₁ =
            (.ok (i.wrap w₁).1, (i.wrap w₁).2) := rfl
        dsimp only at hwrap ⊢
        rw [hlift, hwrap]
        rfl
      · rw [← hcached]
        unfold World.cached
        rw [show ({ w₂ with points := _ } : World).caches = w₁.caches from hcaches]

/-- The class was asked for, and this came of it. -/
structure Exchange where
  cls : ClassRef
  /-- Whether there was a gateway to ask. -/
  opened : Bool
  reaction : Reaction
  answer : Except Error (Option Bytes)

namespace Exchange

def reaches (x : Exchange) : Bool := x.opened && x.reaction.lets

/-- What was shown to the callback meanwhile. -/
def shown (x : Exchange) : List ClassFileEvent := if x.reaches then x.reaction.shown else []

/-- Whether captured bytes were taken away, if there were any. -/
def fetches (x : Exchange) : Bool := x.reaches && x.reaction.result.toBool

end Exchange

/-- What an exchange does to captured bytes. -/
structure Settles (x : Exchange) (kept kept' : String → Option Bytes) : Prop where
  left : ∀ name, kept' name =
    if x.fetches ∧ name = x.cls.name then none else (lastShown name x.shown).or (kept name)
  fetched : x.fetches = true →
    x.answer = .ok ((lastShown x.cls.name x.shown).or (kept x.cls.name))
  unfetched : x.fetches = false → ∀ bytes, x.answer ≠ .ok (some bytes)

theorem lastShown_append (name : String) (earlier later : List ClassFileEvent) :
    lastShown name (earlier ++ later) = (lastShown name later).or (lastShown name earlier) := by
  simp [lastShown, List.reverse_append, List.findSome?_append]

theorem cached_capture {cache : Nat} (hk : cache < w.caches.size) (e : ClassFileEvent) :
    ∃ caches, (Transform.capture cache e w).2 = w.caching caches ∧ caches.size = w.caches.size ∧
      ∀ name, (w.caching caches).cached cache name =
        (e.bytesFor name).or (w.cached cache name) := by
  unfold ClassFileEvent.bytesFor ClassFileEvent.changes
  cases hc : e.redefined with
  | none => exact ⟨w.caches, by simp only [Transform.capture, hc]; rfl, rfl, fun name => rfl⟩
  | some c =>
    refine ⟨_, Transform.capture_eq_keeping hc, by simp, fun name => ?_⟩
    refine (World.cached_keeping hk c.name name e.bytes).trans ?_
    by_cases h : c.name = name
    · simp [h]
    · simp [h, Ne.symm h]

/-- By induction on what is shown: each class file replaces what was captured under its name. -/
theorem showAll_captures {g t u cache : Nat} (hc : w.actionOf t = some (.callback g))
    (hg : g ∈ w.inFlight) (hq : w.gateways[g]?.map (·.queue) = some [⟨u, true⟩])
    (hu : w.actionOf u = some (.capture cache)) (hk : cache < w.caches.size)
    (events : List ClassFileEvent) :
    ∃ caches, Reaction.showAll t events w = ((), w.caching caches) ∧
      caches.size = w.caches.size ∧ ∀ name, (w.caching caches).cached cache name =
        (lastShown name events).or (w.cached cache name) := by
  induction events generalizing w with
  | nil => exact ⟨w.caches, rfl, rfl, fun name => rfl⟩
  | cons e events ih =>
    obtain ⟨caches₁, hcapture, hsize₁, hcached₁⟩ := cached_capture hk e
    obtain ⟨caches, hrest, hsize, hcached⟩ :=
      ih (w := w.caching caches₁) hc hg hq hu (hk.trans_eq hsize₁.symm)
    refine ⟨caches, ?_, hsize.trans hsize₁, fun name => ?_⟩
    · have hfirst : Reaction.showAll t (e :: events) w =
          Reaction.showAll t events (Transform.run t e w).2 := rfl
      rw [hfirst, Transform.run_of_inFlight hc hg hq hu, hcapture]
      exact hrest
    · have hone : lastShown name [e] = e.bytesFor name := by
        simp [lastShown, List.findSome?_singleton]
      rw [← List.singleton_append, lastShown_append, Option.or_assoc, hone,
        show (w.caching caches).cached cache name =
          ((w.caching caches₁).caching caches).cached cache name from rfl, hcached, hcached₁]

/-- A class is asked for while the point has all that it needs. -/
theorem retransform_captures {g t cache : Nat} {x : Gateway} (hg : w.gateways[g]? = some x)
    (hc : w.actionOf x.callback = some (.callback g)) (hq : x.queue = [⟨t, true⟩])
    (ht : w.actionOf t = some (.capture cache)) (hk : cache < w.caches.size) (r : Reaction)
    (classes : List ClassRef) :
    ∃ caches, ((r.capability g).through g).retransform classes w = (r.result, w.caching caches) ∧
      caches.size = w.caches.size ∧ ∀ name, (w.caching caches).cached cache name =
        (lastShown name r.shown).or (w.cached cache name) := by
  have hg' : (w.entered g).gateways[g]? = some x := hg
  obtain ⟨caches, hshow, hsize, hcached⟩ := showAll_captures (w := w.entered g) hc
    List.mem_cons_self (by rw [hg', Option.map_some, hq]) ht hk r.shown
  refine ⟨caches, ?_, hsize, hcached⟩
  have hperform : r.perform g (w.entered g) = (r.result, (w.entered g).caching caches) := by
    unfold Reaction.perform
    rw [Attempt.get_bind, show Instrument.callbackOf g (w.entered g) = some x.callback by
      simp [Instrument.callbackOf, hg']]
    simp only
    rw [Attempt.lift_bind, hshow]
    cases r.result <;> rfl
  have hleft : ((w.entered g).caching caches).left g = w.caching caches := by
    simp [World.left, World.entered, World.caching]
  change andAlways (modify fun w => w.left g) (r.perform g) (w.entered g) = _
  rw [andAlways_apply, hperform]
  exact congrArg (Prod.mk _) hleft

theorem addTransformer_reaction {g : Nat} {x : Gateway} (hg : w.gateways[g]? = some x)
    (r : Reaction) (registration : Registration) :
    ∃ gateways x', ((r.capability g).through g).addTransformer registration w =
        ((), { w with gateways }) ∧ gateways[g]? = some x' ∧ x'.callback = x.callback ∧
      x'.queue = x.queue ++ [registration] := by
  change ∃ gateways x', (do
      unless Instrument.hasCallback g (← get) do
        if let some callback := Instrument.callbackOf g (← get) then
          (r.capability g).addTransformer ⟨callback, true⟩
        World.updateGateway g fun x => { x with installed := true }
      World.updateGateway g (·.add registration) : Action Unit) w = ((), { w with gateways }) ∧ _
  rw [Action.get_bind]
  cases hc : Instrument.hasCallback g w with
  | true =>
    exact ⟨w.gateways.modify g (·.add registration), x.add registration, rfl,
      by simp [Array.getElem?_modify, hg], rfl, rfl⟩
  | false =>
    refine ⟨(w.gateways.modify g fun x => { x with installed := true }).modify g
      (·.add registration), { x with installed := true }.add registration, ?_,
      by simp [Array.getElem?_modify, hg], rfl, rfl⟩
    simp only [Bool.false_eq_true, ↓reduceIte]
    rw [Action.get_bind]
    cases Instrument.callbackOf g w <;> rfl

/-- From its first use on, the point captures. -/
theorem ensureCaptureOver_serves {g : Nat} {inner : Instrument} (h : Serves n p w)
    (hp : p.gateway = some (.gateway g inner)) (r : Reaction) :
    ∃ w', ensureCaptureOver ((r.capability g).through g) n w = ((), w') ∧
      Serves n { p with installed := true } w' ∧ w'.caches = w.caches := by
  have hstage := h.stage
  unfold ensureCaptureOver
  rw [Action.get_bind, h.point]
  cases hstage with
  | closed hn =>
    rw [hn] at hp
    cases hp
  | started k t inner x hk hi =>
    refine ⟨w, by simp only [hi]; rfl, ?_, rfl⟩
    rw [← hi]
    exact h
  | opened k inner' x hk hi hx hc hq =>
    rw [hp] at hk
    cases hk
    let w₁ : World := { w with
      points := w.points.modify n fun p => { p with installed := true }
      transformers := w.transformers.push { action := .capture p.cache } }
    have hx₁ : w₁.gateways[g]? = some x := hx
    obtain ⟨gateways, x', hadd, hg, hcallback, hqueue⟩ :=
      addTransformer_reaction hx₁ r ⟨w.transformers.size, true⟩
    refine ⟨{ w₁ with gateways }, ?_, ⟨?_, h.room, ?_⟩, rfl⟩
    · simp only [hi]
      exact hadd
    · simp [w₁, Array.getElem?_modify, h.point]
    · refine .started g w.transformers.size inner x' hp rfl hg ?_ ?_ ?_
      · rw [hcallback]
        exact Connected.actionOf_push (w := w) _ hc
      · rw [hqueue, hq]
        rfl
      · simp [World.actionOf, w₁]

/-- What the point then has for a transformation. -/
theorem Serves.started {g : Nat} {inner : Instrument} (h : Serves n p w)
    (hp : p.gateway = some (.gateway g inner)) (hi : p.installed = true) :
    ∃ t x, w.gateways[g]? = some x ∧ w.actionOf x.callback = some (.callback g) ∧
      x.queue = [⟨t, true⟩] ∧ w.actionOf t = some (.capture p.cache) := by
  have hstage := h.stage
  cases hstage with
  | closed hn =>
    rw [hn] at hp
    cases hp
  | opened _ _ _ _ hn =>
    rw [hi] at hn
    cases hn
  | started k t _ x hk _ hx hc hq ht =>
    rw [hp] at hk
    cases hk
    exact ⟨t, x, hx, hc, hq, ht⟩

theorem Serves.caching {caches : Array Capture.Cache} (h : Serves n p w)
    (hsize : caches.size = w.caches.size) : Serves n p (w.caching caches) where
  point := h.point
  room := h.room.trans_eq hsize.symm
  stage := h.stage.mono (fun _ _ ha => ha) fun _ _ x _ hx => ⟨x, hx, .refl x⟩

/-- The point captures, and a class is transformed again. -/
theorem captureOver_letting {g : Nat} {inner : Instrument} (h : Serves n p w)
    (hp : p.gateway = some (.gateway g inner)) (hi : p.installed = true) (c : ClassRef)
    (r : Reaction) (hlets : r.lets = true) :
    ∃ answer w', (do
        ((r.capability g).through g).retransform [c]
        takeCaptured n c.name : Attempt Error (Option Bytes)) w = (answer, w') ∧
      Serves n p w' ∧ Settles ⟨c, true, r, answer⟩ (w.cached p.cache) (w'.cached p.cache) := by
  obtain ⟨t, x, hx, hc, hq, ht⟩ := h.started hp hi
  obtain ⟨caches, hrun, hsize, hcached⟩ := retransform_captures hx hc hq ht h.room r [c]
  have h₁ : Serves n p (w.caching caches) := h.caching hsize
  rw [bind_apply, hrun]
  cases hr : r.result with
  | error e =>
    refine ⟨.error e, w.caching caches, rfl, h₁, fun name => ?_, fun hf => ?_, fun _ => by simp⟩
    · simp [Exchange.fetches, Exchange.shown, Exchange.reaches, hlets, hr, hcached,
        Except.toBool]
    · simp [Exchange.fetches, hr, Except.toBool] at hf
  | ok =>
    refine ⟨.ok ((w.caching caches).cached p.cache c.name), taken p.cache c.name (w.caching caches),
      congrArg (fun r : Option Bytes × World => (Except.ok r.1, r.2))
        (takeCaptured_eq h₁.point h₁.room c.name), ?_, fun name => ?_, fun _ => ?_, fun hf => ?_⟩
    · exact ⟨h₁.point, by simpa [taken] using h₁.room,
        h₁.stage.mono (fun _ _ ha => ha) fun _ _ x _ hx => ⟨x, hx, .refl x⟩⟩
    · rw [cached_taken, hcached]
      simp [Exchange.fetches, Exchange.shown, Exchange.reaches, hlets, hr, Except.toBool]
    · simp [Exchange.shown, Exchange.reaches, hlets, hcached]
    · simp [Exchange.fetches, Exchange.reaches, hlets, hr, Except.toBool] at hf

/-- A class is asked for through the gateway of the point. -/
theorem captureOver_settles {g : Nat} {inner : Instrument} (h : Serves n p w)
    (hp : p.gateway = some (.gateway g inner)) (c : ClassRef) (r : Reaction) :
    ∃ answer w', captureOver ((r.capability g).through g) n c w = (answer, w') ∧
      Serves n { p with installed := true } w' ∧
      Settles ⟨c, true, r, answer⟩ (w.cached p.cache) (w'.cached p.cache) := by
  obtain ⟨w₁, hensure, h₁, hcaches⟩ := ensureCaptureOver_serves h hp r
  have hcached : w₁.cached p.cache = w.cached p.cache := by
    unfold World.cached
    rw [hcaches]
  have hrefused : ∀ answer : Except Error (Option Bytes), r.lets = false →
      (∀ bytes, answer ≠ .ok (some bytes)) →
      Settles ⟨c, true, r, answer⟩ (w.cached p.cache) (w₁.cached p.cache) := by
    intro answer hlets hanswer
    refine ⟨fun name => ?_, fun hf => ?_, fun _ => hanswer⟩
    · simp [Exchange.fetches, Exchange.shown, Exchange.reaches, hlets, hcached, lastShown]
    · simp [Exchange.fetches, Exchange.reaches, hlets] at hf
  have hmodifiable : ((r.capability g).through g).isModifiable c w₁ = (r.modifiable, w₁) := by
    change (MonadExcept.ofExcept r.modifiable : Attempt Error Bool) w₁ = _
    cases r.modifiable <;> rfl
  unfold captureOver
  rw [Attempt.lift_bind, hensure, Attempt.get_bind,
    show ((r.capability g).through g).supportsRetransform w₁ = r.supported from rfl]
  cases hs : r.supported with
  | false => exact ⟨.ok none, w₁, rfl, h₁, hrefused _ (by simp [Reaction.lets, hs]) (by simp)⟩
  | true =>
    simp only [Bool.not_true, Bool.false_eq_true, ↓reduceIte]
    rw [bind_apply, hmodifiable]
    cases hm : r.modifiable with
    | error e =>
      exact ⟨.error e, w₁, rfl, h₁,
        hrefused _ (by simp [Reaction.lets, hm, Except.toOption]) (by simp)⟩
    | ok modifiable =>
      cases modifiable with
      | false =>
        exact ⟨.ok none, w₁, rfl, h₁,
          hrefused _ (by simp [Reaction.lets, hm, Except.toOption]) (by simp)⟩
      | true =>
        simp only [Bool.not_true, Bool.false_eq_true, ↓reduceIte]
        rw [← hcached]
        exact captureOver_letting h₁ hp rfl c r (by simp [Reaction.lets, hs, hm, Except.toOption])

/-- A call settles, whatever the source and the instrument do. -/
theorem readOver_settles (h : Serves n p w)
    (hsource : ∀ w, Untouched n w (source.acquire w).2) (c : ClassRef)
    (r : Reaction) :
    ∃ p' answer w', readOver r.gateway n handle source c w = (answer, w') ∧ Serves n p' w' ∧
      p'.cache = p.cache ∧
      Settles ⟨c, (pointGateway n handle source w).1.toBool, r, answer⟩ (w.cached p.cache)
        (w'.cached p.cache) := by
  unfold readOver
  rw [bind_apply]
  rcases pointGateway_serves h hsource with
    ⟨e, w₁, hopen, h₁, hcached⟩ | ⟨g, inner, w₁, hopen, h₁, hcached⟩
  · rw [hopen]
    refine ⟨p, .error e, w₁, rfl, h₁, rfl, fun name => ?_, fun hf => ?_, fun _ => by simp⟩
    · simp [Exchange.fetches, Exchange.shown, Exchange.reaches, hcached, lastShown, Except.toBool]
    · simp [Exchange.fetches, Exchange.reaches, Except.toBool] at hf
  · rw [hopen]
    have h₂ := h₁.relock (p.locks.acquire c.name).2
    obtain ⟨answer, w₃, hcapture, h₃, hsettles⟩ := captureOver_settles h₂ rfl c r
    obtain ⟨locks, h₄, hcaches⟩ := releaseLock_serves h₃ c.name (p.locks.acquire c.name).1
    refine ⟨_, answer, _, ?_, h₄, rfl, ?_⟩
    · simp only
      rw [Attempt.lift_bind, acquireLock_eq h₁.point, andAlways_apply]
      exact congrArg (fun r : Except Error (Option Bytes) × World =>
        (r.1, (releaseLock n c.name (p.locks.acquire c.name).1 r.2).2)) hcapture
    · have hcached₂ : w.cached p.cache = w₁.cached p.cache := funext fun name => (hcached name).symm
      have hcached₄ : (releaseLock n c.name (p.locks.acquire c.name).1 w₃).2.cached p.cache =
          w₃.cached p.cache := by
        unfold World.cached
        rw [hcaches]
      rw [hcached₂, hcached₄]
      exact hsettles

end Collector

end ClassRecovery
