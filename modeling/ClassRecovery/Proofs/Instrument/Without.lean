import ClassRecovery.Proofs.Instrument.Callback
import ClassRecovery.Proofs.Jvm.Classes

/-!
Two states that differ in what is registered with one gateway. Operations are alike from two such
states if they give the same result and again leave two such states, and neither touches what is
registered with that gateway alone.
-/

namespace ClassRecovery

theorem map_modify {α β : Type} {g : α → β} {f : α → α} {f' : β → β} (h : ∀ x, g (f x) = f' (g x))
    (xs : Array α) (i : Nat) : (xs.modify i f).map g = (xs.map g).modify i f' := by
  apply Array.ext_getElem?
  intro k
  simp only [Array.getElem?_map, Array.getElem?_modify]
  split
  · simp [Function.comp_def, h]
  · rfl

theorem Instrument.machine_ne (gateway : Nat) (inner : Instrument) :
    machine ≠ .gateway gateway inner := by
  simp

theorem Instrument.given_ne (gateway index : Nat) (inner : Instrument) :
    given index ≠ .gateway gateway inner := by
  simp

namespace TransformerAction

/-- It does not work on instruments itself. -/
def Plain : TransformerAction → Prop
  | .retransform _ _ | .add _ _ | .remove _ _ => False
  | _ => True

end TransformerAction

def GivenInstrument.withQueue (queue : List Registration) (i : GivenInstrument) : GivenInstrument :=
  { i with queue }

namespace World

/-- What is registered but for the callback of the gateway. -/
def beside (gateway : Nat) (w : World) (queue : List Registration) : List Registration :=
  queue.filter fun r => w.actionOf r.transformer ≠ some (.callback gateway)

/-- The state as it were if nothing had been registered with the gateway. -/
def without (gateway : Nat) (w : World) : World :=
  { w with
    gateways := (w.gateways.map fun x => { x with queue := w.beside gateway x.queue }).modify
      gateway fun x => { x with queue := [], installed := false }
    instruments := w.instruments.map fun i => i.withQueue (w.beside gateway i.queue)
    hook := w.hook.map fun h => { h with queue := w.beside gateway h.queue } }

def unlinked (w : World) : World := { w with link := {} }

/-- The transformer is registered somewhere else than with the gateway. -/
def Elsewhere (gateway : Nat) (w : World) (t : Nat) : Prop :=
  ∃ on : Instrument, ∃ r ∈ on.queue (w.without gateway), r.transformer = t

/-- The machine has somebody else to call. -/
def Audible (gateway : Nat) (w : World) : Prop :=
  Instrument.machine.queue (w.without gateway) ≠ []

variable {gateway : Nat} {w w' : World}

theorem beside_congr (h : w'.actionOf = w.actionOf) : w'.beside gateway = w.beside gateway := by
  funext queue
  unfold beside
  rw [h]

/-- Only these parts of the state matter for what is registered elsewhere. -/
theorem without_congr (hact : w'.actionOf = w.actionOf) (hgateways : w'.gateways = w.gateways)
    (hinstruments : w'.instruments = w.instruments) (hhook : w'.hook = w.hook) :
    w'.without gateway = { w' with
      gateways := (w.without gateway).gateways
      instruments := (w.without gateway).instruments
      hook := (w.without gateway).hook } := by
  unfold without
  rw [beside_congr hact, hgateways, hinstruments, hhook]

theorem queue_without (on : Instrument) (hon : ∀ inner, on ≠ .gateway gateway inner) :
    on.queue (w.without gateway) = w.beside gateway (on.queue w) := by
  cases on with
  | machine =>
    simp only [Instrument.queue, without, Option.map_map]
    cases w.hook <;> rfl
  | given index =>
    simp only [Instrument.queue, without, Array.getElem?_map]
    cases w.instruments[index]? <;> rfl
  | gateway other inner =>
    have hne : gateway ≠ other := fun he => hon inner (he ▸ rfl)
    simp only [Instrument.queue, without, Array.getElem?_modify, if_neg hne, Array.getElem?_map]
    cases w.gateways[other]? <;> rfl

theorem queue_without_self (inner : Instrument) :
    (Instrument.gateway gateway inner).queue (w.without gateway) = [] := by
  simp only [Instrument.queue, without, Array.getElem?_modify, if_pos]
  cases (w.gateways.map _)[gateway]? <;> rfl

theorem elsewhere_of_mem {on : Instrument} (hon : ∀ inner, on ≠ .gateway gateway inner)
    {r : Registration} (hr : r ∈ w.beside gateway (on.queue w)) :
    w.Elsewhere gateway r.transformer :=
  ⟨on, r, queue_without on hon ▸ hr, rfl⟩

end World

/-- Two states that differ in what is registered with the gateway, and may differ in what the
machine was asked about its classes as long as it would call nobody else. The gateway is not at work,
and the transformers that others registered do not work on instruments. -/
structure Twin (gateway : Nat) (w w' : World) : Prop where
  apart : (w.without gateway).unlinked = (w'.without gateway).unlinked
  idle : gateway ∉ w.inFlight
  plain : ∀ t, w.Elsewhere gateway t → ∀ x, w.actionOf t = some x → x.Plain
  classes : w.link.classes = w'.link.classes
  link : w.Audible gateway → w.link = w'.link

/-- What is registered with the gateway alone stays as it is. -/
structure Spares (gateway : Nat) (w v : World) : Prop where
  actions : v.actionOf = w.actionOf
  elsewhere : ∀ t, v.Elsewhere gateway t ↔ w.Elsewhere gateway t
  audible : v.Audible gateway ↔ w.Audible gateway
  spared : ∀ t, ¬ w.Elsewhere gateway t → v.transformers[t]? = w.transformers[t]?

namespace Spares

variable {gateway : Nat} {w v v' : World}

theorem refl (gateway : Nat) (w : World) : Spares gateway w w :=
  ⟨rfl, fun _ => .rfl, .rfl, fun _ _ => rfl⟩

theorem trans (h : Spares gateway w v) (h' : Spares gateway v v') : Spares gateway w v' where
  actions := h'.actions.trans h.actions
  elsewhere t := (h'.elsewhere t).trans (h.elsewhere t)
  audible := h'.audible.trans h.audible
  spared t ht := (h'.spared t (mt (h.elsewhere t).mp ht)).trans (h.spared t ht)

end Spares

namespace Twin

variable {gateway : Nat} {w w' : World}

theorem transformers (h : Twin gateway w w') : w.transformers = w'.transformers := by
  have := congrArg World.transformers h.apart
  exact this

theorem inFlight (h : Twin gateway w w') : w.inFlight = w'.inFlight := by
  have := congrArg World.inFlight h.apart
  exact this

theorem depthLimit (h : Twin gateway w w') : Transform.depthLimit w = Transform.depthLimit w' := by
  have hsize : (w.without gateway).gateways.size = (w'.without gateway).gateways.size :=
    congrArg (·.gateways.size) h.apart
  simp only [World.without, Array.size_modify, Array.size_map] at hsize
  unfold Transform.depthLimit
  rw [h.transformers, hsize]

theorem actionOf (h : Twin gateway w w') : w.actionOf = w'.actionOf := by
  unfold World.actionOf
  rw [h.transformers]

theorem queue (h : Twin gateway w w') (on : Instrument) :
    on.queue (w.without gateway) = on.queue (w'.without gateway) := by
  have := congrArg on.queue h.apart
  cases on <;> exact this

theorem elsewhere (h : Twin gateway w w') (t : Nat) :
    w.Elsewhere gateway t ↔ w'.Elsewhere gateway t := by
  unfold World.Elsewhere
  simp only [h.queue]

theorem audible (h : Twin gateway w w') : w.Audible gateway ↔ w'.Audible gateway := by
  unfold World.Audible
  rw [h.queue]

theorem symm (h : Twin gateway w w') : Twin gateway w' w where
  apart := h.apart.symm
  idle := h.inFlight ▸ h.idle
  plain t ht x hx := h.plain t ((h.elsewhere t).mpr ht) x (by rw [h.actionOf]; exact hx)
  classes := h.classes.symm
  link ha := (h.link (h.audible.mpr ha)).symm

/-- A given instrument is the same in both states but for its queue. -/
theorem instrument (h : Twin gateway w w') {index : Nat} {i : GivenInstrument}
    (hi : w.instruments[index]? = some i) :
    ∃ queue, w'.instruments[index]? = some (i.withQueue queue) := by
  have hmap : (w.without gateway).instruments[index]? = (w'.without gateway).instruments[index]? :=
    congrArg (·.instruments[index]?) h.apart
  simp only [World.without, Array.getElem?_map, hi, Option.map_some] at hmap
  obtain ⟨i', hi', he⟩ := Option.map_eq_some_iff.mp hmap.symm
  refine ⟨i'.queue, hi'.trans (congrArg some ?_)⟩
  have hqueue := congrArg (GivenInstrument.withQueue i'.queue) he
  exact hqueue

theorem hook (h : Twin gateway w w') {hook : Hook} (hw : w.hook = some hook) :
    ∃ queue, w'.hook = some { hook with queue } := by
  have hmap : (w.without gateway).hook = (w'.without gateway).hook :=
    congrArg (·.hook) h.apart
  simp only [World.without, hw, Option.map_some] at hmap
  obtain ⟨hook', hw', he⟩ := Option.map_eq_some_iff.mp hmap.symm
  refine ⟨hook'.queue, hw'.trans (congrArg some ?_)⟩
  have hqueue := congrArg (fun x : Hook => { x with queue := hook'.queue }) he
  exact hqueue

theorem left (h : Twin gateway w w') : Twin gateway w w :=
  ⟨rfl, h.idle, h.plain, rfl, fun _ => rfl⟩

end Twin

/-- Two queues that agree but for callbacks of the gateway. -/
structure SameBeside (gateway : Nat) (w w' : World) (queue queue' : List Registration) : Prop where
  beside : w.beside gateway queue = w'.beside gateway queue'
  elsewhere : ∀ r ∈ w.beside gateway queue, w.Elsewhere gateway r.transformer

section Relations

variable {gateway : Nat} {w w' v v' : World}

theorem SameBeside.mono {queue queue' : List Registration}
    (h : SameBeside gateway w w' queue queue') (hs : Spares gateway w v)
    (hs' : Spares gateway w' v') : SameBeside gateway v v' queue queue' where
  beside := by
    rw [World.beside_congr hs.actions, World.beside_congr hs'.actions]
    exact h.beside
  elsewhere r hr := by
    rw [World.beside_congr hs.actions] at hr
    exact (hs.elsewhere _).mpr (h.elsewhere r hr)

/-- Where somebody else listens, the machine must have been asked the same. -/
theorem Twin.relink (h : Twin gateway w w') {l l' : Jvm.Link} (hclasses : l.classes = l'.classes)
    (hl : w.Audible gateway → l = l') :
    Twin gateway { w with link := l } { w' with link := l' } where
  apart := h.apart
  idle := h.idle
  plain := h.plain
  classes := hclasses
  link := hl

theorem Spares.relink (gateway : Nat) (w : World) (l : Jvm.Link) :
    Spares gateway w { w with link := l } :=
  ⟨rfl, fun _ => .rfl, .rfl, fun _ _ => rfl⟩

end Relations

/-- The same comes of the one operation from the one state and of the other from the other. -/
structure Alike {α : Type} (gateway : Nat) (x x' : Action α) (w w' : World) : Prop where
  result : (x w).1 = (x' w').1
  twin : Twin gateway (x w).2 (x' w').2
  spares : Spares gateway w (x w).2
  spares' : Spares gateway w' (x' w').2

namespace Alike

variable {ε δ α β : Type} {gateway : Nat} {w w' : World}

theorem pure (v : α) (h : Twin gateway w w') :
    Alike gateway (pure v : Action α) (pure v) w w' :=
  ⟨rfl, h, .refl gateway w, .refl gateway w'⟩

/-- What follows is looked at from the states that were reached. -/
theorem followed {x x' : Action α} {f f' : α → Action β} (hx : Alike gateway x x' w w')
    (hf : Alike gateway (f (x w).1) (f' (x w).1) (x w).2 (x' w').2) :
    Alike gateway (x >>= f) (x' >>= f') w w' := by
  refine ⟨?_, ?_, hx.spares.trans hf.spares, ?_⟩
  · rw [Action.bind_apply, Action.bind_apply, ← hx.result]
    exact hf.result
  · rw [Action.bind_apply, Action.bind_apply, ← hx.result]
    exact hf.twin
  · rw [Action.bind_apply, ← hx.result]
    exact hx.spares'.trans hf.spares'

theorem bind {x x' : Action α} {f f' : α → Action β} (hx : Alike gateway x x' w w')
    (hf : ∀ v w₁ w₁', Spares gateway w w₁ → Spares gateway w' w₁' → Twin gateway w₁ w₁' →
      Alike gateway (f v) (f' v) w₁ w₁') :
    Alike gateway (x >>= f) (x' >>= f') w w' :=
  hx.followed (hf _ _ _ hx.spares hx.spares' hx.twin)

theorem attempted {x x' : Attempt ε α} {f f' : α → Attempt ε β} (hx : Alike gateway x x' w w')
    (hf : ∀ v, Alike gateway (f v) (f' v) (x w).2 (x' w').2) :
    Alike gateway (x >>= f : Attempt ε β) (x' >>= f' : Attempt ε β) w w' := by
  change Alike gateway ((x : Action (Except ε α)) >>= (ExceptT.bindCont f : _ → Action _))
    ((x' : Action (Except ε α)) >>= (ExceptT.bindCont f' : _ → Action _)) w w'
  refine hx.followed ?_
  cases (x w).1 with
  | ok v => exact hf v
  | error e => exact .pure (Except.error e) hx.twin

theorem attempt {x x' : Attempt ε α} {f f' : α → Attempt ε β} (hx : Alike gateway x x' w w')
    (hf : ∀ v w₁ w₁', Spares gateway w w₁ → Spares gateway w' w₁' → Twin gateway w₁ w₁' →
      Alike gateway (f v) (f' v) w₁ w₁') :
    Alike gateway (x >>= f : Attempt ε β) (x' >>= f' : Attempt ε β) w w' :=
  hx.attempted fun v => hf v _ _ hx.spares hx.spares' hx.twin

/-- Only what the operations do from here matters. -/
theorem of_eq {x x' y y' : Action α} (h : Alike gateway x x' w w') (hy : y w = x w)
    (hy' : y' w' = x' w') : Alike gateway y y' w w' := by
  obtain ⟨hresult, htwin, hspares, hspares'⟩ := h
  exact ⟨by rw [hy, hy', hresult], by rw [hy, hy']; exact htwin, by rw [hy]; exact hspares,
    by rw [hy']; exact hspares'⟩

theorem lift {x x' : Action α} (h : Alike gateway x x' w w') :
    Alike gateway (liftM x : Attempt ε α) (liftM x' : Attempt ε α) w w' :=
  ⟨congrArg Except.ok h.result, h.twin, h.spares, h.spares'⟩

theorem mapFailure {x x' : Attempt ε α} {f : ε → δ} (h : Alike gateway x x' w w') :
    Alike gateway (mapFailure f x) (mapFailure f x') w w' := by
  obtain ⟨hresult, htwin, hspares, hspares'⟩ := h
  unfold ClassRecovery.mapFailure
  rcases hx : x w with ⟨e | a, v⟩ <;> rcases hx' : x' w' with ⟨e' | a', v'⟩ <;>
    rw [hx] at hresult htwin hspares <;> rw [hx'] at hresult htwin hspares' <;> cases hresult <;>
    exact ⟨by simp only [hx, hx'], by simpa only [hx, hx'] using htwin,
      by simpa only [hx] using hspares, by simpa only [hx'] using hspares'⟩

theorem andAlways {x x' : Attempt ε α} {cleanup : Action Unit} (hx : Alike gateway x x' w w')
    (hc : ∀ v v', Twin gateway v v' → Alike gateway cleanup cleanup v v') :
    Alike gateway (andAlways cleanup x) (andAlways cleanup x') w w' := by
  obtain ⟨-, htwin, hspares, hspares'⟩ := hc _ _ hx.twin
  exact ⟨hx.result, htwin, hx.spares.trans hspares, hx.spares'.trans hspares'⟩

theorem forM {f : β → Attempt ε PUnit} (l : List β) (ht : Twin gateway w w')
    (hf : ∀ b v v', Twin gateway v v' → Alike gateway (f b) (f b) v v') :
    Alike gateway (l.forM f : Attempt ε PUnit) (l.forM f : Attempt ε PUnit) w w' := by
  induction l generalizing w w' with
  | nil => exact .pure (Except.ok ()) ht
  | cons b rest ih => exact (hf b w w' ht).attempt fun _ _ _ _ _ ht₁ => ih ht₁

/-- Both machines are asked the same, and are in the same state before. -/
theorem onLink {x : StateM Jvm.Link α} (hlink : w.link = w'.link) (ht : Twin gateway w w') :
    Alike gateway (World.onLink x) (World.onLink x) w w' := by
  have hx : x w.link = x w'.link := by rw [hlink]
  exact ⟨congrArg (·.1) hx, ht.relink (congrArg (·.2.classes) hx) fun _ => congrArg (·.2) hx,
    .relink gateway w _, .relink gateway w' _⟩

theorem attemptLink {x : ExceptT ε (StateM Jvm.Link) α} (hlink : w.link = w'.link)
    (ht : Twin gateway w w') :
    Alike gateway (World.attemptLink x : Attempt ε α) (World.attemptLink x : Attempt ε α) w w' :=
  onLink (x := x) hlink ht

theorem get {f f' : World → Action α} (h : Alike gateway (f w) (f' w') w w') :
    Alike gateway (get >>= f) (get >>= f') w w' :=
  h.of_eq rfl rfl

theorem read {f f' : World → Attempt ε α} (h : Alike gateway (f w) (f' w') w w') :
    Alike gateway (MonadState.get >>= f : Attempt ε α) (MonadState.get >>= f' : Attempt ε α) w w' :=
  h.of_eq rfl rfl

end Alike

/-- An update that makes no difference to what is registered. -/
structure Unobtrusive (gateway : Nat) (op : World → World) : Prop where
  commutes : ∀ v, ((op v).without gateway).unlinked = op (v.without gateway).unlinked
  queues : ∀ (on : Instrument) v, on.queue (op v) = on.queue v
  actions : ∀ v, (op v).actionOf = v.actionOf
  link : ∀ v, (op v).link = v.link
  idle : ∀ v, gateway ∉ v.inFlight → gateway ∉ (op v).inFlight

namespace Unobtrusive

variable {gateway : Nat} {op : World → World} {w w' : World}

theorem queue (h : Unobtrusive gateway op) (on : Instrument) (v : World) :
    on.queue ((op v).without gateway) = on.queue (v.without gateway) := by
  have hcommutes : on.queue ((op v).without gateway).unlinked = _ :=
    congrArg on.queue (h.commutes v)
  rw [h.queues] at hcommutes
  cases on <;> exact hcommutes

theorem elsewhere (h : Unobtrusive gateway op) (v : World) (t : Nat) :
    (op v).Elsewhere gateway t ↔ v.Elsewhere gateway t := by
  unfold World.Elsewhere
  simp only [h.queue]

theorem audible (h : Unobtrusive gateway op) (v : World) :
    (op v).Audible gateway ↔ v.Audible gateway := by
  unfold World.Audible
  rw [h.queue]

theorem twin (h : Unobtrusive gateway op) (ht : Twin gateway w w') :
    Twin gateway (op w) (op w') where
  apart := by rw [h.commutes, h.commutes, ht.apart]
  idle := h.idle w ht.idle
  plain t hw x hx := ht.plain t ((h.elsewhere w t).mp hw) x (by rw [← h.actions]; exact hx)
  classes := by rw [h.link, h.link, ht.classes]
  link ha := by rw [h.link, h.link, ht.link ((h.audible w).mp ha)]

theorem spares (h : Unobtrusive gateway op) (hspared : ∀ t, ¬ w.Elsewhere gateway t →
    (op w).transformers[t]? = w.transformers[t]?) : Spares gateway w (op w) :=
  ⟨h.actions w, h.elsewhere w, h.audible w, hspared⟩

theorem modify (h : Unobtrusive gateway op) (hsame : ∀ v, (op v).transformers = v.transformers)
    (ht : Twin gateway w w') : Alike gateway (modify op) (modify op) w w' :=
  ⟨rfl, h.twin ht, h.spares fun t _ => by rw [hsame], h.spares fun t _ => by rw [hsame]⟩

theorem entered {other : Nat} (hother : other ≠ gateway) :
    Unobtrusive gateway fun v => { v with inFlight := other :: v.inFlight } where
  commutes _ := rfl
  queues on _ := by cases on <;> rfl
  actions _ := rfl
  link _ := rfl
  idle v hv hin := (List.mem_cons.mp hin).elim (fun he => hother he.symm) hv

theorem left (other : Nat) :
    Unobtrusive gateway fun v => { v with inFlight := v.inFlight.erase other } where
  commutes _ := rfl
  queues on _ := by cases on <;> rfl
  actions _ := rfl
  link _ := rfl
  idle v hv hin := hv (List.mem_of_mem_erase hin)

theorem cached (cache : Nat) (f : Capture.Cache → Capture.Cache) :
    Unobtrusive gateway fun v => { v with caches := v.caches.modify cache f } where
  commutes _ := rfl
  queues on _ := by cases on <;> rfl
  actions _ := rfl
  link _ := rfl
  idle _ hv := hv

theorem updateInstrument (gateway index : Nat) {f : GivenInstrument → GivenInstrument}
    (hf : ∀ queue i, f (i.withQueue queue) = (f i).withQueue queue) :
    Unobtrusive gateway fun v => { v with instruments := v.instruments.modify index f } := by
  have hqueue : ∀ i, (f i).queue = i.queue := fun i => by
    have := congrArg GivenInstrument.queue (hf i.queue i)
    exact this
  refine ⟨fun v => ?_, fun on v => ?_, fun _ => rfl, fun _ => rfl, fun _ hv => hv⟩
  · have hmap : (v.instruments.modify index f).map
          (fun i => i.withQueue (v.beside gateway i.queue)) =
        (v.instruments.map fun i => i.withQueue (v.beside gateway i.queue)).modify index f :=
      map_modify (fun i => by rw [hf, hqueue]) v.instruments index
    exact congrArg (fun instruments => { (v.without gateway).unlinked with instruments }) hmap
  · cases on with
    | given k => exact congrArg (·.getD []) (map_getElem?_modify hqueue k)
    | _ => rfl

theorem updateTransformer (gateway t : Nat) {f : Transformer → Transformer}
    (hf : ∀ x, (f x).action = x.action) :
    Unobtrusive gateway fun v => { v with transformers := v.transformers.modify t f } := by
  have hact : ∀ v : World,
      ({ v with transformers := v.transformers.modify t f } : World).actionOf = v.actionOf :=
    fun v => funext fun k => map_getElem?_modify hf k
  exact
    { commutes := fun v => by rw [World.without_congr (hact v) rfl rfl rfl]; rfl
      queues := fun on _ => by cases on <;> rfl
      actions := hact
      link := fun _ => rfl
      idle := fun _ hv => hv }

end Unobtrusive

end ClassRecovery
