import Mathlib
import ClassRecovery.Proofs.Instrument.Registering

/-!
Where the callbacks of gateways are. Each of several gateways over one instrument has a callback of
its own, and what is registered with the instrument is such a callback or was there before the first
of the gateways.
-/

namespace ClassRecovery.Instrument

open Threads (register unregister)

variable {inner : Instrument} {n k g : Nat} {base : List Registration} {created : List Nat}
  {w w' w'' : World}

/-- The registrations of the callback of a gateway. -/
def listed (inner : Instrument) (g : Nat) (w : World) : List Registration :=
  (inner.queue w).filter fun r => callbackOf g w = some r.transformer

/-- What the callback of a gateway is registered as. -/
def entry (g : Nat) (w : World) : List Registration :=
  ((callbackOf g w).map (⟨·, true⟩)).toList

def Listed (inner : Instrument) (g : Nat) (w : World) (there : Bool) : Prop :=
  listed inner g w = if there then entry g w else []

theorem listed_of_callback {callback : Nat} (h : callbackOf g w = some callback) :
    listed inner g w = (inner.queue w).filter (·.transformer = callback) := by
  simp only [listed, h, Option.some.injEq, eq_comm]

theorem listed_true_iff {callback : Nat} (h : callbackOf g w = some callback) :
    Listed inner g w true ↔
      (inner.queue w).filter (·.transformer = callback) = [⟨callback, true⟩] := by
  rw [Listed, listed_of_callback h, entry, h]
  rfl

theorem listed_false_iff {callback : Nat} (h : callbackOf g w = some callback) :
    Listed inner g w false ↔ (inner.queue w).filter (·.transformer = callback) = [] := by
  rw [Listed, listed_of_callback h]
  rfl

/-- Nothing changes about the callback of a gateway. -/
structure Same (inner : Instrument) (g : Nat) (w w' : World) : Prop where
  callback : callbackOf g w' = callbackOf g w
  installed : hasCallback g w' = hasCallback g w
  held : holders g w' = 0 ↔ holders g w = 0
  listed : listed inner g w' = listed inner g w

namespace Same

theorem refl (inner : Instrument) (g : Nat) (w : World) : Same inner g w w := ⟨rfl, rfl, .rfl, rfl⟩

theorem trans (h : Same inner g w w') (h' : Same inner g w' w'') : Same inner g w w'' where
  callback := h'.callback.trans h.callback
  installed := h'.installed.trans h.installed
  held := h'.held.trans h.held
  listed := h'.listed.trans h.listed

theorem listed_iff (h : Same inner g w w') (there : Bool) :
    Listed inner g w' there ↔ Listed inner g w there := by
  rw [Listed, Listed, h.listed, entry, entry, h.callback]

end Same

/-- Nothing changes that gateways are about, nor what is registered; more may be there. -/
structure Calm (inner : Instrument) (created : List Nat) (w w' : World) : Prop where
  isThere : inner.isThere w = true → inner.isThere w' = true
  queue : inner.queue w' = inner.queue w
  gateways : w.gateways.size ≤ w'.gateways.size
  transformers : w.transformers.size ≤ w'.transformers.size
  callback : ∀ g ∈ created, callbackOf g w' = callbackOf g w
  action : ∀ g ∈ created, callbackAction g w' = callbackAction g w

/-- The callbacks of the gateways `created`, which have numbers from `n` on, and whose callbacks
have numbers from `k` on. What was registered before is `base`. -/
structure Placed (inner : Instrument) (n k : Nat) (base : List Registration) (created : List Nat)
    (w : World) : Prop where
  isThere : inner.isThere w = true
  gateways : n ≤ w.gateways.size
  transformers : k ≤ w.transformers.size
  made : ∀ g ∈ created, n ≤ g ∧ g < w.gateways.size
  callback : ∀ g ∈ created, ∃ callback, callbackOf g w = some callback ∧ k ≤ callback
  action : ∀ g ∈ created, callbackAction g w = some (.callback g)
  known : ∀ r ∈ inner.queue w,
    r.transformer < k ∨ ∃ g ∈ created, callbackOf g w = some r.transformer
  others : (inner.queue w).filter (·.transformer < k) = base

namespace Calm

theorem listed (h : Calm inner created w w') (hg : g ∈ created) :
    listed inner g w' = listed inner g w := by
  rw [Instrument.listed, Instrument.listed, h.queue, h.callback g hg]

theorem listed_iff (h : Calm inner created w w') (hg : g ∈ created) (there : Bool) :
    Listed inner g w' there ↔ Listed inner g w there := by
  rw [Listed, Listed, h.listed hg, entry, entry, h.callback g hg]

theorem same (h : Calm inner created w w') (hg : g ∈ created)
    (hinstalled : hasCallback g w' = hasCallback g w) (hheld : holders g w' = 0 ↔ holders g w = 0) :
    Same inner g w w' :=
  ⟨h.callback g hg, hinstalled, hheld, h.listed hg⟩

end Calm

theorem callbackOf_of_gateway (h : w'.gateways[g]? = w.gateways[g]?) :
    callbackOf g w' = callbackOf g w := by rw [callbackOf, callbackOf, h]

theorem hasCallback_of_gateway (h : w'.gateways[g]? = w.gateways[g]?) :
    hasCallback g w' = hasCallback g w := by rw [hasCallback, hasCallback, h]

theorem holders_of_gateway (h : w'.gateways[g]? = w.gateways[g]?) :
    holders g w' = holders g w := by rw [holders, holders, h]

theorem callbackAction_congr (h : callbackOf g w' = callbackOf g w)
    (ht : w'.transformers = w.transformers) : callbackAction g w' = callbackAction g w := by
  rw [callbackAction, callbackAction, h, ht]

/-- What is made later plays no part in what an instrument is. -/
theorem queue_of_gateways (hbelow : inner.Below n)
    (hgateways : ∀ j < n, w'.gateways[j]? = w.gateways[j]?) (hhook : w'.hook = w.hook)
    (hinstruments : w'.instruments = w.instruments) : inner.queue w' = inner.queue w := by
  cases inner with
  | machine => exact congrArg (fun h : Option Hook => (h.map (·.queue)).getD []) hhook
  | given index => rw [queue_given, queue_given, hinstruments]
  | gateway j _ => rw [queue_gateway, queue_gateway, hgateways j hbelow.1]

theorem updateGateway_getElem?_of_ne {j : Nat} (h : g ≠ j) (f : Gateway → Gateway) (w : World) :
    (World.updateGateway g f w).2.gateways[j]? = w.gateways[j]? :=
  (Array.getElem?_modify ..).trans (if_neg h)

theorem isThere_updateGateway (i : Instrument) (g : Nat) (f : Gateway → Gateway) (w : World) :
    i.isThere (World.updateGateway g f w).2 = i.isThere w := by
  cases i with
  | machine => rfl
  | given _ => rfl
  | gateway _ _ =>
    have hsize : (w.gateways.modify g f).size = w.gateways.size := Array.size_modify
    exact congrArg (fun size => decide (_ < size)) hsize

theorem callbackOf_updateGateway {f : Gateway → Gateway} (hf : ∀ x, (f x).callback = x.callback)
    (g j : Nat) (w : World) : callbackOf j (World.updateGateway g f w).2 = callbackOf j w :=
  map_getElem?_modify hf j

theorem hasCallback_updateGateway {f : Gateway → Gateway}
    (hf : ∀ x, (f x).installed = x.installed) (g j : Nat) (w : World) :
    hasCallback j (World.updateGateway g f w).2 = hasCallback j w :=
  congrArg (·.getD false) (map_getElem?_modify hf j)

theorem holders_updateGateway (f : Gateway → Gateway) (hf : ∀ x, (f x).holders = x.holders)
    (g j : Nat) (w : World) : holders j (World.updateGateway g f w).2 = holders j w :=
  congrArg (·.getD 0) (map_getElem?_modify hf j)

theorem exists_of_holders (h : holders g w ≠ 0) :
    ∃ x, w.gateways[g]? = some x ∧ holders g w = x.holders := by
  cases hx : w.gateways[g]? with
  | none =>
    rw [holders, hx] at h
    exact absurd rfl h
  | some x => exact ⟨x, rfl, by rw [holders, hx]; rfl⟩

theorem holders_updateGateway_self {x : Gateway} (hx : w.gateways[g]? = some x)
    (f : Gateway → Gateway) : holders g (World.updateGateway g f w).2 = (f x).holders := by
  rw [holders, updateGateway_getElem?, hx]
  rfl

theorem holders_updateGateway_of_ne {j : Nat} (h : g ≠ j) (f : Gateway → Gateway) (w : World) :
    holders j (World.updateGateway g f w).2 = holders j w :=
  holders_of_gateway (updateGateway_getElem?_of_ne h f w)

theorem calm_updateGateway {f : Gateway → Gateway} (hbelow : inner.Below n) (hg : n ≤ g)
    (hf : ∀ x, (f x).callback = x.callback) (created : List Nat) (w : World) :
    Calm inner created w (World.updateGateway g f w).2 where
  isThere := by
    rw [isThere_updateGateway]
    exact id
  queue := queue_of_gateways hbelow
    (fun j hj => updateGateway_getElem?_of_ne (by omega) f w) rfl rfl
  gateways := Array.size_modify.ge
  transformers := le_rfl
  callback j _ := callbackOf_updateGateway hf g j w
  action j _ := callbackAction_congr (callbackOf_updateGateway hf g j w) rfl

theorem calm_sameFrom (h : World.SameFrom n w w') (hcreated : ∀ g ∈ created, n ≤ g)
    (hqueue : inner.queue w' = inner.queue w) : Calm inner created w w' where
  isThere := by
    rw [h.isThere]
    exact id
  queue := hqueue
  gateways := h.size.ge
  transformers := (congrArg Array.size h.transformers).ge
  callback g hg := callbackOf_of_gateway (h.gateways g (hcreated g hg))
  action g hg := callbackAction_congr
    (callbackOf_of_gateway (h.gateways g (hcreated g hg))) h.transformers

theorem sameFrom_register (hbelow : inner.Below n) (g : Nat) (w : World) :
    World.SameFrom n w (register inner g w) :=
  register_sameFrom g fun r => addTransformer_sameFrom hbelow r w

theorem sameFrom_unregister (hbelow : inner.Below n) (g : Nat) (w : World) :
    World.SameFrom n w (unregister inner g w) := by
  unfold Threads.unregister
  split
  · split
    · exact removeTransformer_sameFrom hbelow _ w
    · exact .refl n w
  · exact .refl n w

theorem wrap_world (inner : Instrument) (w : World) :
    (inner.wrap w).2 =
      let w' := (inner.retain w).2
      { w' with
        transformers := w'.transformers.push { action := .callback w'.gateways.size }
        gateways := w'.gateways.push { callback := w'.transformers.size } } := rfl

namespace Placed

theorem le_of_mem (h : Placed inner n k base created w) : ∀ g ∈ created, n ≤ g :=
  fun g hg => (h.made g hg).1

/-- No two gateways share a callback. -/
theorem eq_of_callbackOf (h : Placed inner n k base created w) {g j callback : Nat}
    (hg : g ∈ created) (hj : j ∈ created) (hcg : callbackOf g w = some callback)
    (hcj : callbackOf j w = some callback) : g = j := by
  have heq : callbackAction g w = callbackAction j w := by
    rw [callbackAction, callbackAction, hcg, hcj]
  rw [h.action g hg, h.action j hj] at heq
  cases heq
  rfl

theorem callback_lt (h : Placed inner n k base created w) {callback : Nat} (hg : g ∈ created)
    (hcallback : callbackOf g w = some callback) : callback < w.transformers.size := by
  have haction := h.action g hg
  rw [callbackAction, hcallback, Option.bind_some] at haction
  by_contra hge
  rw [Array.getElem?_eq_none (not_lt.mp hge)] at haction
  cases haction

theorem calm (h : Placed inner n k base created w) (hcalm : Calm inner created w w') :
    Placed inner n k base created w' where
  isThere := hcalm.isThere h.isThere
  gateways := h.gateways.trans hcalm.gateways
  transformers := h.transformers.trans hcalm.transformers
  made g hg := ⟨(h.made g hg).1, (h.made g hg).2.trans_le hcalm.gateways⟩
  callback g hg := by
    rw [hcalm.callback g hg]
    exact h.callback g hg
  action g hg := by
    rw [hcalm.action g hg]
    exact h.action g hg
  known r hr := by
    rw [hcalm.queue] at hr
    refine (h.known r hr).imp_right fun ⟨g, hg, hc⟩ => ⟨g, hg, ?_⟩
    rw [hcalm.callback g hg, hc]
  others := by rw [hcalm.queue, h.others]

/-- Something was registered or taken out. -/
theorem sameFrom (h : Placed inner n k base created w) (hsame : World.SameFrom n w w')
    (hknown : ∀ r ∈ inner.queue w',
      r.transformer < k ∨ ∃ g ∈ created, callbackOf g w = some r.transformer)
    (hothers : (inner.queue w').filter (·.transformer < k) = base) :
    Placed inner n k base created w' where
  isThere := by rw [hsame.isThere, h.isThere]
  gateways := h.gateways.trans hsame.size.ge
  transformers := h.transformers.trans (congrArg Array.size hsame.transformers).ge
  made g hg := ⟨(h.made g hg).1, (h.made g hg).2.trans_eq hsame.size.symm⟩
  callback g hg := by
    rw [callbackOf_of_gateway (hsame.gateways g (h.le_of_mem g hg))]
    exact h.callback g hg
  action g hg := by
    rw [callbackAction_congr (callbackOf_of_gateway (hsame.gateways g (h.le_of_mem g hg)))
      hsame.transformers]
    exact h.action g hg
  known r hr := by
    refine (hknown r hr).imp_right fun ⟨g, hg, hc⟩ => ⟨g, hg, ?_⟩
    rw [callbackOf_of_gateway (hsame.gateways g (h.le_of_mem g hg)), hc]
  others := hothers

theorem same_of_sameFrom (h : Placed inner n k base created w) (hsame : World.SameFrom n w w')
    (hg : g ∈ created) (hlisted : ∀ callback, callbackOf g w = some callback →
      (inner.queue w').filter (·.transformer = callback) =
        (inner.queue w).filter (·.transformer = callback)) : Same inner g w w' := by
  have hgateway := hsame.gateways g (h.le_of_mem g hg)
  refine ⟨callbackOf_of_gateway hgateway, hasCallback_of_gateway hgateway,
    by rw [holders_of_gateway hgateway], ?_⟩
  obtain ⟨callback, hcallback, -⟩ := h.callback g hg
  rw [listed_of_callback hcallback,
    listed_of_callback ((callbackOf_of_gateway hgateway).trans hcallback), hlisted _ hcallback]

section Wrap

theorem gateways_wrap (hbelow : inner.Below n) {j : Nat} (hj : n ≤ j) (hlt : j < w.gateways.size) :
    (inner.wrap w).2.gateways[j]? = w.gateways[j]? := by
  have hretain := retain_sameFrom hbelow w
  rw [wrap_world]
  simp only
  rw [Array.getElem?_push, if_neg (by rw [hretain.size]; omega), hretain.gateways j hj]

theorem gateway_wrap (hbelow : inner.Below n) :
    (inner.wrap w).2.gateways[w.gateways.size]? = some { callback := w.transformers.size } := by
  have hretain := retain_sameFrom hbelow w
  rw [wrap_world]
  simp only
  rw [Array.getElem?_push, if_pos hretain.size.symm, hretain.transformers]

theorem transformers_wrap (hbelow : inner.Below n) :
    (inner.wrap w).2.transformers =
      w.transformers.push { action := .callback w.gateways.size } := by
  have hretain := retain_sameFrom hbelow w
  rw [wrap_world]
  simp only
  rw [hretain.transformers, hretain.size]

theorem queue_wrap (hbelow : inner.Below n) (hn : n ≤ w.gateways.size) :
    inner.queue (inner.wrap w).2 = inner.queue w := by
  have hretain := retain_sameFrom hbelow w
  rw [← queue_retain inner w, wrap_world]
  refine queue_of_gateways hbelow (fun j hj => ?_) rfl rfl
  simp only
  rw [Array.getElem?_push, if_neg (by rw [hretain.size]; omega)]

theorem isThere_wrap (hbelow : inner.Below n) (hthere : inner.isThere w = true) :
    inner.isThere (inner.wrap w).2 = true := by
  rw [← (retain_sameFrom hbelow w).isThere] at hthere
  rw [wrap_world]
  cases inner with
  | machine => exact hthere
  | given _ => exact hthere
  | gateway j _ =>
    refine decide_eq_true ((of_decide_eq_true hthere).trans_le ?_)
    simp only [Array.size_push]
    omega

theorem calm_wrap (h : Placed inner n k base created w) (hbelow : inner.Below n) :
    Calm inner created w (inner.wrap w).2 where
  isThere := isThere_wrap hbelow
  queue := queue_wrap hbelow h.gateways
  gateways := by
    rw [wrap_world]
    simp only [Array.size_push, (retain_sameFrom hbelow w).size]
    omega
  transformers := by
    rw [transformers_wrap hbelow, Array.size_push]
    omega
  callback g hg := callbackOf_of_gateway (gateways_wrap hbelow (h.made g hg).1 (h.made g hg).2)
  action g hg := by
    obtain ⟨callback, hcallback, -⟩ := h.callback g hg
    have hlt := h.callback_lt hg hcallback
    rw [callbackAction, callbackAction,
      callbackOf_of_gateway (gateways_wrap hbelow (h.made g hg).1 (h.made g hg).2), hcallback,
      Option.bind_some, Option.bind_some, transformers_wrap hbelow, Array.getElem?_push,
      if_neg (by omega)]

theorem same_wrap (h : Placed inner n k base created w) (hbelow : inner.Below n)
    (hg : g ∈ created) : Same inner g w (inner.wrap w).2 := by
  have hgateway := gateways_wrap hbelow (h.made g hg).1 (h.made g hg).2
  exact (h.calm_wrap hbelow).same hg (hasCallback_of_gateway hgateway)
    (by rw [holders_of_gateway hgateway])

theorem callbackOf_wrap (hbelow : inner.Below n) :
    callbackOf w.gateways.size (inner.wrap w).2 = some w.transformers.size := by
  rw [callbackOf, gateway_wrap hbelow]
  rfl

theorem hasCallback_wrap (hbelow : inner.Below n) :
    hasCallback w.gateways.size (inner.wrap w).2 = false := by
  rw [hasCallback, gateway_wrap hbelow]
  rfl

theorem wrap (h : Placed inner n k base created w) (hbelow : inner.Below n) :
    Placed inner n k base (w.gateways.size :: created) (inner.wrap w).2 := by
  have hcalm := h.calm (h.calm_wrap hbelow)
  refine { hcalm with made := ?_, callback := ?_, action := ?_, known := ?_ }
  · refine List.forall_mem_cons.mpr ⟨⟨h.gateways, ?_⟩, hcalm.made⟩
    exact (Array.getElem?_eq_some_iff.mp (gateway_wrap hbelow)).1
  · exact List.forall_mem_cons.mpr ⟨⟨_, callbackOf_wrap hbelow, h.transformers⟩, hcalm.callback⟩
  · refine List.forall_mem_cons.mpr ⟨?_, hcalm.action⟩
    rw [callbackAction, callbackOf_wrap hbelow, Option.bind_some, transformers_wrap hbelow,
      Array.getElem?_push, if_pos rfl]
    rfl
  · intro r hr
    exact (hcalm.known r hr).imp_right fun ⟨g, hg, hc⟩ => ⟨g, List.mem_cons_of_mem _ hg, hc⟩

/-- The callback of a new gateway is new. -/
theorem listed_wrap (h : Placed inner n k base created w) (hbelow : inner.Below n) :
    Listed inner w.gateways.size (inner.wrap w).2 false := by
  rw [listed_false_iff (callbackOf_wrap hbelow), queue_wrap hbelow h.gateways]
  refine List.filter_eq_nil_iff.mpr fun r hr hnew => ?_
  have hsize : r.transformer = w.transformers.size := of_decide_eq_true hnew
  rcases h.known r hr with hlt | ⟨g, hg, hcallback⟩
  · exact absurd (hlt.trans_le h.transformers) (by omega)
  · exact absurd (h.callback_lt hg hcallback) (by omega)

end Wrap

section Register

theorem register_eq (h : Placed inner n k base created w) (hg : g ∈ created) :
    ∃ callback, callbackOf g w = some callback ∧ k ≤ callback ∧
      register inner g w = (inner.addTransformer ⟨callback, true⟩ w).2 := by
  obtain ⟨callback, hcallback, hk⟩ := h.callback g hg
  exact ⟨callback, hcallback, hk, by rw [Threads.register, hcallback]⟩

theorem unregister_eq (h : Placed inner n k base created w) (hg : g ∈ created) :
    ∃ callback, callbackOf g w = some callback ∧ k ≤ callback ∧
      unregister inner g w =
        if hasCallback g w then (inner.removeTransformer callback w).2 else w := by
  obtain ⟨callback, hcallback, hk⟩ := h.callback g hg
  exact ⟨callback, hcallback, hk, by rw [Threads.unregister, hcallback]⟩

variable (h : Placed inner n k base created w) (hbelow : inner.Below n) (hg : g ∈ created)
include h hbelow hg

theorem register : Placed inner n k base created (register inner g w) := by
  obtain ⟨callback, hcallback, hk, heq⟩ := h.register_eq hg
  refine h.sameFrom (sameFrom_register hbelow g w) ?_ ?_ <;>
    rw [heq, queue_addTransformer hbelow h.isThere]
  · rw [List.forall_mem_append]
    exact ⟨h.known, List.forall_mem_singleton.mpr (.inr ⟨g, hg, hcallback⟩)⟩
  · rw [List.filter_append, h.others, List.filter_cons_of_neg (by simpa using hk), List.filter_nil,
      List.append_nil]

theorem same_register {j : Nat} (hj : j ∈ created) (hne : j ≠ g) :
    Same inner j w (Threads.register inner g w) := by
  obtain ⟨callback, hcallback, -, heq⟩ := h.register_eq hg
  refine h.same_of_sameFrom (sameFrom_register hbelow g w) hj fun c hc => ?_
  have hcne : callback ≠ c := fun he => hne (h.eq_of_callbackOf hj hg hc (he ▸ hcallback))
  rw [heq, queue_addTransformer hbelow h.isThere, List.filter_append, List.filter_cons_of_neg,
    List.filter_nil, List.append_nil]
  simpa using hcne

theorem listed_register (hlisted : Listed inner g w false) :
    Listed inner g (Threads.register inner g w) true := by
  obtain ⟨callback, hcallback, -, heq⟩ := h.register_eq hg
  have hsame := callbackOf_of_gateway
    ((sameFrom_register hbelow g w).gateways g (h.le_of_mem g hg))
  rw [listed_false_iff hcallback] at hlisted
  rw [listed_true_iff (hsame.trans hcallback), heq, queue_addTransformer hbelow h.isThere,
    List.filter_append, hlisted, List.nil_append, List.filter_cons_of_pos (by simp),
    List.filter_nil]

theorem unregister : Placed inner n k base created (unregister inner g w) := by
  obtain ⟨callback, -, hk, heq⟩ := h.unregister_eq hg
  rw [heq]
  split
  · refine h.sameFrom (removeTransformer_sameFrom hbelow callback w) ?_ ?_ <;>
      rw [queue_removeTransformer]
    · exact fun r hr => h.known r (mem_of_mem_removeRegistration hr)
    · rw [filter_removeRegistration, h.others]
      intro r _ hr
      simp [hr, hk]
  · exact h

theorem same_unregister {j : Nat} (hj : j ∈ created) (hne : j ≠ g) :
    Same inner j w (Threads.unregister inner g w) := by
  obtain ⟨callback, hcallback, -, heq⟩ := h.unregister_eq hg
  rw [heq]
  split
  · refine h.same_of_sameFrom (removeTransformer_sameFrom hbelow callback w) hj fun c hc => ?_
    have hcne : callback ≠ c := fun he => hne (h.eq_of_callbackOf hj hg hc (he ▸ hcallback))
    rw [queue_removeTransformer, filter_removeRegistration]
    intro r _ hr
    simpa [hr] using hcne
  · exact .refl inner j w

theorem listed_unregister (hlisted : Listed inner g w (hasCallback g w)) :
    Listed inner g (Threads.unregister inner g w) false := by
  obtain ⟨callback, hcallback, -, heq⟩ := h.unregister_eq hg
  have hsame := callbackOf_of_gateway
    ((sameFrom_unregister hbelow g w).gateways g (h.le_of_mem g hg))
  rw [listed_false_iff (hsame.trans hcallback), heq]
  cases hinstalled : hasCallback g w with
  | false =>
    rw [hinstalled, listed_false_iff hcallback] at hlisted
    exact hlisted
  | true =>
    rw [hinstalled, listed_true_iff hcallback] at hlisted
    rw [if_pos rfl, queue_removeTransformer, filter_removeRegistration_self, hlisted,
      List.tail_cons]

end Register

end Placed

end ClassRecovery.Instrument
