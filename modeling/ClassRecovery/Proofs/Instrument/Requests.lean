import Mathlib
import ClassRecovery.Instrument.Transform
import ClassRecovery.Proofs.Instrument.Isolation
import ClassRecovery.Proofs.Instrument.Sharing
import ClassRecovery.Proofs.Jvm.Classes

/-!
What threads are asked about gateways is what one thread does. A request that nobody comes between
does to the world what its operation does, and what an instrument does while classes are transformed
is among what may happen at any time, but for what transformers ask for.
-/

namespace ClassRecovery

namespace Instrument

def Request.gateway? : Request → Option Nat
  | .wrap => none
  | .share g | .drop g | .add g _ | .remove g _ | .retransform g => some g

namespace Threads

variable {inner : Instrument} {g t : Nat} {s : Shared} {m : Routine.State Shared Phase} {w : World}

theorem unregister_of_gateway {x : Gateway} (hx : w.gateways[g]? = some x) :
    unregister inner g w = if x.installed then (inner.removeTransformer x.callback w).2 else w := by
  rw [unregister, callbackOf, hasCallback, hx]
  rfl

theorem alone_add (hlive : s.isLive g = true) (hfree : s.holder g = none) (r : Registration) :
    ∃ s', (routine inner).Alone t (.adding g r) s s' ∧
      s'.world = ((gateway g inner).addTransformer r s.world).2 := by
  have hadding : next inner t (.adding g r) s = some (some (.checking g r), s.borrow t g) :=
    if_pos hlive
  rw [addTransformer_gateway, installed]
  by_cases hinstalled : hasCallback g s.world = true
  · have hchecking : next inner t (.checking g r) (s.borrow t g) =
        some (some (.pushing g r), s.borrow t g) :=
      congrArg (fun p => some (some p, s.borrow t g)) (if_pos hinstalled)
    rw [if_pos hinstalled]
    exact ⟨_, .step hadding (.step hchecking (.done rfl)), rfl⟩
  · have hchecking : next inner t (.checking g r) (s.borrow t g) =
        some (some (.locking g r), s.borrow t g) :=
      congrArg (fun p => some (some p, s.borrow t g)) (if_neg hinstalled)
    have hlocking : next inner t (.locking g r) (s.borrow t g) =
        some (some (.checkingAgain g r), (s.borrow t g).take g (some t)) := if_pos hfree
    have hagain : next inner t (.checkingAgain g r) ((s.borrow t g).take g (some t)) =
        some (some (.registering g r), (s.borrow t g).take g (some t)) :=
      congrArg (fun p => some (some p, (s.borrow t g).take g (some t))) (if_neg hinstalled)
    rw [if_neg hinstalled]
    exact ⟨_, .step hadding (.step hchecking (.step hlocking (.step hagain
      (.step rfl (.step rfl (.step rfl (.done rfl))))))), rfl⟩

theorem alone_drop (hlive : s.isLive g = true) (hunused : s.borrowed = []) :
    ∃ s', (routine inner).Alone t (.dropping g) s s' ∧
      s'.world = ((gateway g inner).release s.world).2 := by
  obtain ⟨x, hx, hholders⟩ := exists_of_holders (isLive_iff.mp hlive).2
  have hthere : ¬(!s.isLive g) = true := by rw [hlive]; exact Bool.false_ne_true
  rw [release_gateway hx]
  by_cases hlast : x.holders = 1
  · have hdropping : next inner t (.dropping g) s = some (some (.unregistering g),
        (s.update g leave).take g (some t)) := by
      refine (if_neg hthere).trans ((if_neg (not_not.mpr (hholders.trans hlast))).trans (if_neg ?_))
      rw [hunused]
      exact Bool.false_ne_true
    refine ⟨_, .step hdropping (.step rfl (.done rfl)), ?_⟩
    rw [if_pos hlast]
    change (inner.release (unregister inner g (World.updateGateway g leave s.world).2)).2 = _
    rw [unregister_of_gateway ((updateGateway_getElem? ..).trans (congrArg (Option.map _) hx))]
    rfl
  · have hdropping : next inner t (.dropping g) s =
        some (none, (s.update g leave).answer t (.drop g) false) :=
      (if_neg hthere).trans (if_pos (hholders ▸ hlast))
    rw [if_neg hlast]
    exact ⟨_, .done hdropping, rfl⟩

/-- A request that nobody comes between is an operation of one thread. -/
theorem call_alone {n k : Nat} {base : List Registration} (h : Safe inner n k base m)
    (hidle : ∀ t, m.phases t = none) (t : Nat) {q : Request}
    (hlive : ∀ g, q.gateway? = some g → m.shared.isLive g = true) :
    ∃ n s', (routine inner).run m (.call t q :: List.replicate n (.go t)) = some ⟨s', m.phases⟩ ∧
      s'.world = (q.act inner m.shared.world).2 := by
  have halone : ∃ s', (routine inner).Alone t (start q) m.shared s' ∧
      s'.world = (q.act inner m.shared.world).2 := by
    cases q with
    | wrap => exact ⟨_, .done rfl, rfl⟩
    | share g => exact ⟨_, .done (if_pos (hlive g rfl)), rfl⟩
    | drop g => exact alone_drop (hlive g rfl) (h.unused_of_idle hidle)
    | add g r => exact alone_add (hlive g rfl) (h.free_of_idle hidle g) r
    | remove g transformer => exact ⟨_, .done (if_pos (hlive g rfl)), rfl⟩
    | retransform g => exact ⟨_, .step (if_pos (hlive g rfl)) (.done rfl), rfl⟩
  obtain ⟨s', hs, hworld⟩ := halone
  obtain ⟨n, hn⟩ := Routine.Alone.call (hidle t) hs
  exact ⟨n, s', hn, hworld⟩

end Threads

end Instrument

/-- What is registered where, what gateways have, and what transformers do when they are called. -/
def World.placement (w : World) : Array Gateway × (Nat → Option TransformerAction) ×
    Option (List Registration) × (Nat → Option (List Registration)) :=
  (w.gateways, w.actionOf, w.hook.map (·.queue), fun i => w.instruments[i]?.map (·.queue))

open World (placement)

variable {run : Runner} (hrun : ∀ t event, Keeps placement (run t event))

theorem placement_onLink {α : Type} (a : StateM Jvm.Link α) : Keeps placement (World.onLink a) :=
  fun _ => rfl

theorem placement_updateInstrument (i : Nat) {f : GivenInstrument → GivenInstrument}
    (hf : ∀ x, (f x).queue = x.queue) : Keeps placement (World.updateInstrument i f) :=
  .modify fun w => congrArg (w.gateways, w.actionOf, w.hook.map (·.queue), ·)
    (funext fun j => map_getElem?_modify hf j)

namespace Hook

theorem resolve_placement {α : Type} (a : Jvm.Linked (Option α)) : Keeps placement (resolve a) := by
  refine .bind (placement_onLink _) fun r => ?_
  cases r with
  | ok _ => exact .pure _
  | error _ => exact .pure _

theorem withArgument_placement {α : Type} (o : Option Jvm.Object)
    {use : Option Jvm.Reference → Action α} (h : ∀ r, Keeps placement (use r)) :
    Keeps placement (withArgument o use) :=
  .bind (placement_onLink _) fun r => .bind (h r) fun _ =>
    .bind (placement_onLink _) fun _ => .pure _

theorem use_placement {α : Type} (a : Jvm.Tool.Use α) : Keeps placement (use a) :=
  .mapFailure (placement_onLink (Jvm.Link.checked a).run)

theorem objectOf_placement (c : ClassRef) : Keeps placement (objectOf c) := fun w => by
  obtain ⟨r, hr, -⟩ := objectOf_eq c (rfl : w.link = w.link)
  rw [hr]

theorem granted_placement (allows : Hook → Bool) : Keeps placement (granted allows) := by
  refine .attempt .get fun w => ?_
  split
  · split
    · exact .ok _
    · exact .throw _
  · exact .throw _

end Hook

include hrun

theorem Transform.runSeries_placement (event : ClassFileEvent) (ts : List Nat) :
    Keeps placement (runSeries run event ts) := by
  have hgo : ∀ current, Keeps placement (runSeries.go run event ts current) := by
    induction ts with
    | nil => intro current; cases current <;> exact .pure _
    | cons t ts ih =>
      intro current
      refine .bind (hrun t _) fun v => ?_
      cases v with
      | unchanged => exact ih current
      | replaced bytes => exact ih _
      | panicked => exact .pure _
  exact hgo none

namespace Hook

theorem transform_placement (h : Hook) (f : ClassFile) (cls loader : Option Jvm.Reference) :
    Keeps placement (transform run h f cls loader) := by
  unfold transform
  split
  · exact .pure _
  · refine .bind (resolve_placement _) fun loader => .bind ?_ fun redefined => ?_
    · cases cls with
      | none => exact .pure _
      | some cls => exact resolve_placement _
    · refine .bind (Transform.runSeries_placement hrun _ _) fun v => ?_
      split
      · exact .bind (placement_onLink _) fun _ => .pure _
      · exact .bind (.pure _) fun _ => .pure _

theorem onClassFile_placement (f : ClassFile) : Keeps placement (onClassFile run f) := by
  refine .bind .get fun w => ?_
  split
  · exact .pure _
  · refine .bind (withArgument_placement f.cls fun cls => withArgument_placement f.loader fun l =>
      transform_placement hrun _ f cls l) fun v => ?_
    cases v with
    | unchanged | panicked => exact .pure _
    | replaced bytes =>
      refine .bind (placement_onLink _) fun tool => .bind (placement_onLink
        (Jvm.Link.checked (Jvm.Tool.allocate tool bytes.length)).run) fun r => ?_
      cases r with
      | error _ => exact .pure _
      | ok _ => exact .bind (placement_onLink _) fun _ => .pure _

theorem change_placement (o : Jvm.Object) : Keeps placement (change run o) := by
  refine .bind .get fun w => ?_
  cases o with
  | cls key =>
    dsimp only
    split
    · exact .pure _
    · split
      · refine .bind (onClassFile_placement hrun _) fun r => ?_
        cases r with
        | none => exact .pure _
        | some bytes => exact placement_onLink _
      · exact .pure _
  | _ => exact .pure _

theorem retransform_placement (classes : List ClassRef) :
    Keeps placement (retransform run classes) := by
  exact .attempt (granted_placement _) fun h => .attempt (.mapM objectOf_placement classes)
    fun objects => .attempt (use_placement _) fun _ =>
      .forM (fun o => .lift (change_placement hrun o)) objects

end Hook

namespace Instrument

theorem changeGiven_placement (index : Nat) (c : ClassRef) :
    Keeps placement (changeGiven run index c) := by
  refine .bind .get fun w => ?_
  split
  · exact .pure _
  · split
    · exact .pure _
    · exact .bind (Transform.runSeries_placement hrun _ _) fun _ =>
        placement_updateInstrument index fun _ => rfl

theorem retransformGiven_placement (index : Nat) (classes : List ClassRef) :
    Keeps placement (retransformGiven run index classes) := by
  refine .attempt (.lift (placement_updateInstrument index fun _ => rfl)) fun _ =>
    .attempt .get fun w => ?_
  split
  · exact .ok _
  · split
    · exact .throw _
    · exact .forM (fun c => .lift (changeGiven_placement hrun index c)) _

/-- All that a transformation does to gateways and to what is registered, transformers do. -/
theorem retransformWith_placement (classes : List ClassRef) (i : Instrument) :
    Keeps placement (i.retransformWith run classes) := by
  induction i with
  | machine => exact Hook.retransform_placement hrun classes
  | given index => exact retransformGiven_placement hrun index classes
  | gateway index inner ih =>
    exact .attempt (.lift (.modify fun _ => rfl)) fun _ => .andAlways (.modify fun _ => rfl) ih

omit hrun

namespace Threads

theorem besides_of_placement {inner : Instrument} {s : Shared} {w : World}
    (h : w.placement = s.world.placement) (hthere : inner.isThere s.world = true) :
    besides inner w s = some { s with world := w } := by
  simp only [World.placement, Prod.mk.injEq] at h
  obtain ⟨hgateways, hactions, hhook, hinstruments⟩ := h
  have hqueue : inner.queue w = inner.queue s.world := by
    cases inner with
    | machine => exact congrArg (·.getD []) hhook
    | given index => exact congrArg (·.getD []) (congrFun hinstruments index)
    | gateway index _ => rw [queue_gateway, queue_gateway, hgateways]
  have hthere' : inner.isThere w = true := by
    cases inner with
    | machine =>
      have hsome := congrArg Option.isSome hhook
      rw [Option.isSome_map, Option.isSome_map] at hsome
      exact hsome.trans hthere
    | given index =>
      have hlt := of_decide_eq_true hthere
      have hsome := congrArg Option.isSome (congrFun hinstruments index)
      rw [Array.getElem?_eq_getElem hlt] at hsome
      exact decide_eq_true (by simpa using hsome)
    | gateway index _ => exact (congrArg (decide <| index < Array.size ·) hgateways).trans hthere
  have htransformers : s.world.transformers.size ≤ w.transformers.size := by
    by_contra hlt
    have hsome := congrArg Option.isSome (congrFun hactions w.transformers.size)
    simp [World.actionOf, not_le.mp hlt] at hsome
  refine if_pos ⟨hthere', hqueue, fun g _ => ⟨?_, ?_⟩, (congrArg Array.size hgateways).ge,
    htransformers⟩
  · rw [fields, fields, hgateways]
  · rw [callbackAction, callbackAction, callbackOf, callbackOf, hgateways]
    exact congrArg (Option.bind _) hactions

/-- What an instrument does to transform classes may happen at any time. What transformers do
meanwhile is not among that. -/
theorem besides_retransform {run : Runner} (hrun : ∀ t event, Keeps placement (run t event))
    {inner : Instrument} (i : Instrument) (classes : List ClassRef) {s : Shared}
    (hthere : inner.isThere s.world = true) :
    ∃ s', besides inner (i.retransformWith run classes s.world).2 s = some s' :=
  ⟨_, besides_of_placement (retransformWith_placement hrun classes i s.world) hthere⟩

end Threads

end Instrument

end ClassRecovery
