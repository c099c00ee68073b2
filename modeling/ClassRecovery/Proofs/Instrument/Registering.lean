import Mathlib
import ClassRecovery.Instrument.Sharing

/-!
What registering and taking out a transformer does, to the instrument and to gateways that were made
later than all that the instrument is over.
-/

namespace ClassRecovery

theorem removeRegistration_eq (transformer : Nat) (queue : List Registration) :
    removeRegistration transformer queue = queue.eraseP (·.transformer = transformer) := by
  induction queue with
  | nil => rfl
  | cons r queue ih =>
    rw [removeRegistration, List.eraseP_cons, ih]
    by_cases h : r.transformer = transformer <;> simp [h]

/-- Registrations of other transformers stay, in order. -/
theorem filter_removeRegistration {transformer : Nat} {keep : Registration → Bool}
    {queue : List Registration} (h : ∀ r ∈ queue, r.transformer = transformer → keep r = false) :
    (removeRegistration transformer queue).filter keep = queue.filter keep := by
  induction queue with
  | nil => rfl
  | cons r queue ih =>
    rw [removeRegistration]
    split
    next hr => rw [List.filter_cons_of_neg (by simp [h r List.mem_cons_self hr])]
    next hr =>
      rw [List.filter_cons, List.filter_cons, ih fun q hq => h q (List.mem_cons_of_mem _ hq)]

theorem filter_removeRegistration_self (transformer : Nat) (queue : List Registration) :
    (removeRegistration transformer queue).filter (·.transformer = transformer) =
      (queue.filter (·.transformer = transformer)).tail := by
  induction queue with
  | nil => rfl
  | cons r queue ih =>
    rw [removeRegistration]
    split
    next hr => rw [List.filter_cons_of_pos (by simp [hr]), List.tail_cons]
    next hr =>
      rw [List.filter_cons_of_neg (by simp [hr]), ih, List.filter_cons_of_neg (by simp [hr])]

theorem mem_of_mem_removeRegistration {transformer : Nat} {r : Registration}
    {queue : List Registration} (h : r ∈ removeRegistration transformer queue) : r ∈ queue := by
  rw [removeRegistration_eq] at h
  exact List.mem_of_mem_eraseP h

theorem length_removeRegistration (transformer : Nat) (queue : List Registration) :
    (removeRegistration transformer queue).length +
      (if registered transformer queue then 1 else 0) = queue.length := by
  induction queue with
  | nil => rfl
  | cons r queue ih =>
    rw [removeRegistration]
    by_cases h : r.transformer = transformer
    · simp [h, registered]
    · have hr : registered transformer (r :: queue) = registered transformer queue := by
        simp [registered, h]
      rw [if_neg h, hr, List.length_cons, List.length_cons, ← ih]
      omega

/-- The gateways from a number on stay as they are, and all parties stay known. -/
structure World.SameFrom (n : Nat) (w w' : World) : Prop where
  gateways : ∀ k, n ≤ k → w'.gateways[k]? = w.gateways[k]?
  size : w'.gateways.size = w.gateways.size
  transformers : w'.transformers = w.transformers
  hook : w'.hook.isSome = w.hook.isSome
  instruments : w'.instruments.size = w.instruments.size

namespace World.SameFrom

variable {n m : Nat} {w w' w'' : World}

theorem refl (n : Nat) (w : World) : SameFrom n w w := ⟨fun _ _ => rfl, rfl, rfl, rfl, rfl⟩

theorem trans (h : SameFrom n w w') (h' : SameFrom n w' w'') : SameFrom n w w'' where
  gateways k hk := (h'.gateways k hk).trans (h.gateways k hk)
  size := h'.size.trans h.size
  transformers := h'.transformers.trans h.transformers
  hook := h'.hook.trans h.hook
  instruments := h'.instruments.trans h.instruments

theorem mono (h : SameFrom n w w') (hnm : n ≤ m) : SameFrom m w w' :=
  { h with gateways := fun k hk => h.gateways k (hnm.trans hk) }

theorem updateGateway {g : Nat} (hg : g < n) (f : Gateway → Gateway) (w : World) :
    SameFrom n w (World.updateGateway g f w).2 := by
  refine ⟨fun k hk => ?_, Array.size_modify, rfl, rfl, rfl⟩
  exact (Array.getElem?_modify ..).trans (if_neg (by omega))

theorem updateInstrument (n i : Nat) (f : GivenInstrument → GivenInstrument) (w : World) :
    SameFrom n w (World.updateInstrument i f w).2 :=
  ⟨fun _ _ => rfl, rfl, rfl, rfl, Array.size_modify⟩

theorem updateHook (n : Nat) (f : Hook → Hook) (w : World) :
    SameFrom n w (World.updateHook f w).2 :=
  ⟨fun _ _ => rfl, rfl, rfl, Option.isSome_map, rfl⟩

theorem isThere (h : SameFrom n w w') (i : Instrument) : i.isThere w' = i.isThere w := by
  cases i with
  | machine => exact h.hook
  | given _ => simp only [Instrument.isThere, h.instruments]
  | gateway _ _ => simp only [Instrument.isThere, h.size]

end World.SameFrom

namespace Instrument

/-- Gateways are over what was made before them, and all of these have lower numbers. -/
def Below (n : Nat) : Instrument → Prop
  | gateway g inner => g < n ∧ inner.Below g
  | _ => True

variable {n : Nat} {i inner : Instrument} {w : World}

theorem queue_gateway (g : Nat) (inner : Instrument) (w : World) :
    (gateway g inner).queue w = (w.gateways[g]?.map (·.queue)).getD [] := rfl

theorem queue_given (index : Nat) (w : World) :
    (given index).queue w = (w.instruments[index]?.map (·.queue)).getD [] := rfl

theorem updateInstrument_getElem? (index : Nat) (f : GivenInstrument → GivenInstrument)
    (w : World) : (World.updateInstrument index f w).2.instruments[index]? = w.instruments[index]?.map f :=
  (Array.getElem?_modify ..).trans (if_pos rfl)

theorem updateGateway_getElem? (g : Nat) (f : Gateway → Gateway) (w : World) :
    (World.updateGateway g f w).2.gateways[g]? = w.gateways[g]?.map f :=
  (Array.getElem?_modify ..).trans (if_pos rfl)

/-- A gateway has its callback registered before it takes the first transformer. -/
def installed (g : Nat) (inner : Instrument) (w : World) : World :=
  if hasCallback g w then w
  else
    (World.updateGateway g (fun x => { x with installed := true }) (Threads.register inner g w)).2

theorem addTransformer_gateway (g : Nat) (inner : Instrument) (r : Registration) (w : World) :
    (gateway g inner).addTransformer r w =
      ((), (World.updateGateway g (·.add r) (installed g inner w)).2) := by
  conv => lhs; unfold addTransformer
  rw [Action.get_bind, installed]
  cases hasCallback g w with
  | true => rfl
  | false =>
    simp only [Bool.false_eq_true, ↓reduceIte, Threads.register]
    rw [Action.get_bind]
    cases callbackOf g w <;> rfl

theorem register_sameFrom (g : Nat) (h : ∀ r, World.SameFrom n w (inner.addTransformer r w).2) :
    World.SameFrom n w (Threads.register inner g w) := by
  unfold Threads.register
  split
  · exact h _
  · exact .refl n w

theorem installed_sameFrom (g : Nat)
    (h : ∀ r, World.SameFrom n w (inner.addTransformer r w).2) (hg : g < n) :
    World.SameFrom n w (installed g inner w) := by
  unfold installed
  split
  · exact .refl n w
  · exact (register_sameFrom g h).trans (.updateGateway hg _ _)

theorem addTransformer_sameFrom (h : i.Below n) (r : Registration) (w : World) :
    World.SameFrom n w (i.addTransformer r w).2 := by
  induction i generalizing n r w with
  | machine => exact .updateHook n _ w
  | given index => exact .updateInstrument n index _ w
  | gateway g inner ih =>
    rw [addTransformer_gateway]
    exact (installed_sameFrom g (fun r => (ih h.2 r w).mono h.1.le) h.1).trans
      (.updateGateway h.1 _ _)

theorem queue_installed (g : Nat) (h : inner.Below g) (w : World) :
    (gateway g inner).queue (installed g inner w) = (gateway g inner).queue w := by
  unfold installed
  split
  · rfl
  · have hsame := register_sameFrom g fun r => addTransformer_sameFrom h r w
    rw [queue_gateway, queue_gateway, updateGateway_getElem?, hsame.gateways g le_rfl,
      Option.map_map]
    rfl

/-- What is registered comes last. -/
theorem queue_addTransformer (h : i.Below n) (hi : i.isThere w = true) (r : Registration) :
    i.queue (i.addTransformer r w).2 = i.queue w ++ [r] := by
  cases i with
  | machine =>
    obtain ⟨hook, hw⟩ := Option.isSome_iff_exists.mp hi
    change ((w.hook.map _).map _).getD [] = ((w.hook.map _).getD []) ++ [r]
    rw [hw]
    rfl
  | given index =>
    have hlt : index < w.instruments.size := of_decide_eq_true hi
    change (given index).queue (World.updateInstrument index (·.add r) w).2 = _
    rw [queue_given, queue_given, updateInstrument_getElem?, Array.getElem?_eq_getElem hlt]
    rfl
  | gateway g inner =>
    have hlt : g < w.gateways.size := of_decide_eq_true hi
    have hsize : g < (installed g inner w).gateways.size := by
      rw [(installed_sameFrom (n := g + 1) g
        (fun r => (addTransformer_sameFrom h.2 r w).mono (by omega)) (by omega)).size]
      exact hlt
    rw [addTransformer_gateway, ← queue_installed g h.2 w, queue_gateway, queue_gateway,
      updateGateway_getElem?, Array.getElem?_eq_getElem hsize]
    rfl

theorem removeTransformer_sameFrom (h : i.Below n) (t : Nat) (w : World) :
    World.SameFrom n w (i.removeTransformer t w).2 := by
  cases i with
  | machine => exact .updateHook n _ w
  | given index => exact .updateInstrument n index _ w
  | gateway g inner => exact .updateGateway h.1 _ w

theorem queue_removeTransformer (i : Instrument) (t : Nat) (w : World) :
    i.queue (i.removeTransformer t w).2 = removeRegistration t (i.queue w) := by
  cases i with
  | machine =>
    change ((w.hook.map _).map _).getD [] = removeRegistration t ((w.hook.map _).getD [])
    cases w.hook <;> rfl
  | given index =>
    change (given index).queue (World.updateInstrument index _ w).2 = _
    rw [queue_given, queue_given, updateInstrument_getElem?]
    cases w.instruments[index]? <;> rfl
  | gateway g inner =>
    change (gateway g inner).queue (World.updateGateway g _ w).2 = _
    rw [queue_gateway, queue_gateway, updateGateway_getElem?]
    cases w.gateways[g]? <;> rfl

theorem removeTransformer_fst (i : Instrument) (t : Nat) (w : World) :
    (i.removeTransformer t w).1 = registered t (i.queue w) := by
  cases i <;> rfl

theorem retain_sameFrom (h : i.Below n) (w : World) : World.SameFrom n w (i.retain w).2 := by
  cases i with
  | machine => exact .refl n w
  | given _ => exact .refl n w
  | gateway g inner => exact .updateGateway h.1 _ w

theorem queue_retain (i : Instrument) (w : World) : i.queue (i.retain w).2 = i.queue w := by
  cases i with
  | machine => rfl
  | given _ => rfl
  | gateway g inner =>
    change (gateway g inner).queue (World.updateGateway g _ w).2 = _
    rw [queue_gateway, queue_gateway, updateGateway_getElem?, Option.map_map]
    rfl

/-- What the last release of a gateway does besides. -/
def abandon (inner : Instrument) (x : Gateway) (w : World) : World :=
  (inner.release (if x.installed then (inner.removeTransformer x.callback w).2 else w)).2

theorem release_gateway {g : Nat} {x : Gateway} (hx : w.gateways[g]? = some x) :
    ((gateway g inner).release w).2 =
      let w' := (World.updateGateway g (fun x => { x with holders := x.holders - 1 }) w).2
      if x.holders = 1 then inner.abandon x w' else w' := by
  conv => lhs; unfold release
  rw [Action.get_bind, hx]
  simp only
  rw [Action.bind_apply]
  split
  · unfold abandon
    split <;> rfl
  · rfl

theorem release_of_none {g : Nat} (hx : w.gateways[g]? = none) :
    ((gateway g inner).release w).2 = w := by
  unfold release
  rw [Action.get_bind, hx]
  rfl

theorem release_sameFrom (h : i.Below n) (w : World) : World.SameFrom n w (i.release w).2 := by
  induction i generalizing n w with
  | machine => exact .refl n w
  | given _ => exact .refl n w
  | gateway g inner ih =>
    cases hx : w.gateways[g]? with
    | none =>
      rw [release_of_none hx]
      exact .refl n w
    | some x =>
      rw [release_gateway hx]
      have hheld :=
        World.SameFrom.updateGateway h.1 (fun x => { x with holders := x.holders - 1 }) w
      simp only
      split
      · refine hheld.trans (World.SameFrom.trans ?_ ((ih h.2 _).mono h.1.le))
        split
        · exact (removeTransformer_sameFrom h.2 x.callback _).mono h.1.le
        · exact .refl n _
      · exact hheld

theorem queue_release (h : i.Below n) (w : World) : i.queue (i.release w).2 = i.queue w := by
  cases i with
  | machine => rfl
  | given _ => rfl
  | gateway g inner =>
    cases hx : w.gateways[g]? with
    | none => rw [release_of_none hx]
    | some x =>
      have hheld : ((gateway g inner).release w).2.gateways[g]? =
          some { x with holders := x.holders - 1 } := by
        rw [release_gateway hx]
        simp only
        split
        · have habandon : World.SameFrom g
              (World.updateGateway g (fun x => { x with holders := x.holders - 1 }) w).2
              (inner.abandon x
                (World.updateGateway g (fun x => { x with holders := x.holders - 1 }) w).2) := by
            refine World.SameFrom.trans ?_ (release_sameFrom h.2 _)
            split
            · exact removeTransformer_sameFrom h.2 x.callback _
            · exact .refl g _
          rw [habandon.gateways g le_rfl, updateGateway_getElem?, hx]
          rfl
        · rw [updateGateway_getElem?, hx]
          rfl
      rw [queue_gateway, queue_gateway, hheld, hx]
      rfl

end Instrument

end ClassRecovery
