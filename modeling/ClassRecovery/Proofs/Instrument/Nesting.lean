import ClassRecovery.Proofs.Instrument.Isolation

/-!
Calls within calls. A transformer may ask for transformations itself, and so on to any depth. What
is registered with a gateway runs as long as the gateway has a call under way, so it is also shown
what others ask for meanwhile. Without such a call it does not run, however deep the calls of others
nest.
-/

namespace ClassRecovery

/-- It asks nothing of the gateway and changes no queue. -/
def TransformerAction.Avoids (gateway : Nat) : TransformerAction → Prop
  | .retransform on _ => on.Avoids gateway
  | .add _ _ | .remove _ _ => False
  | _ => True

namespace World

/-- What a transformer is going to do on its first call. -/
def pending (w : World) (t : Nat) : Option TransformerAction :=
  (w.transformers[t]?.filter (!·.called)).map (·.action)

/-- Those that may be called while the gateway has nothing to do. -/
def Callable (gateway : Nat) (w : World) (t : Nat) : Prop :=
  w.actionOf t = some (.callback gateway) ∨ w.Elsewhere gateway t

variable {gateway : Nat} {w : World}

theorem callable_of_mem (on : Instrument) (hon : ∀ inner, on ≠ .gateway gateway inner)
    {r : Registration} (hr : r ∈ on.queue w) : w.Callable gateway r.transformer := by
  by_cases ha : w.actionOf r.transformer = some (.callback gateway)
  · exact .inl ha
  · exact .inr (elsewhere_of_mem hon (List.mem_filter.mpr ⟨hr, by simpa using ha⟩))

end World

/-- The gateway has nothing to do, and nobody who may be called is going to ask it. -/
structure Unasked (gateway : Nat) (w : World) : Prop where
  idle : gateway ∉ w.inFlight
  avoids : ∀ t, w.Elsewhere gateway t → ∀ a, w.pending t = some a → a.Avoids gateway

/-- What is registered with the gateway alone stays as it is, and who was called before was. -/
structure Passes (gateway : Nat) (w v : World) : Prop where
  spares : Spares gateway w v
  inFlight : v.inFlight = w.inFlight
  pending : ∀ t a, v.pending t = some a → w.pending t = some a

section Relations

variable {gateway : Nat} {w v v' : World}

theorem Passes.refl (gateway : Nat) (w : World) : Passes gateway w w :=
  ⟨.refl gateway w, rfl, fun _ _ ha => ha⟩

theorem Passes.trans (h : Passes gateway w v) (h' : Passes gateway v v') : Passes gateway w v' where
  spares := h.spares.trans h'.spares
  inFlight := h'.inFlight.trans h.inFlight
  pending t a ha := h.pending t a (h'.pending t a ha)

theorem Passes.callable (h : Passes gateway w v) {t : Nat} (ht : w.Callable gateway t) :
    v.Callable gateway t := by
  unfold World.Callable
  rw [h.spares.actions, h.spares.elsewhere]
  exact ht

theorem Unasked.mono (h : Unasked gateway w) (hv : Passes gateway w v) : Unasked gateway v where
  idle := hv.inFlight ▸ h.idle
  avoids t ht a ha := h.avoids t ((hv.spares.elsewhere t).mp ht) a (hv.pending t a ha)

theorem Unobtrusive.passes {op : World → World} (h : Unobtrusive gateway op)
    (hsame : ∀ v, (op v).transformers = v.transformers)
    (hinFlight : (op w).inFlight = w.inFlight) : Passes gateway w (op w) where
  spares := h.spares fun t _ => by rw [hsame]
  inFlight := hinFlight
  pending t a ha := by
    unfold World.pending at ha ⊢
    rwa [hsame] at ha

/-- A mark that is set and taken away leaves the list as it was. -/
theorem Passes.bracket {other : Nat} (hother : other ≠ gateway)
    (hv : Passes gateway { w with inFlight := other :: w.inFlight } v) :
    Passes gateway w { v with inFlight := v.inFlight.erase other } where
  spares :=
    have henter : Spares gateway w { w with inFlight := other :: w.inFlight } :=
      (Unobtrusive.entered hother).spares fun _ _ => rfl
    have hleave : Spares gateway v { v with inFlight := v.inFlight.erase other } :=
      (Unobtrusive.left other).spares fun _ _ => rfl
    henter.trans (hv.spares.trans hleave)
  inFlight := by
    change v.inFlight.erase other = w.inFlight
    rw [hv.inFlight]
    exact List.erase_cons_head other w.inFlight
  pending := hv.pending

theorem Passes.noted {t : Nat} {f : Transformer → Transformer} (ht : w.Elsewhere gateway t)
    (haction : ∀ x, (f x).action = x.action) (hcalled : ∀ x, (f x).called = true) :
    Passes gateway w { w with transformers := w.transformers.modify t f } where
  spares := (Unobtrusive.updateTransformer gateway t haction).spares fun u hu => by
    have hne : t ≠ u := fun he => hu (he ▸ ht)
    rw [Array.getElem?_modify, if_neg hne]
  inFlight := rfl
  pending u a ha := by
    unfold World.pending at ha ⊢
    rw [Array.getElem?_modify] at ha
    split at ha
    · -- It was called, so nothing is left of it.
      cases hx : w.transformers[u]? <;> simp [hx, hcalled] at ha
    · exact ha

end Relations

/-- From here the operation does not reach what is registered with the gateway alone. -/
def Discreet {α : Type} (gateway : Nat) (x : Action α) (w : World) : Prop :=
  Unasked gateway w → Passes gateway w (x w).2

namespace Discreet

variable {ε δ α β : Type} {gateway : Nat} {w : World}

theorem pure (v : α) : Discreet gateway (pure v : Action α) w := fun _ => .refl gateway w

theorem bind {x : Action α} {f : α → Action β} (hx : Discreet gateway x w)
    (hf : ∀ a v, Passes gateway w v → Discreet gateway (f a) v) :
    Discreet gateway (x >>= f) w := by
  intro hw
  have h₁ := hx hw
  exact h₁.trans (hf _ _ h₁ (hw.mono h₁))

theorem attempt {x : Attempt ε α} {f : α → Attempt ε β} (hx : Discreet gateway x w)
    (hf : ∀ a v, Passes gateway w v → Discreet gateway (f a) v) :
    Discreet gateway (x >>= f : Attempt ε β) w := by
  refine Discreet.bind (x := (x : Action (Except ε α)))
    (f := (ExceptT.bindCont f : _ → Action _)) hx fun r v hv => ?_
  cases r with
  | ok a => exact hf a v hv
  | error e => exact .pure (Except.error e)

theorem of_eq {x y : Action α} (h : Discreet gateway x w) (hy : y w = x w) :
    Discreet gateway y w := by
  intro hw
  rw [hy]
  exact h hw

theorem lift {x : Action α} (h : Discreet gateway x w) :
    Discreet gateway (liftM x : Attempt ε α) w := h

theorem mapFailure {x : Attempt ε α} {f : ε → δ} (h : Discreet gateway x w) :
    Discreet gateway (mapFailure f x) w := by
  intro hw
  have hstate : (ClassRecovery.mapFailure f x w).2 = (x w).2 := by
    unfold ClassRecovery.mapFailure
    rcases x w with ⟨e | a, v⟩ <;> rfl
  rw [hstate]
  exact h hw

theorem forM {f : β → Attempt ε PUnit} (l : List β)
    (hf : ∀ b v, Passes gateway w v → Discreet gateway (f b) v) :
    Discreet gateway (l.forM f : Attempt ε PUnit) w := by
  induction l generalizing w with
  | nil => exact .pure (Except.ok ())
  | cons b rest ih =>
    exact (hf b w (.refl gateway w)).attempt fun _ v hv => ih fun b v' hv' => hf b v' (hv.trans hv')

theorem onLink (x : StateM Jvm.Link α) : Discreet gateway (World.onLink x) w :=
  fun _ => ⟨.relink gateway w _, rfl, fun _ _ ha => ha⟩

theorem modify {op : World → World} (h : Unobtrusive gateway op)
    (hsame : ∀ v, (op v).transformers = v.transformers)
    (hinFlight : ∀ v, (op v).inFlight = v.inFlight) : Discreet gateway (modify op) w :=
  fun _ => h.passes hsame (hinFlight w)

theorem get {f : World → Action α} (h : Discreet gateway (f w) w) :
    Discreet gateway (get >>= f) w := h

theorem read {f : World → Attempt ε α} (h : Discreet gateway (f w) w) :
    Discreet gateway (MonadState.get >>= f : Attempt ε α) w := h

end Discreet

namespace Transform

/-- The runner keeps away from what is registered with the gateway alone. -/
def Heeds (gateway : Nat) (run : Runner) : Prop :=
  ∀ t event w, w.Callable gateway t → Discreet gateway (run t event) w

variable {gateway : Nat} {w : World} {event : ClassFileEvent} {run : Runner}

theorem askEach_discreet {ι : Type} {who : ι → Nat} {shown : Option Bytes → ClassFileEvent}
    {take : ι → Bytes → Option Bytes → Option Bytes} {finish : Option Bytes → Verdict}
    (h : Heeds gateway run) (l : List ι) (kept : Option Bytes)
    (hall : ∀ i ∈ l, w.Callable gateway (who i)) :
    Discreet gateway (askEach run who shown take finish l kept) w := by
  induction l generalizing w kept with
  | nil => exact .pure _
  | cons i rest ih =>
    refine (h _ _ w (hall i List.mem_cons_self)).bind fun v w₁ h₁ => ?_
    have hrest := fun kept => ih kept fun j hj => h₁.callable (hall j (List.mem_cons_of_mem _ hj))
    cases v with
    | unchanged => exact hrest kept
    | replaced bytes => exact hrest _
    | panicked => exact .pure _

theorem runQueue_discreet (h : Heeds gateway run) (queue : List Registration)
    (hall : ∀ r ∈ queue, w.Callable gateway r.transformer) :
    Discreet gateway (runQueue run event queue) w := by
  rw [runQueue_eq]
  exact askEach_discreet h queue none hall

theorem runSeries_discreet (h : Heeds gateway run) (retransforming : Bool)
    (queue : List Registration) (hall : ∀ r ∈ queue, w.Callable gateway r.transformer) :
    Discreet gateway (runSeries run event (Hook.audience retransforming queue)) w := by
  rw [runSeries_eq]
  refine askEach_discreet h _ none fun t ht => ?_
  obtain ⟨r, hr, rfl⟩ := exists_of_mem_audience ht
  exact hall r hr

theorem runCallback_discreet (h : Heeds gateway run) (other : Nat) :
    Discreet gateway (runCallback run other event) w := by
  intro hw
  refine Discreet.get ?_ hw
  by_cases hin : other ∈ w.inFlight
  · rw [if_pos hin]
    have hon : ∀ inner, Instrument.gateway other .machine ≠ .gateway gateway inner := by
      rintro inner ⟨⟩
      exact hw.idle hin
    exact runQueue_discreet h _ fun r hr => World.callable_of_mem _ hon hr
  · rw [if_neg hin]
    exact .pure _

theorem capture_discreet (cache : Nat) : Discreet gateway (capture cache event) w := by
  unfold capture
  cases event.redefined with
  | none => exact .pure _
  | some c => exact .modify (.cached cache _) (fun _ => rfl) fun _ => rfl

end Transform

namespace Hook

variable {gateway : Nat} {w : World} {run : Runner} {α : Type}

theorem resolve_discreet (a : Jvm.Linked (Option α)) : Discreet gateway (resolve a) w := by
  refine (Discreet.onLink _).bind fun r _ _ => ?_
  cases r <;> exact .pure _

theorem withArgument_discreet (o : Option Jvm.Object) {use : Option Jvm.Reference → Action α}
    (huse : ∀ r v, Passes gateway w v → Discreet gateway (use r) v) :
    Discreet gateway (withArgument o use) w :=
  (Discreet.onLink _).bind fun r v hv =>
    (huse r v hv).bind fun _ _ _ => (Discreet.onLink _).bind fun _ _ _ => .pure _

theorem transform_discreet (h : Transform.Heeds gateway run) (hook : Hook)
    (hall : ∀ r ∈ hook.queue, w.Callable gateway r.transformer) (f : ClassFile)
    (cls loader : Option Jvm.Reference) :
    Discreet gateway (transform run hook f cls loader) w := by
  unfold transform
  split
  · exact .pure _
  refine (resolve_discreet _).bind fun found w₁ h₁ => ?_
  have hclass : Discreet gateway (resolveClass hook.connection cls) w₁ := by
    cases cls with
    | none => exact .pure _
    | some cls => exact resolve_discreet _
  refine hclass.bind fun redefined w₂ h₂ => ?_
  have hall₂ := fun r hr => (h₁.trans h₂).callable (hall r hr)
  refine (Transform.runSeries_discreet h _ hook.queue hall₂).bind fun verdict w₃ _ => ?_
  dsimp only
  split
  · exact (Discreet.onLink _).bind fun _ _ _ => .pure _
  · exact .pure _

theorem onClassFile_discreet (h : Transform.Heeds gateway run) (f : ClassFile) :
    Discreet gateway (onClassFile run f) w := by
  refine .get ?_
  cases hhook : w.hook with
  | none => exact .pure _
  | some hook =>
    have hall : ∀ r ∈ hook.queue, w.Callable gateway r.transformer := fun r hr =>
      World.callable_of_mem .machine (Instrument.machine_ne gateway)
        (by simpa [Instrument.queue, hhook] using hr)
    have hverdict : Discreet gateway
        (withArgument f.cls fun cls => withArgument f.loader fun loader =>
          transform run hook f cls loader) w :=
      withArgument_discreet f.cls fun cls v hv =>
        withArgument_discreet f.loader fun loader v' hv' =>
          transform_discreet h hook (fun r hr => (hv.trans hv').callable (hall r hr)) f cls loader
    refine hverdict.bind fun verdict w₁ _ => ?_
    cases verdict with
    | unchanged => exact .pure _
    | panicked => exact .pure _
    | replaced bytes =>
      refine (Discreet.onLink _).bind fun tool w₂ _ => ?_
      have halloc : Discreet gateway
          (World.attemptMachine (Jvm.Tool.allocate tool bytes.length)).run w₂ :=
        .onLink (Jvm.Link.checked (Jvm.Tool.allocate tool bytes.length)).run
      refine halloc.bind fun r w₃ _ => ?_
      cases r with
      | error e => exact .pure _
      | ok _ => exact (Discreet.onLink _).bind fun _ _ _ => .pure _

theorem change_discreet (h : Transform.Heeds gateway run) (o : Jvm.Object) :
    Discreet gateway (change run o) w := by
  refine .get ?_
  cases o with
  | cls key =>
    dsimp only
    cases Jvm.Tool.bytesOf w.link.machine key with
    | none => exact .pure _
    | some bytes =>
      dsimp only
      split
      · refine (onClassFile_discreet h _).bind fun r w₁ _ => ?_
        cases r with
        | none => exact .pure _
        | some bytes => exact .onLink _
      · exact .pure _
  | _ => exact .pure _

theorem retransform_discreet (h : Transform.Heeds gateway run) (classes : List ClassRef) :
    Discreet gateway (retransform run classes) w := by
  cases hhook : w.hook with
  | none =>
    exact (Discreet.pure (Except.error (.jvmti .mustPossessCapability))).of_eq
      (retransform_eq_of_none classes hhook)
  | some hook =>
    refine Discreet.of_eq ?_ (retransform_eq_of_hook classes hhook)
    split
    · obtain ⟨r, hr, -⟩ := mapM_objectOf_eq classes (rfl : w.link = w.link)
      cases r with
      | error e => exact (Discreet.pure (Except.error e)).of_eq (by rw [bind_apply, hr]; rfl)
      | ok objects =>
        refine Discreet.of_eq ?_ (by rw [bind_apply, hr])
        have hasked : Discreet gateway (use (Jvm.Tool.retransform hook.tool objects)) w :=
          .mapFailure (.onLink (Jvm.Link.checked (Jvm.Tool.retransform hook.tool objects)).run)
        exact hasked.attempt fun _ _ _ => .forM objects fun o _ _ => (change_discreet h o).lift
    · exact .pure (Except.error _)

end Hook

namespace Instrument

variable {gateway : Nat} {w : World} {run : Runner}

theorem changeGiven_discreet (h : Transform.Heeds gateway run) (index : Nat) (c : ClassRef) :
    Discreet gateway (changeGiven run index c) w := by
  refine .get ?_
  cases hi : w.instruments[index]? with
  | none => exact .pure _
  | some i =>
    dsimp only
    split
    · exact .pure _
    · have hall : ∀ r ∈ i.queue, w.Callable gateway r.transformer := fun r hr =>
        World.callable_of_mem (given index) (given_ne gateway index) (by simpa [queue, hi] using hr)
      exact (Transform.runSeries_discreet h true i.queue hall).bind fun v _ _ =>
        .modify (.updateInstrument gateway index fun _ _ => rfl) (fun _ => rfl) fun _ => rfl

theorem retransformGiven_discreet (h : Transform.Heeds gateway run) (index : Nat)
    (classes : List ClassRef) : Discreet gateway (retransformGiven run index classes) w := by
  have hcount : Discreet gateway
      (World.updateInstrument index fun i => { i with count := i.count + 1 }) w :=
    .modify (.updateInstrument gateway index fun _ _ => rfl) (fun _ => rfl) fun _ => rfl
  refine hcount.lift.attempt fun _ w₁ _ => ?_
  refine Discreet.read ?_
  split
  · exact .pure (Except.ok ())
  · split
    · exact .pure (Except.error _)
    · exact .forM _ fun c _ _ => (changeGiven_discreet h index c).lift

theorem retransformWith_discreet (h : Transform.Heeds gateway run) (classes : List ClassRef)
    (on : Instrument) (hon : on.Avoids gateway) :
    Discreet gateway (retransformWith run classes on) w := by
  induction on generalizing w with
  | machine => exact Hook.retransform_discreet h classes
  | given index => exact retransformGiven_discreet h index classes
  | gateway other inner ih =>
    intro hw
    have henter := Unobtrusive.entered hon.1
    have hasked : Unasked gateway { w with inFlight := other :: w.inFlight } :=
      ⟨henter.idle w hw.idle, fun t ht => hw.avoids t ((henter.elsewhere w t).mp ht)⟩
    exact (ih hon.2 hasked).bracket hon.1

end Instrument

namespace Transform

variable {gateway : Nat} {w : World} {event : ClassFileEvent} {run : Runner}

theorem firstAct_discreet (h : Heeds gateway run) {a : TransformerAction} (ha : a.Avoids gateway) :
    Discreet gateway (firstAct run a) w := by
  cases a with
  | add | remove => cases ha
  | retransform on classes =>
    refine .get ?_
    split
    · exact (Instrument.retransformWith_discreet h classes on ha).bind fun _ _ _ => .pure _
    · exact .pure _
  | _ => exact .pure _

/-- A transformer that is called notes what it is shown. On its first call it may ask others. -/
theorem act_discreet (h : Heeds gateway run) (event : ClassFileEvent) {t : Nat}
    {action : TransformerAction} {called : Bool} {seen : List ClassFileEvent}
    (hx : w.transformers[t]? = some ⟨action, called, seen⟩) (ht : w.Elsewhere gateway t) :
    Discreet gateway (do
      World.updateTransformer t fun x => { x with called := true, seen := event :: x.seen }
      unless called do firstAct run action
      return answer event action : Action Verdict) w := by
  intro hw
  have hnoted : Discreet gateway
      (World.updateTransformer t fun x => { x with called := true, seen := event :: x.seen }) w :=
    fun _ => .noted ht (fun _ => rfl) fun _ => rfl
  refine (hnoted.bind fun _ w₁ _ => Discreet.bind ?_ fun _ _ _ => .pure _) hw
  cases called with
  | true => exact .pure _
  | false => exact firstAct_discreet h (hw.avoids t ht action (by simp [World.pending, hx]))

theorem runNested_heeds (gateway depth : Nat) : Heeds gateway (runNested depth) := by
  induction depth with
  | zero => exact fun _ _ _ _ => .pure _
  | succ depth ih =>
    intro t event w ht
    refine .get ?_
    cases hx : w.transformers[t]? with
    | none => exact .pure _
    | some x =>
      obtain ⟨action, called, seen⟩ := x
      have hact : w.actionOf t = some action := by
        unfold World.actionOf
        rw [hx]
        rfl
      have hplain (hcallback : ∀ g, action ≠ .callback g) := act_discreet ih event hx <|
        ht.resolve_left fun he => hcallback gateway (Option.some.inj (hact.symm.trans he))
      cases action with
      | capture cache => exact (capture_discreet cache).bind fun _ _ _ => .pure _
      | callback other => exact runCallback_discreet ih other
      | _ => exact hplain nofun

theorem run_heeds (gateway : Nat) : Heeds gateway Transform.run :=
  fun t event w ht => .get (runNested_heeds gateway _ t event w ht)

end Transform

namespace Instrument

variable {gateway : Nat} {w : World}

/-- Whatever is asked of others, by whom and how deep, and whatever is loaded meanwhile: a gateway
of which nothing is asked shows nothing to what is registered with it alone. -/
theorem unasked_shows_nothing (hw : Unasked gateway w) {t : Nat} (ht : ¬ w.Elsewhere gateway t) :
    (∀ on : Instrument, on.Avoids gateway → ∀ classes,
        (on.retransform classes w).2.transformers[t]? = w.transformers[t]?) ∧
      ∀ f, (Hook.onClassFile Transform.run f w).2.transformers[t]? = w.transformers[t]? := by
  have hrun := Transform.run_heeds gateway
  constructor
  · intro on hon classes
    exact (retransformWith_discreet hrun classes on hon hw).spares.spared t ht
  · intro f
    exact (Hook.onClassFile_discreet hrun f hw).spares.spared t ht

section Nesting

/-- Two gateways over one instrument. Of the transformers, 2 asks the second gateway for another
class, and 3 appends a byte. -/
def nesting (first second : List Registration) : World where
  files := ⟨#[], []⟩
  transformers := #[{ action := .callback 0 }, { action := .callback 1 },
    { action := .retransform (.gateway 1 (.given 0)) [namedClass "a.U"] },
    { action := .append [10] }]
  gateways := #[{ queue := first, callback := 0, installed := true },
    { queue := second, callback := 1, installed := true }]
  instruments := #[{
    queue := [⟨0, true⟩, ⟨1, true⟩]
    classes := ⟨[("a.T", [1, 2]), ("a.U", [9])]⟩ }]

/-- What a transformer was shown again, the latest first. -/
def redefinedBy (r : Except Error Unit × World) (t : Nat) : List String :=
  ((r.2.transformers[t]?.map (·.seen)).getD []).filterMap fun e => e.redefined.map (·.name)

theorem unasked_nesting : Unasked 0 (nesting [⟨3, true⟩] [⟨2, true⟩]) := by
  refine ⟨by decide, fun t _ a ha => ?_⟩
  unfold World.pending at ha
  obtain ⟨x, hx, rfl⟩ := Option.map_eq_some_iff.mp ha
  have hmem := Array.mem_of_getElem? (Option.filter_eq_some_iff.mp hx).1
  simp only [nesting, List.mem_toArray, List.mem_cons, List.not_mem_nil, or_false] at hmem
  rcases hmem with rfl | rfl | rfl | rfl
  case inr.inr.inl => exact ⟨by decide, trivial⟩
  all_goals trivial

theorem not_elsewhere_nesting : ¬ (nesting [⟨3, true⟩] [⟨2, true⟩]).Elsewhere 0 3 := by
  rintro ⟨on, r, hr, he⟩
  by_cases hon : ∃ inner, on = .gateway 0 inner
  · obtain ⟨inner, rfl⟩ := hon
    rw [World.queue_without_self] at hr
    cases hr
  rw [World.queue_without on fun inner h => hon ⟨inner, h⟩] at hr
  have hmem := List.mem_of_mem_filter hr
  match on with
  | .machine | .given (_ + 1) | .gateway (_ + 2) _ => cases hmem
  | .gateway 0 inner => exact hon ⟨inner, rfl⟩
  | .given 0 =>
    have hcallback : r = ⟨0, true⟩ ∨ r = ⟨1, true⟩ := by simpa [queue, nesting] using hmem
    rcases hcallback with rfl | rfl <;> cases he
  | .gateway 1 _ =>
    have hasking : r = ⟨2, true⟩ := by simpa [queue, nesting] using hmem
    rw [hasking] at he
    cases he

/-- The second gateway is asked again within its own call, and the first one is shown neither. -/
theorem unasked_shows_nothing_nesting :
    let w := nesting [⟨3, true⟩] [⟨2, true⟩]
    let r := (Instrument.gateway 1 (.given 0)).retransform [namedClass "a.T"] w
    Unasked 0 w ∧ ¬ w.Elsewhere 0 3 ∧ r.2.transformers[3]? = w.transformers[3]? ∧
      redefinedBy r 2 = ["a.U", "a.T"] := by
  refine ⟨unasked_nesting, not_elsewhere_nesting, ?_, by cbv⟩
  exact (unasked_shows_nothing unasked_nesting not_elsewhere_nesting).1 (.gateway 1 (.given 0))
    ⟨by decide, trivial⟩ [namedClass "a.T"]

/-- While the first gateway has a call of its own under way, what is registered with it is also
shown the class that only the second one was asked for, and changes it. -/
theorem nested_call_is_shown :
    let w := nesting [⟨2, true⟩, ⟨3, true⟩] []
    let r := (Instrument.gateway 0 (.given 0)).retransform [namedClass "a.T"] w
    w.actionOf 2 = some (.retransform (.gateway 1 (.given 0)) [namedClass "a.U"]) ∧
      redefinedBy r 3 = ["a.T", "a.U"] ∧ r.2.held 0 "a.U" = some [9, 10] := by
  refine ⟨rfl, ?_, ?_⟩ <;> cbv

end Nesting

end Instrument

end ClassRecovery
