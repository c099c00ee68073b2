import ClassRecovery.Instrument.Transform
import ClassRecovery.Proofs.Instrument.Registering
import ClassRecovery.Proofs.Jvm.Operations

/-!
What the instrument of a machine leaves behind. The machine may call the hook of the process at any
time, and transformers may ask for transformations in turn; whatever they do, what was made for a
call is given back with it.
-/

namespace ClassRecovery

open Jvm (Machine Reference Holdings HeldClass Link Throwable)

/-- The connection that the hook of the process holds. -/
def World.hooked (w : World) : Option Nat := w.hook.map (·.connection)

def Jvm.Holdings.with (K : Holdings) (hooked : Option Nat) : Holdings :=
  { K with connections := hooked.toList ++ K.connections }

theorem Jvm.Holdings.with_cons (K : Holdings) (n : Option Nat) (i : Nat) :
    Holdings.Same { K.with n with connections := i :: (K.with n).connections }
      (Holdings.with { K with connections := i :: K.connections } n) :=
  ⟨List.perm_middle.symm, .refl _, .refl _, .refl _⟩

/-- Something is so of the link while the hook holds a connection, or none. -/
def World.Has (n : Option Nat) (P : Link → Prop) (w : World) : Prop := w.hooked = n ∧ P w.link

/-- The books of the link are right, whatever is pending. -/
abbrev World.Balanced (b : Machine) (reliable : Prop) (owed : List Reference) (K : Holdings)
    (n : Option Nat) : World → Prop :=
  World.Has n (Link.Since b reliable (fun _ => True) owed (K.with n))

/-- Since `b`, what is held is what the hook and others hold. -/
def World.Since (b : Machine) (reliable : Prop) (A : Throwable → Prop) (owed : List Reference)
    (K : Holdings) (w : World) : Prop :=
  w.link.Since b reliable A owed (K.with w.hooked)

/-- Transformers may be run at any time, whoever holds what. -/
def Runner.Balances (run : Runner) : Prop :=
  ∀ (b : Machine) (reliable : Prop) (owed : List Reference) (K : Holdings) (n : Option Nat)
    (t : Nat) (event : ClassFileEvent),
    Ensures (World.Balanced b reliable owed K n) (run t event) fun _ =>
      World.Balanced b reliable owed K n

section

variable {b : Machine} {reliable : Prop} {A B : Throwable → Prop} {owed : List Reference}
  {K : Holdings} {n : Option Nat} {i : Nat} {run : Runner} {ε α : Type} {P : Link → Prop}

theorem mem_with (hn : n = some i) : i ∈ (K.with n).holders := by
  simp [Holdings.holders, Holdings.with, hn]

theorem World.Since.has {w : World} (h : w.Since b reliable A owed K) :
    w.Has w.hooked (Link.Since b reliable A owed (K.with w.hooked)) := ⟨rfl, h⟩

theorem World.Has.since {w : World} (h : w.Has n (Link.Since b reliable A owed (K.with n))) :
    w.Since b reliable A owed K := by
  obtain ⟨rfl, h⟩ := h
  exact h

namespace World

theorem onLink_has {a : StateM Link α} {Q : α → Link → Prop} (h : Ensures P a Q) :
    Ensures (Has n P) (onLink a) fun x => Has n (Q x) :=
  fun w hw => ⟨hw.1, h w.link hw.2⟩

theorem attemptLink_has {a : ExceptT ε (StateM Link) α} {Q : α → Link → Prop} {E : Link → Prop}
    (h : Attains P a Q E) :
    Attains (Has n P) (attemptLink a) (fun x => Has n (Q x)) (Has n E) := by
  intro w hw
  have hlink := h w.link hw.2
  unfold attemptLink
  rcases hrun : a w.link with ⟨e | x, l⟩ <;> rw [hrun] at hlink <;> exact ⟨hw.1, hlink⟩

theorem modify_has {f : World → World} (hlink : ∀ w, (f w).link = w.link)
    (hhook : ∀ w, (f w).hooked = w.hooked) :
    Ensures (Has n P) (modify f : Action PUnit) fun _ => Has n P :=
  .modify fun w hw => ⟨(hhook w).trans hw.1, (hlink w).symm ▸ hw.2⟩

theorem updateHook_has {f : Hook → Hook} (hf : ∀ h, (f h).connection = h.connection) :
    Ensures (Has n P) (updateHook f) fun _ => Has n P :=
  modify_has (fun _ => rfl) fun w => by
    unfold hooked
    cases w.hook <;> simp [hf]

theorem onMachine_has {a : Jvm.Native α} {O : α → List Reference} {Q : α → Throwable → Prop}
    (h : ∀ pins, Ensures (b.Since reliable A owed pins) a
      fun x => b.Since reliable (Q x) (O x) pins) :
    Ensures (Has n (Link.Since b reliable A owed K)) (onMachine a) fun x =>
      Has n (Link.Since b reliable (Q x) (O x) K) :=
  onLink_has (Link.native_since h)

theorem attemptMachine_has {a : ExceptT ε (StateM Machine) α} {O : α → List Reference}
    {Q : α → Throwable → Prop} {F : Throwable → Prop} {owed' : List Reference}
    (h : ∀ pins, Attains (b.Since reliable A owed pins) a
      (fun x => b.Since reliable (Q x) (O x) pins) (b.Since reliable F owed' pins)) :
    Attains (Has n (Link.Since b reliable A owed K)) (attemptMachine a)
      (fun x => Has n (Link.Since b reliable (Q x) (O x) K))
      (Has n (Link.Since b reliable F owed' K)) :=
  attemptLink_has (Link.checked_since h)

end World

open World (Has Balanced)

/-! ### The hook -/

namespace Hook

theorem use_has {a : Jvm.Tool.Use α} {O : α → List Reference}
    (h : ∀ pins, Attains (b.Since reliable A owed pins) a
      (fun x => b.Since reliable A (O x) pins) (b.Since reliable A owed pins)) :
    Attains (Has n (Link.Since b reliable A owed K)) (use a)
      (fun x => Has n (Link.Since b reliable A (O x) K)) (Has n (Link.Since b reliable A owed K)) :=
  .mapFailure (World.attemptMachine_has (Q := fun _ => A) h)

/-- What is passed to a call is given back after it. -/
theorem withArgument_balanced (o : Option Jvm.Object) {use : Option Reference → Action α}
    (h : ∀ r : Option Reference, Ensures (Balanced b reliable (r.toList ++ owed) K n) (use r) fun _ =>
      Balanced b reliable (r.toList ++ owed) K n) :
    Ensures (Balanced b reliable owed K n) (withArgument o use) fun _ =>
      Balanced b reliable owed K n :=
  .bind (World.onMachine_has fun _ => Machine.newLocal?_since o) fun r => .bind (h r) fun _ =>
    .bind (World.onMachine_has (Q := fun _ _ => True) (O := fun _ => owed) fun _ =>
      Machine.deleteLocal_since r) fun _ => .pure fun _ hw => hw

theorem resolve_has {a : Jvm.Linked (Option α)} {Q : Option α → Link → Prop}
    (h : Attains P a Q (Q none)) : Ensures (Has n P) (resolve a) fun x => Has n (Q x) := by
  refine .bind (World.onLink_has (a := a.run) h) fun r => ?_
  cases r with
  | ok x => exact .pure fun _ hw => hw
  | error e => exact .pure fun _ hw => hw

theorem resolveClass_balanced (hn : n = some i) (cls : Option Reference) :
    Ensures (Balanced b reliable owed K n) (resolveClass i cls) fun c =>
      Has n (Link.Met b reliable (fun _ => True) owed (K.with n) c.toList) := by
  cases cls with
  | none => exact .pure fun _ hw => ⟨hw.1, hw.2.met⟩
  | some cls =>
    refine resolve_has (Q := fun c => Link.Met b reliable (fun _ => True) owed (K.with n) c.toList) ?_
    exact .map ((Link.classOf_since (fun _ => mem_with hn) (some cls)).imp
      (fun _ _ h => h.mono fun _ _ => trivial) fun _ h => (h.mono fun _ _ => trivial).met)

end Hook

theorem Transform.runSeries_ensures {J : World → Prop}
    (hrun : ∀ t event, Ensures J (run t event) fun _ => J) (event : ClassFileEvent) (ts : List Nat) :
    Ensures J (runSeries run event ts) fun _ => J := by
  have hgo : ∀ current, Ensures J (runSeries.go run event ts current) fun _ => J := by
    induction ts with
    | nil => intro current; cases current <;> exact .pure fun _ hw => hw
    | cons t ts ih =>
      intro current
      refine .bind (hrun t _) fun v => ?_
      cases v with
      | unchanged => exact ih current
      | replaced bytes => exact ih _
      | panicked => exact .pure fun _ hw => hw
  exact hgo none

theorem Transform.runQueue_ensures {J : World → Prop}
    (hrun : ∀ t event, Ensures J (run t event) fun _ => J) (event : ClassFileEvent)
    (rs : List Registration) : Ensures J (runQueue run event rs) fun _ => J := by
  have hgo : ∀ accepted, Ensures J (runQueue.go run event rs accepted) fun _ => J := by
    induction rs with
    | nil => intro accepted; cases accepted <;> exact .pure fun _ hw => hw
    | cons r rs ih =>
      intro accepted
      refine .bind (hrun r.transformer _) fun v => ?_
      cases v with
      | unchanged => exact ih accepted
      | replaced bytes => exact ih _
      | panicked => exact .pure fun _ hw => hw
  exact hgo none

section Running

variable (hrun : run.Balances)

include hrun

namespace Hook

theorem transform_balanced {h : Hook} (hn : n = some h.connection) (f : ClassFile)
    (cls loader : Option Reference) :
    Ensures (Balanced b reliable owed K n) (transform run h f cls loader) fun _ =>
      Balanced b reliable owed K n := by
  unfold transform
  split
  · exact .pure fun _ hw => hw
  refine .bind (resolve_has (Q := fun _ => Link.Since b reliable (fun _ => True) owed (K.with n))
    ((Link.loaderFor_since (fun _ => mem_with hn) loader).imp (fun _ _ h => h.1) fun _ h =>
      h.mono fun _ _ => trivial)) fun loader => .bind (resolveClass_balanced hn cls) fun redefined => ?_
  refine .bind (R := fun _ => Has n (Link.Met b reliable (fun _ => True) owed (K.with n)
    redefined.toList)) ?_ fun verdict => ?_
  · rintro w ⟨hhook, es, hes, horigin, hl⟩
    obtain ⟨hhook', hl'⟩ := Transform.runSeries_ensures (fun t event =>
      hrun b reliable owed { K with classes := es ++ K.classes } n t event) _ _ w ⟨hhook, hl⟩
    exact ⟨hhook', es, hes, horigin, hl'⟩
  · refine .bind (R := fun _ => Balanced b reliable owed K n) ?_ fun _ => .pure fun _ hw => hw
    rintro w ⟨hhook, hmet⟩
    cases redefined with
    | none =>
      obtain ⟨es, hes, -, hl⟩ := hmet
      obtain rfl := List.map_eq_nil_iff.mp hes
      exact ⟨hhook, hl⟩
    | some c =>
      obtain ⟨index, horigin⟩ := hmet.choose_spec.2.1 c List.mem_cons_self
      obtain ⟨name, kind, loader, origin⟩ := c
      obtain rfl : origin = .object index := horigin
      exact ⟨hhook, Link.releaseAll_since [_] w.link hmet⟩

theorem onClassFile_balanced (f : ClassFile) :
    Ensures (Balanced b reliable owed K n) (onClassFile run f) fun _ =>
      Balanced b reliable owed K n := by
  refine .get_bind fun w hw => .of_imp (fun _ hw => hw.2) ?_
  cases hhook : w.hook with
  | none => exact .pure fun _ hw => hw
  | some h =>
    have hn : n = some h.connection := by
      rw [← hw.1, World.hooked, hhook]
      rfl
    refine .bind (withArgument_balanced f.cls fun cls => withArgument_balanced f.loader fun loader =>
      transform_balanced hrun hn f cls loader) fun verdict => ?_
    cases verdict with
    | unchanged | panicked => exact .pure fun _ hw => hw
    | replaced bytes =>
      refine .bind (World.onMachine_has (Q := fun _ _ => True) (O := fun _ => owed) fun _ =>
        Jvm.Tool.environment_since) fun tool => .bind (World.attemptMachine_has
          (a := Jvm.Tool.allocate tool bytes.length) (Q := fun _ _ => True) (O := fun _ => owed)
          fun _ => Jvm.Tool.allocate_since _ _) fun r => ?_
      cases r with
      | error e => exact .pure fun _ hw => hw
      | ok _ =>
        exact .bind (World.onMachine_has (Q := fun _ _ => True) (O := fun _ => owed) fun _ =>
          Jvm.Tool.memory_since (· - 1)) fun _ => .pure fun _ hw => hw

theorem change_balanced (o : Jvm.Object) :
    Ensures (Balanced b reliable owed K n) (change run o) fun _ => Balanced b reliable owed K n := by
  refine .get_bind fun w _ => .of_imp (fun _ hw => hw.2) ?_
  cases o with
  | cls key =>
    dsimp only
    split
    · exact .pure fun _ hw => hw
    split
    · refine .bind (onClassFile_balanced hrun _) fun r => ?_
      cases r with
      | none => exact .pure fun _ hw => hw
      | some bytes =>
        exact World.onMachine_has (Q := fun _ _ => True) (O := fun _ => owed) fun _ =>
          Jvm.Tool.setBytes_since _ _
    · exact .pure fun _ hw => hw
  | _ => exact .pure fun _ hw => hw

omit hrun in
theorem objectOf_maintains (c : ClassRef) {J : World → Prop} : Maintains J (objectOf c) := by
  unfold objectOf
  dsimp only
  split
  · refine .get_bind fun w _ => .of_imp (fun _ hw => hw.2) ?_
    split
    · exact .ok fun _ hw => hw
    · exact .throw fun _ hw => hw
  · exact .throw fun _ hw => hw

omit hrun in
theorem granted_has (allows : Hook → Bool) :
    Attains (Has n P) (granted allows) (fun h w => Has n P w ∧ n = some h.connection) (Has n P) := by
  refine .get_bind fun w hw => ?_
  split
  · next h hhook =>
    split
    · refine .ok fun _ hw' => ⟨hw'.2, ?_⟩
      rw [← hw.1, World.hooked, hhook]
      rfl
    · exact .throw fun _ hw => hw.2
  · exact .throw fun _ hw => hw.2

theorem retransform_balanced (classes : List ClassRef) :
    Maintains (Balanced b reliable owed K n) (retransform run classes) :=
  .bind ((granted_has _).imp (fun _ _ hw => hw.1) fun _ hw => hw) fun _ =>
    .bind (Maintains.mapM (fun c => objectOf_maintains c) classes) fun objects =>
      .bind (use_has (O := fun _ => owed) fun _ => Jvm.Tool.retransform_since _ _) fun _ =>
        Maintains.forM (fun o => .lift (change_balanced hrun o)) objects

end Hook

namespace Instrument

theorem changeGiven_balanced (index : Nat) (c : ClassRef) :
    Ensures (Balanced b reliable owed K n) (changeGiven run index c) fun _ =>
      Balanced b reliable owed K n := by
  refine .get_bind fun w _ => .of_imp (fun _ hw => hw.2) ?_
  split
  · exact .pure fun _ hw => hw
  split
  · exact .pure fun _ hw => hw
  · exact .bind (Transform.runSeries_ensures (fun t event => hrun b reliable owed K n t event) _ _)
      fun _ => World.modify_has (fun _ => rfl) fun _ => rfl

theorem retransformGiven_balanced (index : Nat) (classes : List ClassRef) :
    Maintains (Balanced b reliable owed K n) (retransformGiven run index classes) := by
  refine .lift_bind (World.modify_has (fun _ => rfl) fun _ => rfl) fun _ =>
    .get_bind fun w _ => .of_imp (fun _ hw => hw.2) ?_
  split
  · exact .ok fun _ hw => hw
  split
  · exact .throw fun _ hw => hw
  · exact Maintains.forM (fun c => .lift (changeGiven_balanced hrun index c)) _

theorem retransformWith_balanced (classes : List ClassRef) (i : Instrument) :
    Maintains (Balanced b reliable owed K n) (i.retransformWith run classes) := by
  induction i with
  | machine => exact Hook.retransform_balanced hrun classes
  | given index => exact retransformGiven_balanced hrun index classes
  | gateway index inner ih =>
    exact .lift_bind (World.modify_has (fun _ => rfl) fun _ => rfl) fun _ => .andAlways ih
      (fun _ => World.modify_has (fun _ => rfl) fun _ => rfl)
      (World.modify_has (fun _ => rfl) fun _ => rfl)

omit hrun

theorem addTransformer_has (r : Registration) (i : Instrument) :
    Ensures (Has n P) (i.addTransformer r) fun _ => Has n P := by
  induction i generalizing r with
  | machine => exact World.updateHook_has fun _ => rfl
  | given index => exact World.modify_has (fun _ => rfl) fun _ => rfl
  | gateway index inner ih =>
    intro w hw
    have hregister : Has n P (Threads.register inner index w) := by
      unfold Threads.register
      cases callbackOf index w with
      | none => exact hw
      | some callback => exact ih _ w hw
    have hinstalled : Has n P (installed index inner w) := by
      unfold installed
      split
      · exact hw
      · exact hregister
    rw [addTransformer_gateway]
    exact hinstalled

theorem removeTransformer_has (transformer : Nat) (i : Instrument) :
    Ensures (Has n P) (i.removeTransformer transformer) fun _ => Has n P := by
  refine .get_bind fun w _ => .of_imp (fun _ hw => hw.2) (.bind (R := fun _ => Has n P) ?_ fun _ =>
    .pure fun _ hw => hw)
  cases i with
  | machine => exact World.updateHook_has fun _ => rfl
  | given index => exact World.modify_has (fun _ => rfl) fun _ => rfl
  | gateway index inner => exact World.modify_has (fun _ => rfl) fun _ => rfl

end Instrument

/-! ### Transformers -/

namespace Transform

include hrun

theorem firstAct_balanced (action : TransformerAction) :
    Ensures (Balanced b reliable owed K n) (firstAct run action) fun _ =>
      Balanced b reliable owed K n := by
  have hheld : ∀ (on : Instrument) (a : Action Unit),
      (Ensures (Balanced b reliable owed K n) a fun _ => Balanced b reliable owed K n) →
      Ensures (Balanced b reliable owed K n) (do if on.isHeld (← get) then a) fun _ =>
        Balanced b reliable owed K n := by
    refine fun on a ha => .get_bind fun w _ => .of_imp (fun _ hw => hw.2) ?_
    split
    · exact ha
    · exact .pure fun _ hw => hw
  cases action with
  | retransform on classes =>
    refine hheld on _ (.bind (R := fun _ => Balanced b reliable owed K n) ?_ fun _ =>
      .pure fun _ hw => hw)
    refine .imp (Instrument.retransformWith_balanced hrun classes on) fun r _ hw => ?_
    cases r <;> exact hw
  | add on r => exact hheld on _ (Instrument.addTransformer_has r on)
  | remove on t =>
    exact hheld on _ (.bind (Instrument.removeTransformer_has t on) fun _ => .pure fun _ hw => hw)
  | _ => exact .pure fun _ hw => hw

theorem runCallback_balanced (gateway : Nat) (event : ClassFileEvent) :
    Ensures (Balanced b reliable owed K n) (runCallback run gateway event) fun _ =>
      Balanced b reliable owed K n := by
  refine .get_bind fun w _ => .of_imp (fun _ hw => hw.2) ?_
  split
  · exact runQueue_ensures (fun t event => hrun b reliable owed K n t event) _ _
  · exact .pure fun _ hw => hw

omit hrun

theorem capture_has (cache : Nat) (event : ClassFileEvent) :
    Ensures (Has n P) (capture cache event) fun _ => Has n P := by
  unfold capture
  split
  · exact .pure fun _ hw => hw
  · exact World.modify_has (fun _ => rfl) fun _ => rfl

/-- Transformers give back what is made for what they ask, however deep that nests. -/
theorem runNested_balances (depth : Nat) : Runner.Balances (runNested depth) := by
  induction depth with
  | zero => exact fun _ _ _ _ _ _ _ => .pure fun _ hw => hw
  | succ depth ih =>
    intro b reliable owed K n index event
    refine .get_bind fun w _ => .of_imp (fun _ hw => hw.2) ?_
    split
    · exact .pure fun _ hw => hw
    split
    · exact .bind (capture_has _ _) fun _ => .pure fun _ hw => hw
    · exact runCallback_balanced ih _ _
    next t _ _ _ _ =>
    refine .bind (World.modify_has (fun _ => rfl) fun _ => rfl) fun _ => ?_
    cases t.called with
    | true => exact .pure fun _ hw => hw
    | false => exact .bind (firstAct_balanced ih _) fun _ => .pure fun _ hw => hw

theorem run_balances : Runner.Balances Transform.run := fun b reliable owed K n index event =>
  .get_bind fun _ _ => .of_imp (fun _ hw => hw.2)
    (runNested_balances _ b reliable owed K n index event)

end Transform

end Running

/-! ### Loaded classes -/

namespace Hook

/-- A class that cannot be met is left out, and may leave an exception. -/
theorem collect_since (hA : ∀ t, b.MeetThrows t → A t) (hn : n = some i) (rs : List Reference)
    {found : List ClassRef} :
    Ensures (Has n (Link.Met b reliable A (rs ++ owed) (K.with n) found)) (collect i rs found)
      fun cs => Has n (Link.Met b reliable A owed (K.with n) cs) := by
  induction rs generalizing found with
  | nil => exact .pure fun _ hw => ⟨hw.1, hw.2.reverse⟩
  | cons r rs ih =>
    refine .bind (R := fun c => Has n (Link.Met b reliable A (rs ++ owed) (K.with n)
      (c.toList ++ found))) (resolve_has (Q := fun c => Link.Met b reliable A (rs ++ owed)
        (K.with n) (c.toList ++ found)) ?_) fun c => ih
    refine Link.attains_met fun es hes horigin => ?_
    refine (Link.holding_met (r := some r) (f := Option.toList) (.map (Link.classOf_since
      (fun _ => Link.mem_holders_append (mem_with hn)) (some r)))).imp (fun c l h => ?_)
      fun l h => ?_
    · exact (h.mono fun _ => False.elim).append hes horigin
    · exact ⟨es, hes, horigin, h.mono fun t => (·.elim id (hA t))⟩

theorem allLoaded_since :
    Attains (Has n (Link.Since b reliable A owed (K.with n))) allLoaded
      (fun cs => Has n (Link.Met b reliable (fun t => A t ∨ b.MeetThrows t) owed (K.with n) cs))
      (Has n (Link.Since b reliable A owed (K.with n))) := by
  refine .bind (granted_has _) fun h => ?_
  rintro w ⟨hw, hn⟩
  refine Attains.bind (World.attemptMachine_has (O := fun _ => owed) (Q := fun _ => A) fun _ =>
    Jvm.Checked.environment_since.imp (fun _ _ h => h) fun _ h => h.1) (fun _ => ?_) w hw
  refine .bind (use_has fun _ => Jvm.Tool.loadedClasses_since _) fun rs => .lift ?_
  exact .of_imp (fun _ hw => ⟨hw.1, (hw.2.mono fun _ => .inl).met⟩)
    (collect_since (fun _ => .inr) hn rs)

/-! ### Installing the hook -/

theorem prepare_has (connection : Nat) :
    Attains (Has n (Link.Since b reliable A owed K)) (prepare connection)
      (fun h w => Has n (Link.Since b reliable A owed K) w ∧ h.connection = connection)
      (Has n (Link.Since b reliable A owed K)) := by
  refine .bind (.mapFailure (World.attemptMachine_has (O := fun _ => owed) (Q := fun _ => A) fun _ =>
    Jvm.Tool.obtain_since)) fun tool => .bind (use_has fun _ =>
      Jvm.Tool.potentialCapabilities_since tool) fun potential => .bind (use_has fun _ =>
        Jvm.Tool.addCapabilities_since tool _) fun _ => .bind (use_has fun _ =>
          Jvm.Tool.capabilities_since tool) fun granted => .ok fun _ hw => ⟨hw, rfl⟩

theorem publish_has {h : Hook} (hi : reliable → h.connection ∈ K.holders) :
    Ensures (Has none (Link.Since b reliable A owed K)) (publish h) fun _ =>
      Has (some h.connection) (Link.Since b reliable A owed (K.with (some h.connection))) := by
  refine .bind (R := fun _ => Has none (Link.Since b reliable A owed (K.with (some h.connection))))
    (World.onLink_has fun l hl => ?_) fun _ => .modify fun w hw => ⟨rfl, hw.2⟩
  exact Link.retain_since hi l hl

/-- The hook holds a connection from its publication on, whatever fails after that. -/
theorem install_since (hi : reliable → i ∈ K.holders) :
    Maintains (World.Since b reliable A owed K) (install i) := by
  refine .get_bind fun w hw => ?_
  split
  · exact .ok fun _ hw => hw.2
  next hnone =>
  have hhooked : w.hooked = none := by
    unfold World.hooked
    cases hhook : w.hook with
    | none => rfl
    | some h => simp [hhook] at hnone
  have hstart : w.Has none (Link.Since b reliable A owed K) := by
    have hhas := hw.has
    rw [hhooked] at hhas
    exact hhas
  rintro v ⟨rfl, -⟩
  refine Attains.bind (R := fun h w => Has none (Link.Since b reliable A owed K) w ∧
    h.connection = i) ((prepare_has i).imp (fun _ _ h => h) fun _ hw => hw.since) (fun h => ?_) v
      hstart
  rintro w ⟨hw, rfl⟩
  refine Attains.lift_bind (publish_has hi) (fun _ => ?_) w hw
  refine .bind ((use_has (O := fun _ => owed) fun _ =>
    Jvm.Tool.setCallbacks_since h.tool true).imp (fun _ _ h => h) fun _ hw => hw.since) fun _ => ?_
  exact .bind ((use_has (O := fun _ => owed) fun _ => Jvm.Tool.setEventMode_since h.tool true
    Jvm.Tool.classFileEvent).imp (fun _ _ hw => hw) fun _ hw => hw.since)
    fun _ => .ok fun _ hw => hw.since

end Hook

end

end ClassRecovery
