import ClassRecovery.Proofs.Instrument.Isolation

/-!
Runners that cannot be told apart on a thread with given marks. Whatever is built over them cannot
be told apart either, and leaves the marks of the thread as they were; for all that an instrument
does with a runner is to ask it.
-/

namespace ClassRecovery

variable {ε δ α β ι : Type} {marks : List Nat}

/-- On a thread with these marks both come to the same, and the marks stay. -/
def Agrees (marks : List Nat) (x y : Action α) : Prop :=
  ∀ w, w.inFlight = marks → x w = y w ∧ (x w).2.inFlight = marks

/-- The runners agree on whatever they are asked. -/
def Runner.Agree (marks : List Nat) (run run' : Runner) : Prop :=
  ∀ t event, Agrees marks (run t event) (run' t event)

/-- The thread has the mark of a gateway, and at the end something is done before that goes. -/
def marked (gateway : Nat) (finish : Action Unit) (x : Attempt ε α) : Attempt ε α := do
  modify (·.entered gateway)
  andAlways (do finish; modify (·.left gateway)) x

theorem marked_apply (gateway : Nat) (finish : Action Unit) (x : Attempt ε α) (w : World) :
    marked gateway finish x w =
      ((x (w.entered gateway)).1, (finish (x (w.entered gateway)).2).2.left gateway) := by
  change andAlways _ x (w.entered gateway) = _
  rw [andAlways_apply]
  rfl

namespace Agrees

theorem pure (v : α) : Agrees marks (pure v : Action α) (pure v) := fun _ hw => ⟨rfl, hw⟩

theorem bind {x y : Action α} {f g : α → Action β} (hx : Agrees marks x y)
    (hf : ∀ v, Agrees marks (f v) (g v)) : Agrees marks (x >>= f) (y >>= g) := by
  intro w hw
  obtain ⟨hsame, hmarks⟩ := hx w hw
  obtain ⟨hsame', hmarks'⟩ := hf (x w).1 (x w).2 hmarks
  refine ⟨?_, hmarks'⟩
  rw [Action.bind_apply, Action.bind_apply, ← hsame]
  exact hsame'

theorem attempt {x y : Attempt ε α} {f g : α → Attempt ε β} (hx : Agrees marks x y)
    (hf : ∀ v, Agrees marks (f v) (g v)) :
    Agrees marks (x >>= f : Attempt ε β) (y >>= g : Attempt ε β) := by
  refine Agrees.bind (x := (x : Action (Except ε α))) (y := (y : Action (Except ε α)))
    (f := (ExceptT.bindCont f : _ → Action _)) (g := (ExceptT.bindCont g : _ → Action _)) hx ?_
  intro r
  cases r with
  | ok v => exact hf v
  | error e => exact .pure (Except.error e)

theorem lift {x y : Action α} (h : Agrees marks x y) :
    Agrees marks (liftM x : Attempt ε α) (liftM y : Attempt ε α) :=
  Agrees.bind h fun v => .pure (Except.ok v)

theorem modify {f : World → World} (hf : ∀ w, (f w).inFlight = w.inFlight) :
    Agrees marks (modify f) (modify f) := fun w hw => ⟨rfl, (hf w).trans hw⟩

theorem onLink (x : StateM Jvm.Link α) : Agrees marks (World.onLink x) (World.onLink x) :=
  fun _ hw => ⟨rfl, hw⟩

theorem get {f g : World → Action α} (h : ∀ w, w.inFlight = marks → Agrees marks (f w) (g w)) :
    Agrees marks (get >>= f) (get >>= g) := fun w hw => h w hw w hw

theorem read {f g : World → Attempt ε α} (h : ∀ w, Agrees marks (f w) (g w)) :
    Agrees marks (MonadState.get >>= f : Attempt ε α) (MonadState.get >>= g : Attempt ε α) :=
  fun w hw => h w w hw

theorem mapFailure {x y : Attempt ε α} {f : ε → δ} (h : Agrees marks x y) :
    Agrees marks (mapFailure f x) (mapFailure f y) := by
  intro w hw
  obtain ⟨hsame, hmarks⟩ := h w hw
  unfold ClassRecovery.mapFailure
  rw [← hsame]
  rcases hx : x w with ⟨_ | _, _⟩ <;> rw [hx] at hmarks <;> exact ⟨rfl, hmarks⟩

theorem forM {f g : β → Attempt ε PUnit} (h : ∀ b, Agrees marks (f b) (g b)) (l : List β) :
    Agrees marks (l.forM f : Attempt ε PUnit) (l.forM g : Attempt ε PUnit) := by
  induction l with
  | nil => exact .pure (Except.ok ())
  | cons b rest ih => exact (h b).attempt fun _ => ih

/-- A mark that is set for a while and then taken away. -/
theorem marked {gateway : Nat} {x y : Attempt ε α} {finish finish' : Action Unit}
    (h : Agrees (gateway :: marks) x y) (hfinish : Agrees (gateway :: marks) finish finish') :
    Agrees marks (marked gateway finish x) (marked gateway finish' y) := by
  intro w hw
  have henter : (w.entered gateway).inFlight = gateway :: marks := by rw [World.entered, hw]
  obtain ⟨hsame, hmarks⟩ := h _ henter
  obtain ⟨hsame', hmarks'⟩ := hfinish _ hmarks
  rw [marked_apply, marked_apply, ← hsame, ← hsame']
  refine ⟨rfl, ?_⟩
  change List.erase _ gateway = marks
  rw [hmarks', List.erase_cons_head]

end Agrees

namespace Transform

variable {run run' : Runner}

theorem askEach_agrees {who : ι → Nat} {shown : Option Bytes → ClassFileEvent}
    {take : ι → Bytes → Option Bytes → Option Bytes} {finish : Option Bytes → Verdict}
    (h : run.Agree marks run') (l : List ι) (kept : Option Bytes) :
    Agrees marks (askEach run who shown take finish l kept)
      (askEach run' who shown take finish l kept) := by
  induction l generalizing kept with
  | nil => exact .pure _
  | cons i rest ih =>
    refine (h _ _).bind fun v => ?_
    cases v with
    | unchanged => exact ih kept
    | replaced bytes => exact ih _
    | panicked => exact .pure _

theorem runQueue_agrees (h : run.Agree marks run') (event : ClassFileEvent)
    (queue : List Registration) :
    Agrees marks (runQueue run event queue) (runQueue run' event queue) := by
  rw [runQueue_eq, runQueue_eq]
  exact askEach_agrees h queue none

theorem runSeries_agrees (h : run.Agree marks run') (event : ClassFileEvent) (ts : List Nat) :
    Agrees marks (runSeries run event ts) (runSeries run' event ts) := by
  rw [runSeries_eq, runSeries_eq]
  exact askEach_agrees h ts none

end Transform

namespace Hook

variable {run run' : Runner}

theorem resolve_agrees (a : Jvm.Linked (Option α)) : Agrees marks (resolve a) (resolve a) := by
  refine (Agrees.onLink _).bind fun r => ?_
  cases r <;> exact .pure _

theorem withArgument_agrees (o : Option Jvm.Object)
    {use use' : Option Jvm.Reference → Action α} (h : ∀ r, Agrees marks (use r) (use' r)) :
    Agrees marks (withArgument o use) (withArgument o use') :=
  (Agrees.onLink _).bind fun r => (h r).bind fun x => (Agrees.onLink _).bind fun _ => .pure x

theorem transform_agrees (h : run.Agree marks run') (hook : Hook) (f : ClassFile)
    (cls loader : Option Jvm.Reference) :
    Agrees marks (transform run hook f cls loader) (transform run' hook f cls loader) := by
  unfold transform
  split
  · exact .pure _
  refine (resolve_agrees _).bind fun found => ?_
  have hclass : Agrees marks (resolveClass hook.connection cls)
      (resolveClass hook.connection cls) := by
    cases cls with
    | none => exact .pure _
    | some cls => exact resolve_agrees _
  refine hclass.bind fun redefined => (Transform.runSeries_agrees h _ _).bind fun verdict => ?_
  dsimp only
  split
  · exact (Agrees.onLink _).bind fun _ => .pure _
  · exact .pure _

theorem onClassFile_agrees (h : run.Agree marks run') (f : ClassFile) :
    Agrees marks (onClassFile run f) (onClassFile run' f) := by
  refine .get fun w _ => ?_
  cases w.hook with
  | none => exact .pure _
  | some hook =>
    refine (withArgument_agrees f.cls fun cls => withArgument_agrees f.loader fun loader =>
      transform_agrees h hook f cls loader).bind fun verdict => ?_
    cases verdict with
    | unchanged => exact .pure _
    | panicked => exact .pure _
    | replaced bytes =>
      refine (Agrees.onLink _).bind fun tool => ?_
      have halloc : Agrees marks (World.attemptMachine (Jvm.Tool.allocate tool bytes.length)).run
          (World.attemptMachine (Jvm.Tool.allocate tool bytes.length)).run :=
        .onLink (Jvm.Link.checked (Jvm.Tool.allocate tool bytes.length)).run
      refine halloc.bind fun r => ?_
      cases r with
      | error e => exact .pure _
      | ok _ => exact (Agrees.onLink _).bind fun _ => .pure _

theorem change_agrees (h : run.Agree marks run') (o : Jvm.Object) :
    Agrees marks (change run o) (change run' o) := by
  refine .get fun w _ => ?_
  cases o with
  | cls key =>
    dsimp only
    split
    · exact .pure _
    split
    · refine (onClassFile_agrees h _).bind fun r => ?_
      cases r with
      | none => exact .pure _
      | some bytes => exact .onLink _
    · exact .pure _
  | _ => exact .pure _

theorem retransform_agrees (h : run.Agree marks run') (classes : List ClassRef) :
    Agrees marks (retransform run classes) (retransform run' classes) := by
  intro w hw
  cases hhook : w.hook with
  | none =>
    rw [retransform_eq_of_none classes hhook, retransform_eq_of_none classes hhook]
    exact ⟨rfl, hw⟩
  | some hook =>
    rw [retransform_eq_of_hook classes hhook, retransform_eq_of_hook classes hhook]
    split
    · obtain ⟨r, hr, -⟩ := mapM_objectOf_eq classes (rfl : w.link = w.link)
      rw [bind_apply, bind_apply, hr]
      cases r with
      | error e => exact ⟨rfl, hw⟩
      | ok objects =>
        have hasked : Agrees marks (use (Jvm.Tool.retransform hook.tool objects))
            (use (Jvm.Tool.retransform hook.tool objects)) :=
          .mapFailure (.onLink (Jvm.Link.checked (Jvm.Tool.retransform hook.tool objects)).run)
        exact hasked.attempt (fun _ => .forM (fun o => (change_agrees h o).lift) objects) w hw
    · exact ⟨rfl, hw⟩

end Hook

namespace Instrument

variable {run run' : Runner}

theorem changeGiven_agrees (h : run.Agree marks run') (index : Nat) (c : ClassRef) :
    Agrees marks (changeGiven run index c) (changeGiven run' index c) := by
  refine .get fun w _ => ?_
  split
  · exact .pure _
  split
  · exact .pure _
  · exact (Transform.runSeries_agrees h _ _).bind fun _ => .modify fun _ => rfl

theorem retransformGiven_agrees (h : run.Agree marks run') (index : Nat) (classes : List ClassRef) :
    Agrees marks (retransformGiven run index classes) (retransformGiven run' index classes) := by
  have hcount : Agrees marks (World.updateInstrument index fun i => { i with count := i.count + 1 })
      (World.updateInstrument index fun i => { i with count := i.count + 1 }) :=
    .modify fun _ => rfl
  refine hcount.lift.attempt fun _ => .read fun w => ?_
  split
  · exact .pure (Except.ok ())
  split
  · exact .pure (Except.error _)
  · exact .forM (fun c => (changeGiven_agrees h index c).lift) _

end Instrument

end ClassRecovery
