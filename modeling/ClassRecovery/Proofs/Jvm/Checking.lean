import ClassRecovery.Proofs.Jvm.Ledger
import ClassRecovery.Jvm.Stream

/-!
What calls on a machine leave behind that check for exceptions. A check leaves nothing pending, and
what was made for a call is given back when the call is done.
-/

namespace ClassRecovery.Jvm

open Machine

variable {b m : Machine} {reliable : Prop} {A B F : Throwable → Prop}
  {owed pins pins' : List Reference} {α : Type}

namespace Checked

/-- A machine that serves gives an environment. -/
theorem environment_serves (h : m.Serves) : (environment m).1 = .ok () := by
  have hanswer : (environmentAnswer m).1 = 0 ∨ (environmentAnswer m).1 = detached := by
    change m.description.environmentAnswer.getD _ = 0 ∨ m.description.environmentAnswer.getD _ = _
    cases hgiven : m.description.environmentAnswer with
    | some answer => exact h.1.environment answer hgiven
    | none => cases m.attached <;> simp
  have hattach : (attachThread (environmentAnswer m).2).1 = 0 := by
    rw [← h.1.attach]
    unfold attachThread
    rw [state_bind_apply, state_get_bind]
    dsimp only
    split <;> rfl
  unfold environment
  rw [lift_bind_apply]
  rcases hanswer with hanswer | hanswer
  · rw [hanswer, if_neg (by decide), if_neg (by decide)]
    rfl
  · rw [hanswer, if_pos rfl, lift_bind_apply, hattach, if_neg (by decide)]
    rfl

/-- Nothing changes but that the thread gets attached, and a reliable machine does not refuse. -/
theorem environment_since :
    Attains (b.Since reliable A owed pins) environment (fun _ => b.Since reliable A owed pins)
      (fun m => b.Since reliable A owed pins m ∧ ¬ reliable) := by
  have hsince : Attains (b.Since reliable A owed pins) environment
      (fun _ => b.Since reliable A owed pins) (b.Since reliable A owed pins) := by
    refine .lift_bind (R := fun _ => b.Since reliable A owed pins) (fun _ h => h) fun answer => ?_
    split
    · refine .lift_bind attachThread_since fun code => ?_
      split
      · exact .throw fun _ h => h
      · exact .ok fun _ h => h
    split
    · exact .throw fun _ h => h
    · exact .ok fun _ h => h
  intro m h
  have hm := hsince m h
  have hserves : reliable → (environment m).1 = .ok () :=
    fun hr => environment_serves (h.ledger hr).1
  rcases hrun : environment m with ⟨e | _, m'⟩ <;> rw [hrun] at hm hserves
  · exact ⟨hm, fun hr => nomatch hserves hr⟩
  · exact hm

/-- Whatever comes of the use, the reference is given back. -/
theorem holding_since {r : Option Reference} {use : Checked α} {Q : α → Throwable → Prop}
    {O P : α → List Reference}
    (h : Attains (b.Since reliable A (r.toList ++ owed) pins) use
      (fun x => b.Since reliable (Q x) (O x ++ (r.toList ++ owed)) (P x))
      (b.Since reliable F (r.toList ++ owed) pins')) :
    Attains (b.Since reliable A (r.toList ++ owed) pins) (holding r use)
      (fun x => b.Since reliable (Q x) (O x ++ owed) (P x)) (b.Since reliable F owed pins') :=
  .andAlways h (fun x => deleteLocal_middle (O x) r) (deleteLocal_since r)

theorem findClass?_since (name : String) :
    Ensures (b.Since reliable A owed pins) (findClass? name) fun r =>
      b.Since reliable (IfGiven r A) (r.toList ++ owed) pins := by
  unfold findClass?
  split
  · exact findClass_since name
  · exact .pure fun _ h => h.given_none

theorem methodId_since (isStatic : Bool) (owner : Object) (name signature : String) :
    Ensures (b.Since reliable A owed pins) (methodId isStatic owner name signature) fun found =>
      b.Since reliable (fun t => A t ∨ found = false ∧ b.LookupThrows isStatic name t) owed pins := by
  unfold methodId
  split
  · exact Machine.methodId_since isStatic owner name signature
  · exact .pure fun _ h => h.mono fun _ => .inl

theorem newString?_since (s : String) :
    Ensures (b.Since reliable A owed pins) (newString? s) fun r =>
      b.Since reliable (IfGiven r A) (r.toList ++ owed) pins := by
  unfold newString?
  split
  · exact newString_since _
  · exact .pure fun _ h => h.given_none

theorem stringText_since (r : Option Reference) :
    Ensures (b.Since reliable A owed pins) (stringText r) fun text =>
      b.Since reliable (fun t => A t ∨ text = none ∧ b.CharsThrow t) owed pins := by
  cases r with
  | none => exact .pure fun _ h => h.mono fun _ => .inl
  | some r =>
    refine .bind (stringChars_since _) fun content => ?_
    cases content with
    | none => exact .pure fun _ h => h.mono fun _ => .imp_right fun ht => ⟨rfl, ht.2⟩
    | some content =>
      exact .bind releaseChars_since fun _ => .pure fun _ h => h.mono fun _ ht =>
        .inl (ht.resolve_right fun hnone => nomatch hnone.1)

/-- Nothing stays pending, whatever was. -/
theorem describeThrowable_since (t : Object) :
    Ensures (b.Since reliable A owed pins) (describeThrowable t) fun _ =>
      b.Since reliable B owed pins := by
  have hend : ∀ (cls : Reference) (text : Option String),
      Ensures (b.Since reliable (fun _ => True) (cls :: owed) pins) (do
        deleteLocal (some cls)
        if ← exceptionCheck then clearException
        return text.getD unprintable) fun _ => b.Since reliable B owed pins := by
    refine fun cls text => .bind (deleteLocal_since (some cls)) fun _ => .get_bind fun m _ => ?_
    dsimp only
    split
    · exact .bind (.of_imp (fun _ h => h.2) clearException_since) fun _ => .pure fun _ h => h
    · next hnone =>
      refine .pure fun _ h => h.2.calm ?_
      rw [h.1]
      simpa using hnone
  refine .bind (newLocal_since _) fun cls => .bind (methodId_since _ _ _ _) fun found => ?_
  split
  · refine .bind (callObject_since t _) fun s => .bind (stringText_since s) fun text =>
      .bind (.of_imp (fun _ h => h.any) (deleteLocal_since s)) fun _ => hend cls text
  · exact .of_imp (fun _ h => h.any) (hend cls none)

/-- Nothing stays pending, and only what was pending is taken. -/
theorem takeException_since :
    Ensures (b.Since reliable A owed pins) takeException fun r m =>
      b.Since reliable B (r.toList ++ owed) pins m ∧ (r.isSome → ∃ t, A t) := by
  refine .bind exceptionOccurred_since fun r => ?_
  cases r with
  | none => exact .pure fun _ h => ⟨h.1.calm (h.2.1 rfl), h.2.2⟩
  | some t =>
    intro m h
    exact ⟨clearException_since m h.1, h.2.2⟩

/-- A check leaves nothing pending, and fails only if something was. -/
theorem check_since (context : String) :
    Attains (b.Since reliable A owed pins) (check context)
      (fun _ => b.Since reliable B owed pins)
      (fun m => b.Since reliable (fun _ => False) owed pins m ∧ ∃ t, A t) := by
  refine .lift_bind (takeException_since (B := fun _ => False)) fun r => ?_
  cases r with
  | none => exact .ok fun _ h => h.1.nothing
  | some t =>
    intro m h
    have hthrow : Attains (b.Since reliable (fun _ => False) (t :: owed) pins) (do
        let text ← describeThrowable t.object
        deleteLocal (some t)
        jni s!"{context}: {text}" : Checked Unit) (fun _ => b.Since reliable B owed pins)
        (b.Since reliable (fun _ => False) owed pins) :=
      .lift_bind (describeThrowable_since _) fun text =>
        .lift_bind (deleteLocal_since (some t)) fun _ => .throw fun _ h => h
    exact hthrow.imp (fun _ _ h => h) (fun _ hs => ⟨hs, h.2 rfl⟩) m h.1

theorem check_calms (context : String) :
    Attains (b.Since reliable A owed pins) (check context)
      (fun _ => b.Since reliable B owed pins) (b.Since reliable F owed pins) :=
  (check_since context).imp (fun _ _ h => h) fun _ h => h.1.nothing

theorem withClass_since (name : String) {use : Object → Checked α} {Q : α → Throwable → Prop}
    {O P : α → List Reference}
    (h : ∀ cls : Reference, Attains (b.Since reliable A (cls :: owed) pins) (use cls.object)
      (fun x => b.Since reliable (Q x) (O x ++ cls :: owed) (P x))
      (b.Since reliable F (cls :: owed) pins)) :
    Attains (b.Since reliable A owed pins) (withClass name use)
      (fun x => b.Since reliable (Q x) (O x ++ owed) (P x)) (b.Since reliable F owed pins) := by
  refine .lift_bind (findClass?_since name) fun cls => ?_
  cases cls with
  | some cls =>
    refine .of_imp (fun _ hs => hs.mono fun _ ht => ht rfl) ?_
    exact holding_since (r := some cls) (h cls)
  | none => exact .bind (check_calms (B := F) name) fun _ => .throw fun _ h => h

theorem requireMethod_since (className name signature : String) :
    Attains (b.Since reliable A owed pins) (requireMethod className name signature)
      (fun _ => b.Since reliable (fun _ => False) owed pins) (b.Since reliable F owed pins) := by
  refine withClass_since className (O := fun _ => []) fun cls =>
    .lift_bind (methodId_since _ _ _ _) fun found =>
      .bind (check_calms (B := fun _ => False) name) fun _ => ?_
  split
  · exact .throw fun _ h => h.nothing
  · exact .ok fun _ h => h

theorem withString_since (s : String) {use : Checked α} {Q : α → Throwable → Prop}
    {O P : α → List Reference} {E : Machine → Prop} {R : Reference → Machine → Prop}
    (h : ∀ r : Reference, Attains (b.Since reliable A (r :: owed) pins) use
      (fun x => b.Since reliable (Q x) (O x ++ r :: owed) (P x)) (R r))
    (hdelete : ∀ r, Ensures (R r) (deleteLocal (some r)) fun _ => E)
    (hcalm : ∀ m, b.Since reliable (fun _ => False) owed pins m → E m) :
    Attains (b.Since reliable A owed pins) (withString s use)
      (fun x => b.Since reliable (Q x) (O x ++ owed) (P x)) E := by
  refine .lift_bind (newString?_since s) fun r => ?_
  cases r with
  | some r =>
    refine .of_imp (fun _ hs => hs.mono fun _ ht => ht rfl) ?_
    exact .andAlways (h r) (fun x => deleteLocal_middle (O x) (some r)) (hdelete r)
  | none => exact .bind ((check_calms _).imp (fun _ _ h => h) hcalm) fun _ => .throw hcalm

theorem callFlag_since (cls : Object) (method : String) :
    Attains (b.Since reliable A owed pins) (callFlag cls method)
      (fun _ => b.Since reliable B owed pins) (b.Since reliable F owed pins) :=
  .bind (requireMethod_since _ _ _) fun _ => .lift_bind (callBoolean_since _ _) fun _ =>
    .bind (check_calms _) fun _ => .ok fun _ h => h

theorem throwableIs_since (t : Object) (name : String) :
    Ensures (b.Since reliable A owed pins) (throwableIs t name) fun _ =>
      b.Since reliable A owed pins := by
  refine .bind (findClass?_since name) fun cls => ?_
  cases cls with
  | some cls =>
    exact .bind (deleteLocal_since (some cls)) fun _ => .pure fun _ h => h.mono fun _ ht => ht rfl
  | none => exact .bind clearException_since fun _ => .pure fun _ h => h

end Checked

/-! ### Pins -/

theorem pin_since (o : Object) :
    Ensures (b.Since reliable A owed pins) (pin o) fun
      | some r => b.Since reliable A owed (r :: pins)
      | none => b.Since reliable (fun t => A t ∨ b.PinThrows t) owed pins :=
  newGlobal_since o

theorem unpin_since (r : Reference) :
    Ensures (b.Since reliable A owed (r :: pins)) (unpin r) fun _ =>
      b.Since reliable A owed pins := by
  refine .bind Checked.environment_since fun found => ?_
  cases found with
  | ok _ => exact deleteGlobal_since r
  | error e => exact .pure fun _ h => ⟨h.1.description, h.1.turns, h.1.pending, fun hr =>
      absurd hr h.2⟩

end ClassRecovery.Jvm
