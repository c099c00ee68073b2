import ClassRecovery.Jvm.Tool
import ClassRecovery.Proofs.Jvm.Checking

/-!
What reading resources and using the tool interface leave behind.
-/

namespace ClassRecovery.Jvm

open Machine

variable {b : Machine} {reliable : Prop} {A B : Throwable → Prop} {owed pins : List Reference}
  {α : Type}

namespace InputStream

/-- What an opening that fails may leave: the stream object, if something was pending before and it
was asked of the machine's own loader. -/
def Forgets (loader : Option String) (A : Throwable → Prop) (left : List Reference) : Prop :=
  left = [] ∨ loader = none ∧ (∃ t, A t) ∧ ∃ r, left = [r]

/-- What is pending after an opening that fails. -/
def OpenThrows (b : Machine) (A : Throwable → Prop) (t : Throwable) : Prop :=
  A t ∨ b.LookupThrows true "getSystemResourceAsStream" t ∨ b.PinThrows t

/-- What an opening has left behind when it failed. -/
def Abandoned (b : Machine) (reliable : Prop) (A : Throwable → Prop) (owed pins : List Reference)
    (loader : Option String) (m : Machine) : Prop :=
  ∃ left, Forgets loader A left ∧ b.Since reliable (OpenThrows b A) (left ++ owed) pins m

theorem Abandoned.of_since {loader : Option String} {m : Machine}
    (h : b.Since reliable (OpenThrows b A) owed pins m) :
    Abandoned b reliable A owed pins loader m :=
  ⟨[], .inl rfl, h⟩

theorem Abandoned.of_calm {loader : Option String} {m : Machine}
    (h : b.Since reliable (fun _ => False) owed pins m) :
    Abandoned b reliable A owed pins loader m :=
  .of_since h.nothing

theorem deleteLocal_abandoned {loader : Option String} (r : Option Reference) :
    Ensures (Abandoned b reliable A (r.toList ++ owed) pins loader) (deleteLocal r) fun _ =>
      Abandoned b reliable A owed pins loader := by
  rintro m ⟨left, hleft, h⟩
  exact ⟨left, hleft, deleteLocal_middle left r m h⟩

/-- A stream object that came is given on or, if something else was pending, left. -/
theorem checkedStream_since {loader : Option String} {C : Throwable → Prop}
    (hC : ∀ t, C t → loader = none ∧ A t) (r : Option Reference) :
    Attains (b.Since reliable (IfGiven r C) (r.toList ++ owed) pins) (do
        Checked.check "getResourceAsStream"
        return r : Checked (Option Reference))
      (fun r => b.Since reliable B (r.toList ++ owed) pins)
      (Abandoned b reliable A owed pins loader) := by
  refine .bind ((Checked.check_since (B := fun _ => False) _).imp (fun _ _ h => h) ?_)
    fun _ => .ok fun _ h => h.nothing
  rintro m ⟨h, t, ht⟩
  cases r with
  | none => exact .of_calm h
  | some r =>
    obtain ⟨hloader, hA⟩ := hC t (ht rfl)
    exact ⟨[r], .inr ⟨hloader, ⟨t, hA⟩, r, rfl⟩, h.nothing⟩

theorem resourceObject_since (loader : Option String) (path : String) :
    Attains (b.Since reliable A owed pins) (resourceObject loader path)
      (fun r => b.Since reliable B (r.toList ++ owed) pins)
      (Abandoned b reliable A owed pins loader) := by
  refine Checked.withString_since path (O := Option.toList)
    (R := fun s => Abandoned b reliable A (s :: owed) pins loader) (fun s => ?_)
    (fun s => deleteLocal_abandoned (some s)) fun m h => .of_calm h
  cases loader with
  | some name =>
    refine .bind (R := fun _ => b.Since reliable (fun _ => False) (s :: owed) pins) ?_ fun _ =>
      .lift_bind (resourceStream_since _ _) (checkedStream_since fun _ => False.elim)
    exact .imp (Checked.requireMethod_since _ _ _) (fun _ _ h => h) fun _ h => .of_calm h
  | none =>
    refine .bind (R := fun r => b.Since reliable (IfGiven r A) (r.toList ++ s :: owed) pins) ?_
      (checkedStream_since fun _ ht => ⟨rfl, ht⟩)
    refine .imp (Checked.withClass_since Checked.loaderClass (O := Option.toList) (P := fun _ => pins)
      (Q := fun r => IfGiven r A) (F := OpenThrows b A) fun cls => ?_) (fun _ _ h => h)
      fun _ h => .of_since h
    refine .lift_bind (Checked.methodId_since _ _ _ _) fun found => ?_
    cases found with
    | true =>
      refine .lift (.of_imp (fun _ h => h.mono fun _ ht => ?_) (resourceStream_since none path))
      exact ht.resolve_right fun hfound => nomatch hfound.1
    | false => exact .throw fun _ h => h.mono fun _ => .imp_right fun ht => .inl ht.2

theorem open?_since (loader : Option String) (path : String) :
    Attains (b.Since reliable A owed pins) (open? loader path)
      (fun s => b.Since reliable A owed ((s.map (·.reference)).toList ++ pins))
      (Abandoned b reliable A owed pins loader) := by
  refine .mapFailure <| .bind (Checked.environment_since.imp (fun _ _ h => h) fun _ h => .of_since
    (h.1.mono fun _ => .inl)) fun _ => .bind (resourceObject_since (B := A) loader path) fun stream => ?_
  refine .andAlways (R := fun s => b.Since reliable A (stream.toList ++ owed)
    ((s.map (·.reference)).toList ++ pins)) (F := Abandoned b reliable A (stream.toList ++ owed) pins
      loader) ?_ (fun _ => deleteLocal_since stream) (deleteLocal_abandoned stream)
  cases stream with
  | none => exact .ok fun _ h => h
  | some s =>
    refine .lift_bind (pin_since s.object) fun reference => ?_
    cases reference with
    | some reference => exact .ok fun _ h => h
    | none => exact .throw fun _ h => .of_since (h.mono fun _ => .imp_right .inr)

theorem withArray_since (size : Nat) {use : Object → ExceptT IoError (StateM Machine) α}
    (h : ∀ array : Reference, Attains (b.Since reliable A (array :: owed) pins) (use array.object)
      (fun _ => b.Since reliable A (array :: owed) pins)
      (b.Since reliable A (array :: owed) pins)) :
    Maintains (b.Since reliable A owed pins) (withArray size use) := by
  refine .lift_bind (newByteArray_since size) fun array => ?_
  cases array with
  | some array =>
    refine .of_imp (fun _ hs => hs.mono fun _ ht => ht rfl) ?_
    exact .andAlways (h array) (fun _ => deleteLocal_since (some array))
      (deleteLocal_since (some array))
  | none => exact .bind (.mapFailure (Checked.check_calms _)) fun _ => .throw fun _ h => h

/-- A read leaves nothing behind, whatever it gives. -/
theorem read_since (s : InputStream) (size : Nat) :
    Maintains (b.Since reliable A owed pins) (s.read size) := by
  unfold read
  split
  · exact .ok fun _ h => h
  refine .bind (.mapFailure (Checked.environment_since.imp (fun _ _ h => h) fun _ h => h.1))
    fun _ => withArray_since _ fun array => ?_
  refine .bind (R := fun _ => b.Since reliable A (array :: owed) pins) (.mapFailure ?_)
    fun read => ?_
  · exact .bind (Checked.requireMethod_since _ _ _) fun _ => .lift_bind (readStream_since _ _)
      fun n => .bind (Checked.check_calms _) fun _ => .ok fun _ h => h
  split
  · exact .ok fun _ h => h
  · exact .lift_bind (region_since _ _ _) fun _ => .ok fun _ h => h

/-- A stream stays the stream that it is. -/
theorem read_reference (s : InputStream) (size : Nat) :
    Attains (fun _ => True) (s.read size) (fun x _ => x.2.reference = s.reference)
      fun _ => True := by
  unfold read
  split
  · exact .ok fun _ _ => rfl
  refine .bind (.mapFailure .any) fun _ => .lift_bind (R := fun _ _ => True) (fun _ _ => trivial)
    fun array => ?_
  cases array with
  | none => exact .bind (.mapFailure .any) fun _ => .throw fun _ h => h
  | some array =>
    refine .andAlways (.bind (.mapFailure .any) fun read => ?_) (fun _ _ h => h) fun _ h => h
    split
    · exact .ok fun _ _ => rfl
    · exact .lift_bind (R := fun _ _ => True) (fun _ _ => trivial) fun _ => .ok fun _ _ => rfl

theorem close_since (s : InputStream) :
    Ensures (b.Since reliable A owed pins) s.close fun _ => b.Since reliable A owed pins := by
  refine .bind Checked.environment_since fun found => ?_
  cases found with
  | error e => exact .pure fun _ h => h.1
  | ok _ =>
    have hend : Ensures (b.Since reliable (fun _ => True) owed pins) (do
        if ← exceptionCheck then clearException : Native Unit) fun _ =>
          b.Since reliable A owed pins := by
      refine .get_bind fun m _ => ?_
      split
      · exact .of_imp (fun _ h => h.2) clearException_since
      · next hnone =>
        refine .pure fun _ h => h.2.calm ?_
        rw [h.1]
        simpa using hnone
    refine .bind (Checked.requireMethod_since (F := A) _ _ _) fun found => ?_
    cases found with
    | ok _ => exact .bind (callVoid_since _ _) fun _ => hend
    | error e => exact .of_imp (fun _ h => h.any) hend

theorem drop_since (s : InputStream) :
    Ensures (b.Since reliable A owed (s.reference :: pins)) s.drop fun _ =>
      b.Since reliable A owed pins :=
  .bind (close_since s) fun _ => unpin_since _

end InputStream

namespace Tool

theorem status_since (function arguments : String) :
    Ensures (b.Since reliable A owed pins) (status function arguments) fun _ =>
      b.Since reliable A owed pins :=
  .bind (note_since _) fun _ => .get_bind fun _ _ => .pure fun _ h => h.2

theorem requireFunction_since (tool : Nat) (function : String) :
    Maintains (b.Since reliable A owed pins) (requireFunction tool function) := by
  refine .get_bind fun m _ => .of_imp (fun _ h => h.2) ?_
  split
  · exact .throw fun _ h => h
  · exact .ok fun _ h => h

theorem call_since (tool : Nat) (function arguments : String) :
    Maintains (b.Since reliable A owed pins) (call tool function arguments) := by
  refine .bind (requireFunction_since tool function) fun _ =>
    .lift_bind (status_since function arguments) fun code => ?_
  split
  · exact .throw fun _ h => h
  · exact .ok fun _ h => h

theorem environment_since :
    Ensures (b.Since reliable A owed pins) environment fun _ => b.Since reliable A owed pins := by
  refine .modifyGet fun m h => ⟨h.description, h.turns, h.pending, fun hr => ⟨?_, (h.ledger hr).2⟩⟩
  obtain ⟨hserves, htools⟩ := (h.ledger hr).1
  refine ⟨hserves, fun missing hmissing => ?_⟩
  rcases Array.mem_push.mp hmissing with hmissing | rfl
  · exact htools missing hmissing
  · exact hserves.offers

theorem obtain_since : Maintains (b.Since reliable A owed pins) obtain := by
  have hend : ∀ answer : Int, Maintains (b.Since reliable A owed pins) (do
      if answer ≠ 0 then throw answer
      environment : ExceptT Int (StateM Machine) Nat) := by
    intro answer
    dsimp only
    split
    · exact .throw fun _ h => h
    · exact .lift environment_since
  refine .lift_bind (note_since _) fun _ => .get_bind fun m _ => .of_imp (fun _ h => h.2) ?_
  dsimp only
  split
  · exact .lift_bind (note_since _) fun _ => .get_bind fun m _ => .of_imp (fun _ h => h.2) (hend _)
  · exact hend _

theorem setUp_since (f : ToolSetup → ToolSetup) :
    Ensures (b.Since reliable A owed pins) (setUp f) fun _ => b.Since reliable A owed pins :=
  .modify fun _ h => ⟨h.description, h.turns, h.pending, h.ledger⟩

theorem potentialCapabilities_since (tool : Nat) :
    Maintains (b.Since reliable A owed pins) (potentialCapabilities tool) :=
  .bind (call_since _ _ _) fun _ => .get_bind fun _ _ => .ok fun _ h => h.2

theorem capabilities_since (tool : Nat) :
    Maintains (b.Since reliable A owed pins) (capabilities tool) :=
  .bind (call_since _ _ _) fun _ => .get_bind fun _ _ => .ok fun _ h => h.2

theorem addCapabilities_since (tool : Nat) (caps : Jvmti.Capabilities) :
    Maintains (b.Since reliable A owed pins) (addCapabilities tool caps) :=
  .bind (call_since _ _ _) fun _ => .lift (setUp_since _)

theorem setCallbacks_since (tool : Nat) (hooked : Bool) :
    Maintains (b.Since reliable A owed pins) (setCallbacks tool hooked) :=
  .bind (call_since _ _ _) fun _ => .lift (setUp_since _)

theorem setEventMode_since (tool : Nat) (on : Bool) (event : Nat) :
    Maintains (b.Since reliable A owed pins) (setEventMode tool on event) := by
  refine .bind (call_since _ _ _) fun _ => ?_
  split
  · exact .lift (setUp_since _)
  · exact .ok fun _ h => h

theorem memory_since (f : Nat → Nat) :
    Ensures (b.Since reliable A owed pins) (modify fun m => { m with memory := f m.memory })
      fun _ => b.Since reliable A owed pins :=
  .modify fun _ h => ⟨h.description, h.turns, h.pending, h.ledger⟩

theorem allocate_since (tool size : Nat) :
    Maintains (b.Since reliable A owed pins) (allocate tool size) :=
  .bind (call_since _ _ _) fun _ => .lift (memory_since _)

/-- A machine that serves takes its memory back. -/
theorem deallocate_serves {m : Machine} (h : m.Serves) (tool : Nat) :
    (deallocate tool m).1 = .ok () := by
  have hoffers : ((m.tools[tool]?).any fun missing => decide ("Deallocate" ∈ missing)) = false := by
    cases hmissing : m.tools[tool]? with
    | none => rfl
    | some missing => simpa using h.2 missing (Array.mem_of_getElem? hmissing)
  have hstatus : (status "Deallocate" "" m).1 = .none := by
    change (m.description.toolErrors.lookup "Deallocate").elim JvmtiCode.none (fun code => ⟨code⟩) =
      JvmtiCode.none
    cases hcode : m.description.toolErrors.lookup "Deallocate" with
    | none => rfl
    | some code => exact congrArg JvmtiCode.mk (h.1.deallocates code hcode)
  have hrequire : requireFunction tool "Deallocate" m = (.ok (), m) := by
    unfold requireFunction
    change (if _ then _ else _ : Use Unit) m = _
    rw [hoffers]
    rfl
  have hcall : (call tool "Deallocate" "" m).1 = .ok () := by
    unfold call
    rw [bind_apply, hrequire]
    dsimp only
    rw [lift_bind_apply, hstatus]
    rfl
  unfold deallocate
  rw [bind_apply]
  rcases hrun : call tool "Deallocate" "" m with ⟨e | _, m'⟩ <;> rw [hrun] at hcall
  · cases hcall
  · rfl

theorem deallocate_since (tool : Nat) :
    Attains (b.Since reliable A owed pins) (deallocate tool) (fun _ => b.Since reliable A owed pins)
      (fun m => b.Since reliable A owed pins m ∧ ¬ reliable) := by
  have hsince : Maintains (b.Since reliable A owed pins) (deallocate tool) :=
    .bind (call_since _ _ _) fun _ => .lift (memory_since (· - 1))
  intro m h
  have hm := hsince m h
  have hserves : reliable → (deallocate tool m).1 = .ok () :=
    fun hr => deallocate_serves (h.ledger hr).1 tool
  rcases hrun : deallocate tool m with ⟨e | _, m'⟩ <;> rw [hrun] at hm hserves
  · exact ⟨hm, fun hr => nomatch hserves hr⟩
  · exact hm

theorem newLocals_since (keys : List String) {E : Machine → Prop} :
    Attains (b.Since reliable A owed pins)
      (keys.mapM fun key => (newLocal (.cls key) : Native Reference) : Use (List Reference))
      (fun rs => b.Since reliable A (rs ++ owed) pins) E := by
  induction keys generalizing owed with
  | nil => exact .ok fun _ h => h
  | cons key keys ih =>
    rw [List.mapM_cons]
    exact .lift_bind (newLocal_since _) fun r => .bind ih fun rs => .ok fun _ h =>
      h.perm List.perm_middle (.refl _)

/-- The references to the classes are owed by whoever asked for them. -/
theorem loadedClasses_since (tool : Nat) :
    Attains (b.Since reliable A owed pins) (loadedClasses tool)
      (fun rs => b.Since reliable A (rs ++ owed) pins) (b.Since reliable A owed pins) := by
  refine .bind (call_since _ _ _) fun _ => .get_bind fun m _ => .of_imp (fun _ h => h.2) ?_
  refine .lift_bind (memory_since (· + 1)) fun _ => .bind (newLocals_since _) fun rs => ?_
  refine .bind ((deallocate_since tool).imp (fun _ _ h => h) fun m h => ?_) fun _ => .ok fun _ h => h
  exact ⟨h.1.description, h.1.turns, h.1.pending, fun hr => absurd hr h.2⟩

theorem retransform_since (tool : Nat) (classes : List Object) :
    Maintains (b.Since reliable A owed pins) (retransform tool classes) :=
  call_since _ _ _

theorem setBytes_since (o : Object) (bytes : Bytes) :
    Ensures (b.Since reliable A owed pins) (setBytes o bytes) fun _ =>
      b.Since reliable A owed pins := by
  cases o with
  | cls key => exact .modify fun _ h => ⟨h.description, h.turns, h.pending, h.ledger⟩
  | _ => exact .pure fun _ h => h

end Tool

end ClassRecovery.Jvm
