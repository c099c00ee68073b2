import ClassRecovery.Proofs.Ensures
import ClassRecovery.Proofs.Jvm.Answers
import ClassRecovery.Proofs.Jvm.References

/-!
What an operation on a machine leaves behind: the exception that is pending, the references of the
thread that are not given back, and those that are pinned. Whatever fails on the way, the same is
left behind.
-/

namespace ClassRecovery.Jvm

/-- The machine gives an environment to whoever asks, and takes its memory back. -/
structure Description.Serves (d : Description) : Prop where
  environment : ∀ answer, d.environmentAnswer = some answer → answer = 0 ∨ answer = Machine.detached
  attach : d.attachAnswer = 0
  deallocates : ∀ code, d.toolErrors.lookup "Deallocate" = some code → code = 0
  offers : "Deallocate" ∉ d.missingFunctions

namespace Machine

def Serves (m : Machine) : Prop :=
  m.description.Serves ∧ ∀ missing ∈ m.tools, "Deallocate" ∉ missing

/-! ### What may be thrown -/

def TurnThrows (b : Machine) (function subject : String) (t : Throwable) : Prop :=
  ∃ n, b.turns n function subject = some (.throws t)

def MayThrow (b : Machine) (function subject : String) (t : Throwable) : Prop :=
  b.TurnThrows function subject t ∨ b.description.throwOf function subject = some t

def PinThrows (b : Machine) (t : Throwable) : Prop := ∃ subject, b.MayThrow "NewGlobalRef" subject t

def CharsThrow (b : Machine) (t : Throwable) : Prop := b.TurnThrows "GetStringUTFChars" "" t

/-- What may be pending if a class or a loader could not be met. -/
def MeetThrows (b : Machine) (t : Throwable) : Prop := b.CharsThrow t ∨ b.PinThrows t

def LookupThrows (b : Machine) (isStatic : Bool) (name : String) (t : Throwable) : Prop :=
  b.MayThrow (lookup isStatic) name t ∨
    name ∈ b.description.missingMethods ∧ t = linkageError "NoSuchMethodError" name

/-- Since `b` the machine fails in the same way, and what is pending is as `A` says. If it is
`reliable`, the references of the thread that were made and not given back are those that are `owed`,
and those that are pinned are `pins`. -/
structure Since (b : Machine) (reliable : Prop) (A : Throwable → Prop) (owed pins : List Reference)
    (m : Machine) : Prop where
  description : m.description = b.description
  turns : m.turns = b.turns
  pending : ∀ t, m.pending = some t → A t
  ledger : reliable → m.Serves ∧ b.locals.Owes m.locals owed ∧ ({} : References).Owes m.globals pins

section

variable {b m : Machine} {reliable : Prop} {A B : Throwable → Prop} {r : Option Reference}
  {owed owed' pins pins' : List Reference} {α : Type}

theorem Since.mono (h : b.Since reliable A owed pins m) (hA : ∀ t, A t → B t) :
    b.Since reliable B owed pins m :=
  ⟨h.description, h.turns, fun t ht => hA t (h.pending t ht), h.ledger⟩

theorem Since.perm (h : b.Since reliable A owed pins m) (howed : owed.Perm owed')
    (hpins : pins.Perm pins') : b.Since reliable A owed' pins' m :=
  ⟨h.description, h.turns, h.pending, fun hr =>
    ⟨(h.ledger hr).1, (h.ledger hr).2.1.perm howed, (h.ledger hr).2.2.perm hpins⟩⟩

theorem Since.repin (h : b.Since reliable A owed pins m) (hpins : reliable → pins.Perm pins') :
    b.Since reliable A owed pins' m :=
  ⟨h.description, h.turns, h.pending, fun hr =>
    ⟨(h.ledger hr).1, (h.ledger hr).2.1, (h.ledger hr).2.2.perm (hpins hr)⟩⟩

/-- Nothing is said of what is pending. -/
theorem Since.any (h : b.Since reliable A owed pins m) :
    b.Since reliable (fun _ => True) owed pins m :=
  h.mono fun _ _ => trivial

/-- If nothing is pending, whatever is pending is as it is said to be. -/
theorem Since.calm (h : b.Since reliable A owed pins m) (hpending : m.pending = none) :
    b.Since reliable B owed pins m :=
  ⟨h.description, h.turns, fun t ht => by (rw [hpending] at ht; cases ht), h.ledger⟩

theorem Since.nothing (h : b.Since reliable (fun _ => False) owed pins m) :
    b.Since reliable A owed pins m :=
  h.mono fun _ => False.elim

theorem note_since (c : Call) :
    Ensures (b.Since reliable A owed pins) (note c) fun _ => b.Since reliable A owed pins :=
  .modify fun _ h => ⟨h.description, h.turns, h.pending, h.ledger⟩

theorem raise_since {t : Throwable} (ht : B t) :
    Ensures (b.Since reliable A owed pins) (raise t) fun _ => b.Since reliable B owed pins :=
  .modify fun _ h => ⟨h.description, h.turns, fun _ hu => Option.some.inj hu ▸ ht, h.ledger⟩

theorem turnThrows_since (function subject : String) :
    Ensures (b.Since reliable A owed pins) (turnThrows function subject) fun thrown =>
      b.Since reliable (if thrown then b.TurnThrows function subject else A) owed pins := by
  intro m h
  rcases turnThrows_cases function subject m with ⟨t, hturn, hthrows⟩ | hthrows <;> rw [hthrows]
  · exact raise_since ⟨m.log.length, by rw [← h.turns]; exact hturn⟩ m h
  · exact h

theorem faults_since (function subject : String) :
    Ensures (b.Since reliable A owed pins) (faults function subject) fun thrown =>
      b.Since reliable (if thrown then b.MayThrow function subject else A) owed pins := by
  intro m h
  rcases faults_cases function subject m with ⟨t, hfault, hthrows⟩ | hthrows <;> rw [hthrows]
  · refine raise_since (B := b.MayThrow function subject) ?_ m h
    rcases hfault with hturn | hlaid
    · exact .inl ⟨m.log.length, by rw [← h.turns]; exact hturn⟩
    · exact .inr (by rw [← h.description]; exact hlaid)
  · exact h

/-- Goes on unless the call throws. -/
theorem unless_faults {function subject : String} {x : α} {rest : Native α}
    {Q : α → Machine → Prop}
    (hthrown : ∀ m, b.Since reliable (b.MayThrow function subject) owed pins m → Q x m)
    (hrest : Ensures (b.Since reliable A owed pins) rest Q) :
    Ensures (b.Since reliable A owed pins)
      (faults function subject >>= fun thrown => if thrown then pure x else rest) Q := by
  refine .bind (faults_since function subject) fun thrown => ?_
  cases thrown with
  | true => exact .pure hthrown
  | false => exact hrest

theorem unless_null {function subject : String} {x : α} {rest : Native α} {P : Machine → Prop}
    {Q : α → Machine → Prop} (hnull : ∀ m, P m → Q x m) (hrest : Ensures P rest Q) :
    Ensures P (isNull function subject >>= fun null => if null then pure x else rest) Q := by
  refine .bind (R := fun _ => P) (fun _ h => h) fun null => ?_
  cases null with
  | true => exact .pure hnull
  | false => exact hrest

/-! ### References -/

theorem newLocal_since (o : Object) :
    Ensures (b.Since reliable A owed pins) (newLocal o) fun r =>
      b.Since reliable A (r :: owed) pins :=
  .modifyGet fun _ h => ⟨h.description, h.turns, h.pending, fun hr =>
    ⟨(h.ledger hr).1, (h.ledger hr).2.1.add o, (h.ledger hr).2.2⟩⟩

theorem newLocal?_since (o : Option Object) :
    Ensures (b.Since reliable A owed pins) (newLocal? o) fun r =>
      b.Since reliable A (r.toList ++ owed) pins := by
  cases o with
  | some o => exact .bind (newLocal_since o) fun _ => .pure fun _ h => h
  | none => exact .pure fun _ h => h

theorem deleteLocal_since (r : Option Reference) :
    Ensures (b.Since reliable A (r.toList ++ owed) pins) (deleteLocal r) fun _ =>
      b.Since reliable A owed pins := by
  cases r with
  | some r =>
    exact .modify fun _ h => ⟨h.description, h.turns, h.pending, fun hr =>
      ⟨(h.ledger hr).1, (h.ledger hr).2.1.drop, (h.ledger hr).2.2⟩⟩
  | none => exact .pure fun _ h => h

/-- What was made after a reference stays owed when that is given back. -/
theorem deleteLocal_middle (made : List Reference) (r : Option Reference) :
    Ensures (b.Since reliable A (made ++ (r.toList ++ owed)) pins) (deleteLocal r) fun _ =>
      b.Since reliable A (made ++ owed) pins := by
  refine .of_imp (fun m h => h.perm ?_ (.refl _)) (deleteLocal_since r)
  rw [← List.append_assoc, ← List.append_assoc]
  exact List.perm_append_comm.append_right _

theorem newGlobal_since (o : Object) :
    Ensures (b.Since reliable A owed pins) (newGlobal o) fun
      | some r => b.Since reliable A owed (r :: pins)
      | none => b.Since reliable (fun t => A t ∨ b.PinThrows t) owed pins := by
  refine .bind (note_since _) fun _ => unless_null (fun _ h => h.mono fun _ => .inl) <|
    unless_faults (fun _ h => h.mono fun _ ht => .inr ⟨_, ht⟩) ?_
  exact .modifyGet fun _ h => ⟨h.description, h.turns, h.pending, fun hr =>
    ⟨(h.ledger hr).1, (h.ledger hr).2.1, (h.ledger hr).2.2.add o⟩⟩

theorem deleteGlobal_since (r : Reference) :
    Ensures (b.Since reliable A owed (r :: pins)) (deleteGlobal r) fun _ =>
      b.Since reliable A owed pins :=
  .bind (note_since _) fun _ => .modify fun _ h => ⟨h.description, h.turns, h.pending, fun hr =>
    ⟨(h.ledger hr).1, (h.ledger hr).2.1, (h.ledger hr).2.2.drop⟩⟩

/-! ### Threads and exceptions -/

theorem attachThread_since :
    Ensures (b.Since reliable A owed pins) attachThread fun _ => b.Since reliable A owed pins := by
  refine .bind (note_since _) fun _ => .get_bind fun m _ => ?_
  dsimp only
  split
  · exact .bind (.modify fun _ h => ⟨h.2.description, h.2.turns, h.2.pending, h.2.ledger⟩) fun _ =>
      .pure fun _ h => h
  · exact .pure fun _ h => h.2

theorem exceptionOccurred_since :
    Ensures (b.Since reliable A owed pins) exceptionOccurred fun r m =>
      b.Since reliable A (r.toList ++ owed) pins m ∧ (r = none → m.pending = none) ∧
        (r.isSome → ∃ t, A t) := by
  refine .get_bind fun m hm => ?_
  cases hpending : m.pending with
  | some t =>
    refine .bind (.of_imp (fun _ h => h.2) (newLocal_since _)) fun r => .pure fun _ h => ?_
    exact ⟨h, (fun hnone => nomatch hnone), fun _ => ⟨t, hm.pending t hpending⟩⟩
  | none => exact .pure fun _ h => ⟨h.2, fun _ => h.1 ▸ hpending, fun hsome => nomatch hsome⟩

/-- Nothing is pending then. -/
theorem clearException_since :
    Ensures (b.Since reliable A owed pins) clearException fun _ =>
      b.Since reliable B owed pins :=
  .bind (note_since _) fun _ => .modify fun _ h =>
    ⟨h.description, h.turns, (fun _ ht => nomatch ht), h.ledger⟩

/-! ### Classes and methods -/

/-- What is said of a call that gives nothing is said of anything. -/
def IfGiven (r : Option Reference) (A : Throwable → Prop) (t : Throwable) : Prop := r.isSome → A t

theorem Since.given_none (h : b.Since reliable B owed pins m) :
    b.Since reliable (IfGiven none A) owed pins m :=
  h.mono fun _ _ hr => by cases hr

theorem newLocal_given (o : Object) :
    Ensures (b.Since reliable A owed pins) (some <$> newLocal o : Native (Option Reference)) fun r =>
      b.Since reliable (IfGiven r A) (r.toList ++ owed) pins :=
  .bind (newLocal_since o) fun _ => .pure fun _ h => h.mono fun _ ht _ => ht

theorem findClass_since (name : String) :
    Ensures (b.Since reliable A owed pins) (findClass name) fun r =>
      b.Since reliable (IfGiven r A) (r.toList ++ owed) pins := by
  refine .bind (note_since _) fun _ => unless_faults (fun _ h => h.given_none) <|
    .get_bind fun m _ => .of_imp (fun _ h => h.2) ?_
  split
  · exact .pure fun _ h => h.given_none
  split
  · exact .bind (raise_since (B := fun _ => True) trivial) fun _ => .pure fun _ h => h.given_none
  · exact newLocal_given _

theorem methodId_since (isStatic : Bool) (owner : Object) (name signature : String) :
    Ensures (b.Since reliable A owed pins) (methodId isStatic owner name signature) fun found =>
      b.Since reliable (fun t => A t ∨ found = false ∧ b.LookupThrows isStatic name t) owed pins := by
  refine .bind (note_since _) fun _ =>
    unless_faults (fun _ h => h.mono fun t ht => .inr ⟨rfl, .inl ht⟩) <|
    .get_bind fun m hm => .of_imp (fun _ h => h.2) ?_
  split
  · exact .pure fun _ h => h.mono fun _ => .inl
  split
  · next hmissing =>
    exact .bind (raise_since (B := b.LookupThrows isStatic name)
      (.inr ⟨hm.description ▸ hmissing, rfl⟩)) fun _ =>
        .pure fun _ h => h.mono fun _ ht => .inr ⟨rfl, ht⟩
  · exact .pure fun _ h => h.mono fun _ => .inl

/-! ### Strings -/

theorem newString_since (content : Bytes) :
    Ensures (b.Since reliable A owed pins) (newString content) fun r =>
      b.Since reliable (IfGiven r A) (r.toList ++ owed) pins := by
  exact unless_null (fun _ h => h.given_none) <| unless_faults (fun _ h => h.given_none) <|
    newLocal_given _

theorem stringChars_since (o : Object) :
    Ensures (b.Since reliable A owed pins) (stringChars o) fun content =>
      b.Since reliable (fun t => A t ∨ content = none ∧ b.CharsThrow t) owed pins := by
  refine unless_null (fun _ h => h.mono fun _ => .inl) <|
    .bind (turnThrows_since _ _) fun thrown => ?_
  cases thrown with
  | true => exact .pure fun _ h => h.mono fun _ ht => .inr ⟨rfl, ht⟩
  | false =>
    refine .bind (R := fun _ => b.Since reliable A owed pins)
      (.modify fun _ h => ⟨h.description, h.turns, h.pending, h.ledger⟩) fun _ => ?_
    cases o <;> exact .pure fun _ h => h.mono fun _ => .inl

theorem releaseChars_since :
    Ensures (b.Since reliable A owed pins) releaseChars fun _ => b.Since reliable A owed pins :=
  .modify fun _ h => ⟨h.description, h.turns, h.pending, h.ledger⟩

/-! ### Methods of objects -/

theorem invoke_since (receiver method : String) (arguments : List String) (subject : String)
    {fallback : α} {result : Native α} {Q : α → Machine → Prop}
    (hresult : Ensures (b.Since reliable A owed pins) result Q)
    (hfallback : ∀ m, b.Since reliable (b.MayThrow method subject) owed pins m → Q fallback m) :
    Ensures (b.Since reliable A owed pins)
      (invoke receiver method arguments subject fallback result) Q := by
  exact .bind (note_since _) fun _ => unless_faults hfallback hresult

theorem newLocal?_given (o : Option Object) :
    Ensures (b.Since reliable A owed pins) (newLocal? o) fun r =>
      b.Since reliable (IfGiven r A) (r.toList ++ owed) pins :=
  (newLocal?_since o).imp fun _ _ h => h.mono fun _ ht _ => ht

theorem callObject_since (receiver : Object) (method : String) :
    Ensures (b.Since reliable A owed pins) (callObject receiver method) fun r =>
      b.Since reliable (IfGiven r A) (r.toList ++ owed) pins := by
  refine invoke_since _ _ _ _ (.get_bind fun m _ => ?_) fun m h => h.given_none
  refine .of_imp (fun _ h => h.2) ?_
  split
  · exact newLocal?_given _
  · exact newLocal?_given _
  · exact newLocal?_given _
  · split
    · exact .bind (raise_since (B := fun _ => True) trivial) fun _ => .pure fun _ h => h.given_none
    · exact newLocal?_given _
  · exact .pure fun _ h => h.given_none

theorem callBoolean_since (receiver : Object) (method : String) :
    Ensures (b.Since reliable A owed pins) (callBoolean receiver method) fun _ =>
      b.Since reliable (fun _ => True) owed pins := by
  refine invoke_since _ _ _ _ ?_ fun m h => h.any
  cases receiver with
  | cls key => exact .get_bind fun m _ => .pure fun _ h => h.2.any
  | _ => exact .pure fun _ h => h.any

theorem callVoid_since (receiver : Object) (method : String) :
    Ensures (b.Since reliable A owed pins) (callVoid receiver method) fun _ =>
      b.Since reliable (fun _ => True) owed pins :=
  invoke_since _ _ _ _ (.pure fun _ h => h.any) fun _ h => h.any

theorem openStream_since (spec : StreamSpec) (path : String) :
    Ensures (b.Since reliable A owed pins) (openStream spec path) fun r =>
      b.Since reliable (IfGiven r A) (r.toList ++ owed) pins :=
  .get_bind fun _ _ => .bind (R := fun _ => b.Since reliable A owed pins)
    (.modify fun _ h => ⟨h.2.description, h.2.turns, h.2.pending, h.2.ledger⟩) fun _ =>
      newLocal_given _

theorem findStream_since (loader : Option String) (path : String) :
    Ensures (b.Since reliable A owed pins) (findStream loader path) fun r =>
      b.Since reliable (IfGiven r A) (r.toList ++ owed) pins := by
  refine .get_bind fun m _ => .of_imp (fun _ h => h.2) ?_
  split
  · exact openStream_since _ _
  · exact .pure fun _ h => h.given_none

theorem resourceStream_since (loader : Option String) (path : String) :
    Ensures (b.Since reliable A owed pins) (resourceStream loader path) fun r =>
      b.Since reliable (IfGiven r A) (r.toList ++ owed) pins := by
  cases loader with
  | none => exact invoke_since _ _ _ _ (findStream_since _ _) fun _ h => h.given_none
  | some name =>
    exact invoke_since _ _ _ _ (unless_faults (fun _ h => h.given_none) (findStream_since _ _))
      fun _ h => h.given_none

theorem systemLoader_since :
    Ensures (b.Since reliable A owed pins) systemLoader fun r =>
      b.Since reliable (IfGiven r A) (r.toList ++ owed) pins :=
  invoke_since _ _ _ _ (.get_bind fun _ _ => .of_imp (fun _ h => h.2) (newLocal?_given _))
    fun _ h => h.given_none

theorem forName_since (name : String) (loader : Option String) :
    Ensures (b.Since reliable A owed pins) (forName name loader) fun r =>
      b.Since reliable (IfGiven r A) (r.toList ++ owed) pins := by
  refine invoke_since _ _ _ _ (unless_null (fun _ h => h.given_none) <|
    .get_bind fun m _ => .of_imp (fun _ h => h.2) ?_) fun _ h => h.given_none
  split
  · exact newLocal_given _
  · exact .bind (raise_since (B := fun _ => True) trivial) fun _ => .pure fun _ h => h.given_none

/-! ### Arrays -/

theorem element_since (array : Object) (index : Nat) :
    Ensures (b.Since reliable A owed pins) (element array index) fun r =>
      b.Since reliable (IfGiven r A) (r.toList ++ owed) pins := by
  refine .bind (note_since _) fun _ => unless_faults (fun _ h => h.given_none) ?_
  split
  · exact newLocal?_given _
  · exact .pure fun _ h => h.given_none

theorem newByteArray_since (size : Nat) :
    Ensures (b.Since reliable A owed pins) (newByteArray size) fun r =>
      b.Since reliable (IfGiven r A) (r.toList ++ owed) pins := by
  refine .bind (note_since _) fun _ => unless_null (fun _ h => h.given_none) <|
    unless_faults (fun _ h => h.given_none) <| .get_bind fun _ _ => ?_
  exact .bind (R := fun _ => b.Since reliable A owed pins)
    (.modify fun _ h => ⟨h.2.description, h.2.turns, h.2.pending, h.2.ledger⟩) fun _ =>
      newLocal_given _

theorem region_since (array : Object) (start count : Nat) :
    Ensures (b.Since reliable A owed pins) (region array start count) fun _ =>
      b.Since reliable A owed pins := by
  refine .bind (note_since _) fun _ => ?_
  split
  · exact .get_bind fun _ _ => .pure fun _ h => h.2
  · exact .pure fun _ h => h

theorem readStream_since (stream array : Object) :
    Ensures (b.Since reliable A owed pins) (readStream stream array) fun _ =>
      b.Since reliable (fun _ => True) owed pins := by
  unfold readStream
  split
  · refine invoke_since _ _ _ _ (.get_bind fun m _ => .of_imp (fun _ h => h.2) ?_) fun _ h => h.any
    split
    · exact .pure fun _ h => h.any
    · exact .pure fun _ h => h.any
    · exact .bind (raise_since (B := fun _ => True) trivial) fun _ => .pure fun _ h => h
    · exact .bind (R := fun _ => b.Since reliable A owed pins)
        (.modify fun _ h => ⟨h.description, h.turns, h.pending, h.ledger⟩) fun _ =>
          .pure fun _ h => h.any
    · exact .bind (R := fun _ => b.Since reliable A owed pins)
        (.modify fun _ h => ⟨h.description, h.turns, h.pending, h.ledger⟩) fun _ =>
          .pure fun _ h => h.any
  · exact .pure fun _ h => h.any

end

end Machine

end ClassRecovery.Jvm
