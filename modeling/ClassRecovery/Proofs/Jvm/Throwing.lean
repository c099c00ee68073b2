import ClassRecovery.Proofs.Jvm.Ledger
import ClassRecovery.Jvm.Stream

/-!
Whether a call threw. What was thrown stays pending until a check takes it, so where a check passes
nothing was thrown before it; and no call but a read moves the streams of a machine.
-/

namespace ClassRecovery.Jvm

namespace Machine

/-- No read of a call is made to give nothing. -/
def Fair (m : Machine) : Prop := ∀ i subject, m.turns i "read" subject ≠ some (.atMost 0)

/-- The streams are these, and there are arrays up to some number. -/
structure Stands (d : Description) (ss : Array OpenStream) (n : Nat) (m : Machine) : Prop where
  description : m.description = d
  streams : m.streams = ss
  arrays : n ≤ m.arrays.size
  fair : m.Fair

/-- Nothing was thrown, or it is still pending. -/
def Alert (d : Description) (ss : Array OpenStream) (n : Nat) (rs : List Throwable) (m : Machine) :
    Prop :=
  m.Stands d ss n ∧ (m.raised = rs ∨ m.pending.isSome)

/-- Nothing was thrown, and nothing is pending from before. -/
def Calm (d : Description) (ss : Array OpenStream) (n : Nat) (rs : List Throwable) (m : Machine) :
    Prop :=
  m.Stands d ss n ∧ m.raised = rs ∧ m.pending = none

section

variable {d : Description} {ss : Array OpenStream} {n : Nat} {rs : List Throwable} {m m' : Machine}
  {α : Type}

theorem Calm.alert (h : m.Calm d ss n rs) : m.Alert d ss n rs := ⟨h.1, .inl h.2.1⟩

theorem Stands.of_same (h : m.Stands d ss n) (hdescription : m'.description = m.description)
    (hstreams : m'.streams = m.streams) (harrays : m'.arrays = m.arrays)
    (hturns : m'.turns = m.turns) : m'.Stands d ss n where
  description := hdescription.trans h.description
  streams := hstreams.trans h.streams
  arrays := harrays ▸ h.arrays
  fair := by
    unfold Fair
    rw [hturns]
    exact h.fair

theorem Stands.alert (h : m.Stands d ss n) : m.Alert d ss n m.raised := ⟨h, .inl rfl⟩

/-- What is said whatever was thrown before. -/
theorem of_alert {a : Native α} (h : ∀ rs, Ensures (Alert d ss n rs) a fun _ => Alert d ss n rs) :
    Ensures (Stands d ss n) a fun _ => Stands d ss n :=
  fun m hm => (h m.raised m hm.alert).1

theorem raise_stands (t : Throwable) :
    Ensures (Stands d ss n) (raise t) fun _ m => m.Stands d ss n ∧ m.pending.isSome :=
  .modify fun _ h => ⟨h.of_same rfl rfl rfl rfl, rfl⟩

theorem raise_alert (t : Throwable) :
    Ensures (Alert d ss n rs) (raise t) fun _ => Alert d ss n rs :=
  fun m h => ⟨(raise_stands t m h.1).1, .inr rfl⟩

theorem note_alert (c : Call) : Ensures (Alert d ss n rs) (note c) fun _ => Alert d ss n rs :=
  .modify fun _ h => ⟨h.1.of_same rfl rfl rfl rfl, h.2⟩

theorem turnThrows_alert (function subject : String) :
    Ensures (Alert d ss n rs) (turnThrows function subject) fun _ => Alert d ss n rs := by
  intro m h
  rcases turnThrows_cases function subject m with ⟨t, -, hthrows⟩ | hthrows <;> rw [hthrows]
  · exact raise_alert t m h
  · exact h

theorem faults_alert (function subject : String) :
    Ensures (Alert d ss n rs) (faults function subject) fun thrown m =>
      m.Alert d ss n rs ∧ (thrown = true → m.pending.isSome) := by
  intro m h
  rcases faults_cases function subject m with ⟨t, -, hthrows⟩ | hthrows <;> rw [hthrows]
  · exact ⟨raise_alert t m h, fun _ => rfl⟩
  · exact ⟨h, fun hthrown => nomatch hthrown⟩

/-- Goes on unless the call throws. -/
theorem unless_faults_alert {function subject : String} {x : α} {rest : Native α}
    {Q : α → Machine → Prop} (hthrown : ∀ m, m.Alert d ss n rs → m.pending.isSome → Q x m)
    (hrest : Ensures (Alert d ss n rs) rest Q) :
    Ensures (Alert d ss n rs)
      (faults function subject >>= fun thrown => if thrown then pure x else rest) Q := by
  refine .bind (faults_alert function subject) fun thrown => ?_
  cases thrown with
  | true => exact .pure fun m h => hthrown m h.1 (h.2 rfl)
  | false => exact .of_imp (fun _ h => h.1) hrest

theorem unless_null_alert {function subject : String} {x : α} {rest : Native α}
    (hrest : Ensures (Alert d ss n rs) rest fun _ => Alert d ss n rs) :
    Ensures (Alert d ss n rs) (isNull function subject >>= fun null => if null then pure x else rest)
      fun _ => Alert d ss n rs :=
  unless_null (fun _ h => h) hrest

/-! ### References and exceptions -/

theorem newLocal_alert (o : Object) :
    Ensures (Alert d ss n rs) (newLocal o) fun _ => Alert d ss n rs :=
  .modifyGet fun _ h => ⟨h.1.of_same rfl rfl rfl rfl, h.2⟩

theorem newLocal?_alert (o : Option Object) :
    Ensures (Alert d ss n rs) (newLocal? o) fun _ => Alert d ss n rs := by
  cases o with
  | some o => exact .bind (newLocal_alert o) fun _ => .pure fun _ h => h
  | none => exact .pure fun _ h => h

/-- What is said of a machine whatever is referred to. -/
theorem deleteLocal_ensures {P : Machine → Prop}
    (hP : ∀ (m : Machine) (locals : References), P m → P { m with locals }) (r : Option Reference) :
    Ensures P (deleteLocal r) fun _ => P := by
  cases r with
  | some r => exact .modify fun m h => hP m _ h
  | none => exact .pure fun _ h => h

/-- A pin is of the object that is pinned. -/
theorem newGlobal_alert (o : Object) :
    Ensures (Alert d ss n rs) (newGlobal o) fun r m =>
      (∀ x ∈ r, x.object = o) ∧ m.Alert d ss n rs := by
  refine .bind (note_alert _) fun _ => unless_null (fun _ h => ⟨nofun, h⟩) <|
    unless_faults_alert (fun _ h _ => ⟨nofun, h⟩) <| .modifyGet fun m h =>
      ⟨?_, h.1.of_same rfl rfl rfl rfl, h.2⟩
  rintro x ⟨⟩
  rfl

theorem deleteLocal_alert (r : Option Reference) :
    Ensures (Alert d ss n rs) (deleteLocal r) fun _ => Alert d ss n rs :=
  deleteLocal_ensures (fun _ _ h => ⟨h.1.of_same rfl rfl rfl rfl, h.2⟩) r

theorem deleteLocal_calm (r : Option Reference) :
    Ensures (Calm d ss n rs) (deleteLocal r) fun _ => Calm d ss n rs :=
  deleteLocal_ensures (fun _ _ h => ⟨h.1.of_same rfl rfl rfl rfl, h.2⟩) r

theorem clearException_stands :
    Ensures (Stands d ss n) clearException fun _ => Stands d ss n :=
  .modify fun _ h => h.of_same rfl rfl rfl rfl

theorem exceptionOccurred_alert :
    Ensures (Alert d ss n rs) exceptionOccurred fun
      | some _ => Stands d ss n
      | none => Calm d ss n rs := by
  refine .get_bind fun m hm => ?_
  cases hpending : m.pending with
  | some t =>
    exact .bind (.of_imp (fun _ h => h.2) (newLocal_alert _)) fun _ => .pure fun _ h => h.1
  | none =>
    refine .pure fun _ h => ?_
    obtain ⟨rfl, hm⟩ := h
    refine ⟨hm.1, hm.2.resolve_right fun hsome => ?_, hpending⟩
    rw [hpending] at hsome
    cases hsome

/-! ### Classes, methods and arrays -/

theorem findClass_alert (name : String) :
    Ensures (Alert d ss n rs) (findClass name) fun _ => Alert d ss n rs := by
  refine .bind (note_alert _) fun _ => unless_faults_alert (fun _ h _ => h) <|
    .get_bind fun m _ => .of_imp (fun _ h => h.2) ?_
  split
  · exact .pure fun _ h => h
  split
  · exact .bind (raise_alert _) fun _ => .pure fun _ h => h
  · exact .bind (newLocal_alert _) fun _ => .pure fun _ h => h

theorem methodId_alert (isStatic : Bool) (owner : Object) (name signature : String) :
    Ensures (Alert d ss n rs) (methodId isStatic owner name signature) fun _ =>
      Alert d ss n rs := by
  refine .bind (note_alert _) fun _ => unless_faults_alert (fun _ h _ => h) <|
    .get_bind fun m _ => .of_imp (fun _ h => h.2) ?_
  split
  · exact .pure fun _ h => h
  split
  · exact .bind (raise_alert _) fun _ => .pure fun _ h => h
  · exact .pure fun _ h => h

theorem newString_alert (content : Bytes) :
    Ensures (Alert d ss n rs) (newString content) fun _ => Alert d ss n rs :=
  unless_null_alert <| unless_faults_alert (fun _ h _ => h) <|
    .bind (newLocal_alert _) fun _ => .pure fun _ h => h

theorem stringChars_alert (o : Object) :
    Ensures (Alert d ss n rs) (stringChars o) fun _ => Alert d ss n rs := by
  refine unless_null_alert <| .bind (turnThrows_alert _ _) fun thrown => ?_
  cases thrown with
  | true => exact .pure fun _ h => h
  | false =>
    refine .bind (R := fun _ => Alert d ss n rs)
      (.modify fun _ h => ⟨h.1.of_same rfl rfl rfl rfl, h.2⟩) fun _ => ?_
    cases o <;> exact .pure fun _ h => h

theorem callObject_alert (receiver : Object) (method : String) :
    Ensures (Alert d ss n rs) (callObject receiver method) fun _ => Alert d ss n rs := by
  refine .bind (note_alert _) fun _ => unless_faults_alert (fun _ h _ => h) <|
    .get_bind fun m _ => .of_imp (fun _ h => h.2) ?_
  split
  · exact newLocal?_alert _
  · exact newLocal?_alert _
  · exact newLocal?_alert _
  · split
    · exact .bind (raise_alert _) fun _ => .pure fun _ h => h
    · exact newLocal?_alert _
  · exact .pure fun _ h => h

/-- A new array is the last one. -/
theorem newByteArray_alert (size : Nat) :
    Ensures (Alert d ss n rs) (newByteArray size) fun
      | some r => fun m => ∃ buffer, r.object = .bytes buffer size ∧ m.Alert d ss (buffer + 1) rs
      | none => Alert d ss n rs := by
  refine .bind (note_alert _) fun _ => unless_null (fun _ h => h) <|
    unless_faults_alert (fun _ h _ => h) <| .get_bind fun m _ => ?_
  refine .bind (R := fun _ m' => m'.Alert d ss (m.arrays.size + 1) rs) (.modify ?_) fun _ =>
    .bind (R := fun r m' => r.object = .bytes m.arrays.size size ∧
      m'.Alert d ss (m.arrays.size + 1) rs) (fun m' h => ⟨rfl, newLocal_alert _ m' h⟩) fun _ =>
      .pure fun _ h => ⟨_, h⟩
  rintro _ ⟨rfl, h⟩
  exact ⟨⟨h.1.description, h.1.streams, by simp, h.1.fair⟩, h.2⟩

end

end Machine

open Machine

variable {d : Description} {ss : Array OpenStream} {n : Nat} {rs : List Throwable} {m : Machine}
  {α : Type}

namespace Checked

theorem environment_alert :
    Attains (Alert d ss n rs) environment (fun _ => Alert d ss n rs) (Stands d ss n) := by
  refine .lift_bind (R := fun _ => Alert d ss n rs) (fun _ h => h) fun answer => ?_
  split
  · refine .lift_bind (R := fun _ => Alert d ss n rs) (.bind (note_alert _) fun _ =>
      .get_bind fun m _ => .of_imp (fun _ h => h.2) ?_) fun code => ?_
    · dsimp only
      split
      · exact .bind (R := fun _ => Alert d ss n rs)
          (.modify fun _ h => ⟨h.1.of_same rfl rfl rfl rfl, h.2⟩) fun _ => .pure fun _ h => h
      · exact .pure fun _ h => h
    · split
      · exact .throw fun _ h => h.1
      · exact .ok fun _ h => h
  split
  · exact .throw fun _ h => h.1
  · exact .ok fun _ h => h

theorem findClass?_alert (name : String) :
    Ensures (Alert d ss n rs) (findClass? name) fun _ => Alert d ss n rs := by
  unfold findClass?
  split
  · exact findClass_alert name
  · exact .pure fun _ h => h

theorem methodId_alert (isStatic : Bool) (owner : Object) (name signature : String) :
    Ensures (Alert d ss n rs) (methodId isStatic owner name signature) fun _ =>
      Alert d ss n rs := by
  unfold methodId
  split
  · exact Machine.methodId_alert isStatic owner name signature
  · exact .pure fun _ h => h

theorem newString?_alert (s : String) :
    Ensures (Alert d ss n rs) (newString? s) fun _ => Alert d ss n rs := by
  unfold newString?
  split
  · exact newString_alert _
  · exact .pure fun _ h => h

theorem stringText_alert (r : Option Reference) :
    Ensures (Alert d ss n rs) (stringText r) fun _ => Alert d ss n rs := by
  cases r with
  | none => exact .pure fun _ h => h
  | some r =>
    refine .bind (stringChars_alert _) fun content => ?_
    cases content with
    | none => exact .pure fun _ h => h
    | some content =>
      exact .bind (R := fun _ => Alert d ss n rs)
        (.modify fun _ h => ⟨h.1.of_same rfl rfl rfl rfl, h.2⟩) fun _ => .pure fun _ h => h

theorem describeThrowable_stands (t : Object) :
    Ensures (Stands d ss n) (describeThrowable t) fun _ => Stands d ss n := by
  have hend : ∀ (cls : Reference) (text : Option String), Ensures (Stands d ss n) (do
      deleteLocal (some cls)
      if ← exceptionCheck then clearException
      return text.getD unprintable) fun _ => Stands d ss n := by
    refine fun cls text => .bind (of_alert fun _ => deleteLocal_alert _) fun _ =>
      .get_bind fun m _ => .of_imp (fun _ h => h.2) ?_
    split
    · exact .bind clearException_stands fun _ => .pure fun _ h => h
    · exact .pure fun _ h => h
  refine .bind (of_alert fun _ => newLocal_alert _) fun cls =>
    .bind (of_alert fun _ => methodId_alert _ _ _ _) fun found => ?_
  split
  · exact .bind (of_alert fun _ => callObject_alert t _) fun s =>
      .bind (of_alert fun _ => stringText_alert s) fun text =>
        .bind (of_alert fun _ => deleteLocal_alert s) fun _ => hend cls text
  · exact hend cls none

/-- A check passes only if nothing was thrown. -/
theorem check_calm (context : String) :
    Attains (Alert d ss n rs) (check context) (fun _ => Calm d ss n rs) (Stands d ss n) := by
  refine .lift_bind (R := fun
    | some _ => Stands d ss n
    | none => Calm d ss n rs) (.bind exceptionOccurred_alert fun r => ?_) fun r => ?_
  · cases r with
    | none => exact .pure fun _ h => h
    | some t => exact .bind clearException_stands fun _ => .pure fun _ h => h
  · cases r with
    | none => exact .ok fun _ h => h
    | some t =>
      exact .lift_bind (describeThrowable_stands _) fun text =>
        .lift_bind (of_alert fun _ => deleteLocal_alert _) fun _ => .throw fun _ h => h

theorem holding_calm {r : Option Reference} {use : Checked α}
    (h : Attains (Alert d ss n rs) use (fun _ => Calm d ss n rs) (Stands d ss n)) :
    Attains (Alert d ss n rs) (holding r use) (fun _ => Calm d ss n rs) (Stands d ss n) :=
  .andAlways h (fun _ => deleteLocal_calm r) (of_alert fun _ => deleteLocal_alert r)

theorem requireMethod_calm (className name signature : String) :
    Attains (Alert d ss n rs) (requireMethod className name signature) (fun _ => Calm d ss n rs)
      (Stands d ss n) := by
  refine .lift_bind (findClass?_alert className) fun cls => ?_
  cases cls with
  | none => exact .bind (check_calm _) fun _ => .throw fun _ h => h.1
  | some cls =>
    refine holding_calm (.lift_bind (methodId_alert _ _ _ _) fun found =>
      .bind (check_calm name) fun _ => ?_)
    split
    · exact .throw fun _ h => h.1
    · exact .ok fun _ h => h

/-- A check changes nothing where nothing is pending, and fails where something is. -/
theorem check_cases (context : String) (m : Machine) :
    (m.pending = none ∧ check context m = (.ok (), m)) ∨
      (m.pending.isSome ∧ ∃ e m', check context m = (.error e, m')) := by
  cases hpending : m.pending with
  | none =>
    refine .inl ⟨rfl, ?_⟩
    unfold check takeException exceptionOccurred
    rw [lift_bind_apply, state_bind_apply, state_get_bind, hpending]
    rfl
  | some t =>
    have hthrows : Attains (fun m => m.pending = some t) (check context) (fun _ _ => False)
        fun _ => True := by
      refine .lift_bind (R := fun r _ => r.isSome) (.bind (R := fun r _ => r.isSome)
        (.get_bind fun m hm => ?_) fun r => ?_) fun r => ?_
      · rw [hm]
        exact fun _ _ => rfl
      · cases r with
        | none => exact .pure fun _ h => nomatch h
        | some r => exact .bind (R := fun _ _ => True) (fun _ _ => trivial) fun _ _ _ => rfl
      · cases r with
        | none => exact .ok fun _ h => nomatch h
        | some r =>
          exact .lift_bind (R := fun _ _ => True) (fun _ _ => trivial) fun _ =>
            .lift_bind (R := fun _ _ => True) (fun _ _ => trivial) fun _ => .throw fun _ _ => trivial
    have hfails := hthrows m hpending
    rcases hrun : check context m with ⟨e | _, m'⟩ <;> rw [hrun] at hfails
    · exact .inr ⟨rfl, e, m', rfl⟩
    · exact hfails.elim

/-- Once a check passed, nothing is pending, and nothing else is different. -/
theorem check_passed (context : String) {P : Machine → Prop} :
    Attains P (check context) (fun _ m => P m ∧ m.pending = none) fun _ => True := by
  intro m h
  rcases check_cases context m with ⟨hnone, hcheck⟩ | ⟨-, e, m', hcheck⟩ <;> rw [hcheck]
  · exact ⟨h, hnone⟩
  · trivial

/-- What holds where nothing is pending is known once a check passed. -/
theorem check_known (context : String) {Q : Machine → Prop} (hnone : ∀ m, Q m → m.pending = none) :
    Attains (fun m => (m.Stands d ss n ∧ m.pending.isSome) ∨ Q m) (check context) (fun _ => Q)
      (Stands d ss n) := by
  rintro m (⟨hstands, hpending⟩ | hq)
  · have hcalm := check_calm context m hstands.alert
    rcases check_cases context m with ⟨hnot, -⟩ | ⟨-, e, m', hcheck⟩
    · rw [hnot] at hpending
      cases hpending
    · rw [hcheck] at hcalm ⊢
      exact hcalm
  · rcases check_cases context m with ⟨-, hcheck⟩ | ⟨hsome, -⟩
    · rw [hcheck]
      exact hq
    · rw [hnone m hq] at hsome
      cases hsome

end Checked

end ClassRecovery.Jvm
