import Mathlib
import ClassRecovery.Jvm.Tool
import ClassRecovery.Jvm.Connection

/-!
What asking a virtual machine cannot change. However its classes and loaders are asked about, and
whatever faults are met on the way, every class keeps its bytes.
-/

namespace ClassRecovery

variable {σ τ ε δ α β : Type}

/-- Whatever comes of it, what is seen of the state stays. -/
def Keeps (view : σ → τ) (a : StateM σ α) : Prop := ∀ s, view (a s).2 = view s

namespace Keeps

variable {view : σ → τ}

theorem pure (x : α) : Keeps view (pure x : StateM σ α) := fun _ => rfl

theorem get : Keeps view (get : StateM σ σ) := fun _ => rfl

theorem modify {f : σ → σ} (h : ∀ s, view (f s) = view s) :
    Keeps view (modify f : StateM σ PUnit) := h

theorem modifyGet {f : σ → α × σ} (h : ∀ s, view (f s).2 = view s) :
    Keeps view (modifyGet f : StateM σ α) := h

theorem bind {a : StateM σ α} {f : α → StateM σ β} (ha : Keeps view a)
    (hf : ∀ x, Keeps view (f x)) : Keeps view (a >>= f) :=
  fun s => (hf (a s).1 (a s).2).trans (ha s)

/-! Operations that may fail are seen in the same way. -/

theorem ok (x : α) : Keeps view (Pure.pure x : ExceptT ε (StateM σ) α) := fun _ => rfl

theorem throw (e : ε) : Keeps view (throw e : ExceptT ε (StateM σ) α) := fun _ => rfl

theorem ofExcept (r : Except ε α) :
    Keeps view (MonadExcept.ofExcept r : ExceptT ε (StateM σ) α) := by
  cases r with
  | ok x => exact ok x
  | error e => exact throw e

theorem lift {a : StateM σ α} (h : Keeps view a) :
    Keeps view (liftM a : ExceptT ε (StateM σ) α) := h

theorem attempt {a : ExceptT ε (StateM σ) α} {f : α → ExceptT ε (StateM σ) β}
    (ha : Keeps view a) (hf : ∀ x, Keeps view (f x)) :
    Keeps view (a >>= f : ExceptT ε (StateM σ) β) := by
  intro s
  have has := ha s
  rw [bind_apply]
  rcases hrun : a s with ⟨e | x, s'⟩ <;> rw [hrun] at has
  · exact has
  · exact (hf x s').trans has

theorem map {a : ExceptT ε (StateM σ) α} (f : α → β) (ha : Keeps view a) :
    Keeps view (f <$> a : ExceptT ε (StateM σ) β) :=
  attempt ha fun x => ok (f x)

theorem andAlways {cleanup : StateM σ Unit} {a : ExceptT ε (StateM σ) α}
    (hc : Keeps view cleanup) (ha : Keeps view a) : Keeps view (andAlways cleanup a) :=
  fun s => (hc (a s).2).trans (ha s)

theorem mapFailure {f : ε → δ} {a : ExceptT ε (StateM σ) α} (ha : Keeps view a) :
    Keeps view (mapFailure f a) := by
  intro s
  have has := ha s
  unfold ClassRecovery.mapFailure
  rcases hrun : a s with ⟨e | x, s'⟩ <;> rwa [hrun] at has

theorem onFailure {cleanup : StateM σ Unit} {a : ExceptT ε (StateM σ) α}
    (hc : Keeps view cleanup) (ha : Keeps view a) : Keeps view (onFailure cleanup a) := by
  intro s
  have has := ha s
  unfold ClassRecovery.onFailure
  rcases hrun : a s with ⟨e | x, s'⟩ <;> rw [hrun] at has
  · exact (hc s').trans has
  · exact has

/-- What can be told from what is seen stays too. -/
theorem of_view {υ : Type} {view' : σ → υ} {a : StateM σ α} (ha : Keeps view a) (f : τ → υ)
    (hf : ∀ s, view' s = f (view s)) : Keeps view' a := by
  intro s
  rw [hf, hf, ha s]

/-- One operation for each element of a list, as long as none fails. -/
theorem mapM {f : α → ExceptT ε (StateM σ) β} (hf : ∀ x, Keeps view (f x)) (xs : List α) :
    Keeps view (xs.mapM f : ExceptT ε (StateM σ) (List β)) := by
  induction xs with
  | nil => exact ok []
  | cons x xs ih =>
    rw [List.mapM_cons]
    exact attempt (hf x) fun _ => attempt ih fun _ => ok _

theorem forM {f : α → ExceptT ε (StateM σ) PUnit} (hf : ∀ x, Keeps view (f x)) (xs : List α) :
    Keeps view (xs.forM f : ExceptT ε (StateM σ) PUnit) := by
  induction xs with
  | nil => exact ok _
  | cons x xs ih => exact attempt (hf x) fun _ => ih

end Keeps

namespace Jvm

/-- What the classes of the machine are: as they were described, and as they were changed. -/
def Machine.classes (m : Machine) : Description × Table String Bytes := (m.description, m.changed)

namespace Machine

theorem note_keeps (c : Call) : Keeps classes (note c) := .modify fun _ => rfl

theorem raise_keeps (t : Throwable) : Keeps classes (raise t) := .modify fun _ => rfl

theorem turnThrows_keeps (function subject : String) :
    Keeps classes (turnThrows function subject) := by
  unfold turnThrows
  refine .bind .get fun m => ?_
  split
  · exact .bind (raise_keeps _) fun _ => .pure true
  · exact .pure false

theorem faults_keeps (function subject : String) : Keeps classes (faults function subject) := by
  unfold faults
  refine .bind (turnThrows_keeps _ _) fun thrown => ?_
  split
  · exact .pure true
  refine .bind .get fun m => ?_
  cases m.description.throwOf function subject with
  | some t => exact .bind (raise_keeps t) fun _ => .pure true
  | none => exact .pure false

theorem isNull_keeps (function subject : String) : Keeps classes (isNull function subject) :=
  .bind .get fun _ => .pure _

theorem newLocal_keeps (o : Object) : Keeps classes (newLocal o) := .modifyGet fun _ => rfl

theorem deleteLocal_keeps (r : Option Reference) : Keeps classes (deleteLocal r) := by
  cases r with
  | some r => exact .modify fun _ => rfl
  | none => exact .pure _

theorem newGlobal_keeps (o : Object) : Keeps classes (newGlobal o) := by
  refine .bind (note_keeps _) fun _ => .bind (isNull_keeps _ _) fun null => ?_
  split
  · exact .pure none
  refine .bind (faults_keeps _ _) fun faulty => ?_
  split
  · exact .pure none
  · exact .modifyGet fun _ => rfl

theorem deleteGlobal_keeps (r : Reference) : Keeps classes (deleteGlobal r) :=
  .bind (note_keeps _) fun _ => .modify fun _ => rfl

theorem environmentAnswer_keeps : Keeps classes environmentAnswer := .bind .get fun _ => .pure _

theorem attachThread_keeps : Keeps classes attachThread := by
  refine .bind (note_keeps _) fun _ => .bind .get fun m => ?_
  dsimp only
  split
  · exact .bind (.modify fun _ => rfl) fun _ => .pure _
  · exact .pure _

theorem exceptionOccurred_keeps : Keeps classes exceptionOccurred := by
  refine .bind .get fun m => ?_
  cases m.pending with
  | some t => exact .bind (newLocal_keeps _) fun _ => .pure _
  | none => exact .pure none

theorem exceptionCheck_keeps : Keeps classes exceptionCheck := .bind .get fun _ => .pure _

theorem clearException_keeps : Keeps classes clearException :=
  .bind (note_keeps _) fun _ => .modify fun _ => rfl

theorem findClass_keeps (name : String) : Keeps classes (findClass name) := by
  refine .bind (note_keeps _) fun _ => .bind (faults_keeps _ _) fun faulty => ?_
  split
  · exact .pure none
  refine .bind .get fun m => ?_
  split
  · exact .pure none
  split
  · exact .bind (raise_keeps _) fun _ => .pure none
  · exact .bind (newLocal_keeps _) fun _ => .pure _

theorem methodId_keeps (isStatic : Bool) (owner : Object) (name signature : String) :
    Keeps classes (methodId isStatic owner name signature) := by
  refine .bind (note_keeps _) fun _ => .bind (faults_keeps _ _) fun faulty => ?_
  split
  · exact .pure false
  refine .bind .get fun m => ?_
  split
  · exact .pure false
  split
  · exact .bind (raise_keeps _) fun _ => .pure false
  · exact .pure true

theorem objectClass_keeps (o : Object) : Keeps classes (objectClass o) := newLocal_keeps _

theorem stringChars_keeps (o : Object) : Keeps classes (stringChars o) := by
  refine .bind (isNull_keeps _ _) fun null => ?_
  split
  · exact .pure none
  refine .bind (turnThrows_keeps _ _) fun thrown => ?_
  split
  · exact .pure none
  refine .bind (.modify fun _ => rfl) fun _ => ?_
  cases o <;> exact .pure _

theorem releaseChars_keeps : Keeps classes releaseChars := .modify fun _ => rfl

theorem invoke_keeps (receiver method : String) (arguments : List String) (subject : String)
    (fallback : α) {result : Native α} (h : Keeps classes result) :
    Keeps classes (invoke receiver method arguments subject fallback result) := by
  refine .bind (note_keeps _) fun _ => .bind (faults_keeps _ _) fun faulty => ?_
  split
  · exact .pure fallback
  · exact h

theorem newLocal?_keeps (o : Option Object) : Keeps classes (newLocal? o) := by
  cases o with
  | some o => exact .bind (newLocal_keeps o) fun _ => .pure _
  | none => exact .pure none

theorem callObject_keeps (receiver : Object) (method : String) :
    Keeps classes (callObject receiver method) := by
  refine invoke_keeps _ _ _ _ _ (.bind .get fun m => ?_)
  split
  · exact newLocal?_keeps _
  · exact newLocal?_keeps _
  · exact newLocal?_keeps _
  · split
    · exact .bind (raise_keeps _) fun _ => .pure none
    · exact newLocal?_keeps _
  · exact .pure none

theorem callBoolean_keeps (receiver : Object) (method : String) :
    Keeps classes (callBoolean receiver method) := by
  refine invoke_keeps _ _ _ _ _ ?_
  cases receiver with
  | cls key => exact .bind .get fun _ => .pure _
  | _ => exact .pure false

theorem newString_keeps (content : Bytes) : Keeps classes (newString content) := by
  refine .bind (isNull_keeps _ _) fun null => ?_
  split
  · exact .pure none
  refine .bind (faults_keeps _ _) fun faulty => ?_
  split
  · exact .pure none
  · exact .bind (newLocal_keeps _) fun _ => .pure _

theorem element_keeps (array : Object) (index : Nat) : Keeps classes (element array index) := by
  refine .bind (note_keeps _) fun _ => .bind (faults_keeps _ _) fun faulty => ?_
  split
  · exact .pure none
  split
  · exact newLocal?_keeps _
  · exact .pure none

theorem systemLoader_keeps : Keeps classes systemLoader :=
  invoke_keeps _ _ _ _ _ (.bind .get fun _ => newLocal?_keeps _)

theorem forName_keeps (name : String) (loader : Option String) :
    Keeps classes (forName name loader) := by
  refine invoke_keeps _ _ _ _ _ (.bind (isNull_keeps _ _) fun null => ?_)
  split
  · exact .pure none
  refine .bind .get fun m => ?_
  split
  · exact .bind (newLocal_keeps _) fun _ => .pure _
  · exact .bind (raise_keeps _) fun _ => .pure none

end Machine

namespace Checked

open Machine

theorem jni_keeps (reason : String) : Keeps classes (jni reason : Checked α) := .throw _

theorem environment_keeps : Keeps classes environment := by
  refine .attempt (.lift environmentAnswer_keeps) fun answer => ?_
  split
  · refine .attempt (.lift attachThread_keeps) fun code => ?_
    split
    · exact jni_keeps _
    · exact .ok _
  split
  · exact jni_keeps _
  · exact .ok _

theorem holding_keeps (r : Option Reference) {use : Checked α} (h : Keeps classes use) :
    Keeps classes (holding r use) :=
  .andAlways (deleteLocal_keeps r) h

theorem findClass?_keeps (name : String) : Keeps classes (findClass? name) := by
  unfold findClass?
  split
  · exact findClass_keeps name
  · exact .pure none

theorem methodId_keeps (isStatic : Bool) (owner : Object) (name signature : String) :
    Keeps classes (methodId isStatic owner name signature) := by
  unfold methodId
  split
  · exact Machine.methodId_keeps isStatic owner name signature
  · exact .pure false

theorem stringText_keeps (r : Option Reference) : Keeps classes (stringText r) := by
  cases r with
  | none => exact .pure none
  | some r =>
    refine .bind (stringChars_keeps _) fun chars => ?_
    cases chars with
    | none => exact .pure none
    | some content => exact .bind releaseChars_keeps fun _ => .pure _

theorem describeThrowable_keeps (t : Object) : Keeps classes (describeThrowable t) := by
  refine .bind (objectClass_keeps t) fun cls => .bind (methodId_keeps _ _ _ _) fun found => ?_
  have hend : ∀ text : Option String, Keeps classes (do
      deleteLocal (some cls)
      if ← exceptionCheck then clearException
      return text.getD unprintable) := by
    refine fun text => .bind (deleteLocal_keeps _) fun _ => .bind exceptionCheck_keeps fun _ => ?_
    split
    · exact .bind clearException_keeps fun _ => .pure _
    · exact .pure _
  split
  · exact .bind (callObject_keeps t _) fun s => .bind (stringText_keeps s) fun text =>
      .bind (deleteLocal_keeps s) fun _ => hend text
  · exact hend none

theorem takeException_keeps : Keeps classes takeException := by
  refine .bind exceptionOccurred_keeps fun t => ?_
  cases t with
  | none => exact .pure none
  | some t => exact .bind clearException_keeps fun _ => .pure _

theorem check_keeps (context : String) : Keeps classes (check context) := by
  refine .attempt (.lift takeException_keeps) fun t => ?_
  cases t with
  | none => exact .ok _
  | some t =>
    exact .attempt (.lift (describeThrowable_keeps _)) fun text =>
      .attempt (.lift (deleteLocal_keeps _)) fun _ => jni_keeps _

theorem withClass_keeps (name : String) {use : Object → Checked α}
    (h : ∀ cls, Keeps classes (use cls)) : Keeps classes (withClass name use) := by
  refine .attempt (.lift (findClass?_keeps name)) fun cls => ?_
  cases cls with
  | some cls => exact holding_keeps _ (h _)
  | none => exact .attempt (check_keeps name) fun _ => jni_keeps _

theorem requireMethod_keeps (className name signature : String) :
    Keeps classes (requireMethod className name signature) := by
  refine withClass_keeps className fun cls => .attempt (.lift (methodId_keeps _ _ _ _)) fun found =>
    .attempt (check_keeps name) fun _ => ?_
  split
  · exact jni_keeps _
  · exact .ok _

theorem withObject_keeps (cls : Object) (method signature : String)
    {use : Option Reference → Checked α} (h : ∀ r, Keeps classes (use r)) :
    Keeps classes (withObject cls method signature use) :=
  .attempt (requireMethod_keeps _ _ _) fun _ => .attempt (.lift (callObject_keeps _ _)) fun r =>
    holding_keeps r (.attempt (check_keeps _) fun _ => h r)

theorem callFlag_keeps (cls : Object) (method : String) : Keeps classes (callFlag cls method) :=
  .attempt (requireMethod_keeps _ _ _) fun _ => .attempt (.lift (callBoolean_keeps _ _)) fun _ =>
    .attempt (check_keeps _) fun _ => .ok _

theorem newString?_keeps (s : String) : Keeps classes (newString? s) := by
  unfold newString?
  split
  · exact newString_keeps _
  · exact .pure none

theorem withString_keeps (s : String) {use : Checked α} (h : Keeps classes use) :
    Keeps classes (withString s use) := by
  refine .attempt (.lift (newString?_keeps s)) fun r => ?_
  cases r with
  | some r => exact holding_keeps _ h
  | none => exact .attempt (check_keeps _) fun _ => jni_keeps _

theorem throwableIs_keeps (t : Object) (name : String) : Keeps classes (throwableIs t name) := by
  refine .bind (findClass?_keeps name) fun cls => ?_
  cases cls with
  | some cls => exact .bind (deleteLocal_keeps _) fun _ => .pure _
  | none => exact .bind clearException_keeps fun _ => .pure _

end Checked

theorem pin_keeps (o : Object) : Keeps Machine.classes (pin o) := Machine.newGlobal_keeps o

theorem unpin_keeps (r : Reference) : Keeps Machine.classes (unpin r) := by
  refine .bind Checked.environment_keeps fun found => ?_
  cases found with
  | ok _ => exact Machine.deleteGlobal_keeps r
  | error _ => exact .pure _

namespace Link

def classes (l : Link) : Description × Table String Bytes := l.machine.classes

theorem native_keeps {a : Native α} (h : Keeps Machine.classes a) : Keeps classes (native a) :=
  fun l => h l.machine

theorem call_keeps {a : Native α} (h : Keeps Machine.classes a) :
    Keeps classes (call a : ExceptT ε (StateM Link) α) :=
  fun l => h l.machine

theorem holding_keeps (r : Option Reference) {use : Linked α} (h : Keeps classes use) :
    Keeps classes (holding r use) :=
  .andAlways (native_keeps (Machine.deleteLocal_keeps r)) h

theorem className_keeps (cls : Object) : Keeps Machine.classes (className cls) := by
  refine Checked.withObject_keeps _ _ _ fun r =>
    .attempt (.lift (Checked.stringText_keeps r)) fun name => ?_
  cases name with
  | some name => exact .ok _
  | none => exact Checked.jni_keeps _

theorem classKind_keeps (cls : Object) (questions : List (String × ClassKind)) :
    Keeps Machine.classes (classKind cls questions) := by
  induction questions with
  | nil => exact .ok _
  | cons question rest ih =>
    refine .attempt (Checked.callFlag_keeps _ _) fun holds => ?_
    split
    · exact .ok _
    · exact ih

theorem judgeMiss_keeps (name : String) (t : Object) :
    Keeps Machine.classes (judgeMiss name t) := by
  refine .attempt (.lift (Checked.throwableIs_keeps _ _)) fun absent => ?_
  split
  · exact .ok _
  refine .attempt (.lift (Checked.throwableIs_keeps _ _)) fun broken => ?_
  split
  · exact .ok _
  · exact .attempt (.lift (Checked.describeThrowable_keeps _)) fun _ => Checked.jni_keeps _

end Link

end Jvm

end ClassRecovery
