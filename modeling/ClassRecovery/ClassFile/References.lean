import ClassRecovery.ClassFile.ConstantPool
import ClassRecovery.ClassName

/-!
The names that a class file gives: its own, and those of the classes it refers to. References are
handed out one at a time, and nothing is read before the first is asked for.
-/

namespace ClassRecovery.ClassFile

/-- The name of the class that the file defines. A fault in its entry is reported at the place that
points there. -/
def definedName (form : NameForm) (b : Bytes) : Except Malformed String := do
  let (pool, c) ← ConstantPool.readFile (.start b)
  let (_, c) ← c.take 2
  let (slot, _) ← c.number 2
  match pool.className slot with
  | .ok internal => .ok (ClassName.render form internal)
  | .error e => .error ⟨c.offset, .thisClass e.defect⟩

namespace References

inductive Progress
  | pending (data : Bytes)
  /-- All class entries before the slot have been handed out. -/
  | scanning (pool : ConstantPool) (slot : Nat)
  | done

end References

structure References where
  form : NameForm
  progress : References.Progress

namespace References

def ofBytes (form : NameForm) (data : Bytes) : References := ⟨form, .pending data⟩

/-- Looks for the next class entry and hands it out. Slots are numbers of two bytes. The first fault
is the last thing handed out. -/
def scan (form : NameForm) (pool : ConstantPool) (slot : Nat) :
    Option (Except Malformed String) × References :=
  if slot < pool.count then
    let index := slot % 65536
    if pool.isClass index then
      match pool.className index with
      | .ok internal =>
        (some (.ok (ClassName.render form internal)), ⟨form, .scanning pool (slot + 1)⟩)
      | .error e => (some (.error e), ⟨form, .done⟩)
    else scan form pool (slot + 1)
  else (none, ⟨form, .done⟩)
termination_by pool.count - slot

def next (r : References) : Option (Except Malformed String) × References :=
  match r.progress with
  | .pending data =>
    match ConstantPool.parse data with
    | .ok pool => scan r.form pool 1
    | .error e => (some (.error e), ⟨r.form, .done⟩)
  | .scanning pool slot => scan r.form pool slot
  | .done => (none, r)

/-- An upper bound on how much is still to come. -/
def remaining (r : References) : Nat :=
  match r.progress with
  | .pending data =>
    match ConstantPool.parse data with
    | .ok pool => pool.count
    | .error _ => 1
  | .scanning pool slot => pool.count - slot
  | .done => 0

theorem remaining_scan_lt {form : NameForm} {pool : ConstantPool} {slot : Nat}
    {x : Except Malformed String} (h : (scan form pool slot).1 = some x) :
    (scan form pool slot).2.remaining < pool.count - slot := by
  induction slot using scan.induct pool with
  | case1 slot hslot index hclass internal hname =>
    rw [scan, if_pos hslot]
    simp only [index, hclass, hname, ↓reduceIte, remaining]
    omega
  | case2 slot hslot index hclass e hname =>
    rw [scan, if_pos hslot]
    simp only [index, hclass, hname, ↓reduceIte, remaining]
    omega
  | case3 slot hslot index hclass ih =>
    rw [scan, if_pos hslot] at h ⊢
    simp only [index, hclass, Bool.false_eq_true, ↓reduceIte] at h ⊢
    exact Nat.lt_of_lt_of_le (ih h) (by omega)
  | case4 slot hslot =>
    rw [scan, if_neg hslot] at h
    cases h

theorem remaining_next_lt {r : References} {x : Except Malformed String}
    (h : r.next.1 = some x) : r.next.2.remaining < r.remaining := by
  obtain ⟨form, progress⟩ := r
  cases progress with
  | pending data =>
    simp only [next, remaining] at h ⊢
    cases hp : ConstantPool.parse data with
    | ok pool =>
      simp only [hp] at h ⊢
      exact Nat.lt_of_lt_of_le (remaining_scan_lt h) (Nat.sub_le _ _)
    | error e => simp
  | scanning pool slot => exact remaining_scan_lt h
  | done => simp [next] at h

/-- Everything still to come, and what is left when nothing more comes. -/
def drain (r : References) : List (Except Malformed String) × References :=
  match h : r.next with
  | (none, r') => ([], r')
  | (some x, r') =>
    have : r'.remaining < r.remaining := by
      simpa [h] using remaining_next_lt (r := r) (x := x) (by simp [h])
    let (xs, last) := drain r'
    (x :: xs, last)
termination_by r.remaining

def toList (r : References) : List (Except Malformed String) := r.drain.1

end References

end ClassRecovery.ClassFile
