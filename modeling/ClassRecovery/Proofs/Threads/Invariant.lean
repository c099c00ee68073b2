import ClassRecovery.Collector.Threads
import ClassRecovery.Proofs.Capture.Locks
import ClassRecovery.Proofs.Collector.Capture

/-!
What holds between any two steps of threads that ask one collector. Whoever has a share of a listed
lock finds it under the name of the class; so of the threads that ask for one name at most one has
something in the cache, and what the cache has under a name belongs to that thread.
-/

namespace ClassRecovery.Collector.Threads

namespace Stage

/-- The thread finds the lock in the table. -/
def listed : Stage → Bool
  | dropping _ => false
  | _ => true

/-- The thread holds the lock of the name. -/
def inLock : Stage → Bool
  | inside | asking | delivering _ | fetching | leaving _ => true
  | _ => false

/-- The thread may have bytes in the cache. -/
def capturing : Stage → Bool
  | delivering _ | fetching => true
  | _ => false

/-- The class was transformed again for the thread. -/
def asked : Stage → Bool
  | waiting | inside | asking => false
  | _ => true

end Stage

namespace Phase

/-- The class that a thread was asked about. -/
def question : Phase → Option ClassRef
  | idle => none
  | begun c | wanting c _ | finding c _ | sharing c _ _ _ => some c

def beforeGateway : Phase → Bool
  | idle | begun _ => true
  | _ => false

/-- The thread holds the lock of the table. -/
def atTable : Phase → Bool
  | finding _ _ | sharing _ _ _ (.closing _) => true
  | _ => false

/-- The lock of a name that the thread has a share of. -/
def shared : Phase → Option Nat
  | sharing _ _ lock _ => some lock
  | _ => none

/-- The lock of a name that the thread holds. -/
def held : Phase → Option Nat
  | sharing _ _ lock stage => if stage.inLock then some lock else none
  | _ => none

/-- The name under which the thread may have bytes in the cache. -/
def captured : Phase → Option String
  | sharing c _ _ stage => if stage.capturing then some c.name else none
  | _ => none

def asked : Phase → Bool
  | sharing _ _ _ stage => stage.asked
  | _ => false

end Phase

/-- What a thread relies on besides the locks that it holds. -/
def Stage.Relies (s : Setting) (w : World) (p : CapturePoint) (c : ClassRef) (g : Nat)
    (marks : List Nat) : Stage → Prop
  | waiting | inside => marks = []
  | asking => marks = [] ∧ p.installed = true
  | delivering rest => marks = [g] ∧ p.installed = true ∧
      (∀ u ∈ rest, ∃ k, w.actionOf u = some (.callback k)) ∧
      ((∃ u ∈ rest, w.actionOf u = some (.callback g)) ∨
        w.cached p.cache c.name = some (s.bytesOf c))
  | fetching => marks = [] ∧ w.cached p.cache c.name = some (s.bytesOf c)
  | leaving a | returning a | closing a | dropping a => marks = [] ∧ a = .ok (some (s.bytesOf c))

def Thread.Relies (s : Setting) (w : World) (p : CapturePoint) (th : Thread) : Prop :=
  match th.phase with
  | .idle | .begun _ => th.marks = []
  | .wanting _ gateway | .finding _ gateway => th.marks = [] ∧ p.gateway = some gateway
  | .sharing c gateway lock stage => ∃ g, gateway = .gateway g (.given s.index) ∧
      p.gateway = some gateway ∧ (stage.listed = true → p.locks.table.get? c.name = some lock) ∧
      stage.Relies s w p c g th.marks

/-- The threads between two steps. Before the first of them has got the gateway nothing has
happened to the world. The instrument had been asked `base` times at the start. -/
structure Safe (s : Setting) (start : World) (base : Nat) (p : CapturePoint) (m : State) :
    Prop where
  connected : Connected s.index m.world
  point : m.world.points[s.point]? = some p
  untouched : p.gateway = none →
    m.world = start ∧ ∀ th ∈ m.threads, th.phase.beforeGateway = true
  relies : ∀ th ∈ m.threads, th.Relies s m.world p
  tableHolder : ∀ t, m.tableHolder = some t ↔
    ∃ th, m.threads[t]? = some th ∧ th.phase.atTable = true
  holders : ∀ lock t, m.holders.get? lock = some t ↔
    ∃ th, m.threads[t]? = some th ∧ th.phase.held = some lock
  locks : p.locks.Sound fun lock => m.threads.countP fun th => th.phase.shared = some lock
  cached : ∀ name, (m.world.cached p.cache name).isSome →
    ∃ th ∈ m.threads, th.phase.captured = some name
  count : m.world.instruments[s.index]?.map (·.count) =
    some (base + m.answered.length + m.threads.countP fun th => th.phase.asked)
  answered : ∀ x ∈ m.answered, x.2 = .ok (some (s.bytesOf x.1))

section Lists

variable {α : Type} {l : List α} {t : Nat} {a : α}

theorem exists_split (h : l[t]? = some a) :
    ∃ l₁ l₂, l = l₁ ++ a :: l₂ ∧ ∀ b, l.set t b = l₁ ++ b :: l₂ := by
  induction l generalizing t with
  | nil => cases h
  | cons x l ih =>
    cases t with
    | zero =>
      cases h
      exact ⟨[], l, rfl, fun _ => rfl⟩
    | succ t =>
      obtain ⟨l₁, l₂, hl, hset⟩ := ih h
      exact ⟨x :: l₁, l₂, by rw [hl]; rfl, fun b => by rw [List.set_cons_succ, hset]; rfl⟩

theorem countP_put (h : l[t]? = some a) (q : α → Bool) (b : α) :
    (l.set t b).countP q + (if q a then 1 else 0) = l.countP q + (if q b then 1 else 0) := by
  obtain ⟨l₁, l₂, hl, hset⟩ := exists_split h
  rw [hset, hl]
  simp only [List.countP_append, List.countP_cons]
  omega

theorem getElem?_put (h : l[t]? = some a) (b : α) (u : Nat) :
    (l.set t b)[u]? = if u = t then some b else l[u]? := by
  have hlt : t < l.length := (List.getElem?_eq_some_iff.mp h).1
  rw [List.getElem?_set]
  by_cases hu : t = u
  · subst hu
    simp [hlt]
  · simp [hu, Ne.symm hu]

/-- Of all elements but one, and of the new one in its place. -/
theorem forall_mem_put (h : l[t]? = some a) {b : α} {P : α → Prop} (hb : P b)
    (hl : ∀ u x, u ≠ t → l[u]? = some x → P x) : ∀ x ∈ l.set t b, P x := by
  intro x hx
  obtain ⟨u, hu⟩ := List.mem_iff_getElem?.mp hx
  rw [getElem?_put h] at hu
  split at hu
  next =>
    cases hu
    exact hb
  next hne => exact hl u x hne hu

theorem exists_mem_put (h : l[t]? = some a) {b : α} {P : α → Prop}
    (hl : P b ∨ ∃ x ∈ l, P x ∧ ¬ P a) : ∃ x ∈ l.set t b, P x := by
  rcases hl with hb | ⟨x, hx, hP, ha⟩
  · have hlt : t < l.length := (List.getElem?_eq_some_iff.mp h).1
    exact ⟨b, List.mem_set hlt b, hb⟩
  · obtain ⟨u, hu⟩ := List.mem_iff_getElem?.mp hx
    have hne : u ≠ t := by
      intro he
      subst he
      rw [h] at hu
      cases hu
      exact ha hP
    refine ⟨x, List.mem_iff_getElem?.mpr ⟨u, ?_⟩, hP⟩
    rw [getElem?_put h, if_neg hne, hu]

theorem two_le_countP {u : Nat} {x : α} (h : l[t]? = some a) (hu : l[u]? = some x) (hne : u ≠ t)
    (q : α → Bool) (ha : q a = true) (hx : q x = true) : 2 ≤ l.countP q := by
  have hpos : ∀ {l : List α} {i : Nat} {y : α}, l[i]? = some y → q y = true → 0 < l.countP q :=
    fun hi hy => List.countP_pos_iff.mpr ⟨_, List.mem_of_getElem? hi, hy⟩
  induction l generalizing t u with
  | nil => cases h
  | cons y l ih =>
    rw [List.countP_cons]
    cases t with
    | zero =>
      cases h
      cases u with
      | zero => exact absurd rfl hne
      | succ u =>
        have := hpos (l := l) hu hx
        rw [if_pos ha]
        omega
    | succ t =>
      cases u with
      | zero =>
        cases hu
        have := hpos (l := l) h ha
        rw [if_pos hx]
        omega
      | succ u =>
        have := ih h hu fun he => hne (congrArg Nat.succ he)
        omega

end Lists

variable {s : Setting} {start : World} {base : Nat} {p p' : CapturePoint} {m m' : State}
  {t : Nat} {th th' : Thread}

namespace Safe

theorem step (h : Safe s start base p m) (ht : m.threads[t]? = some th)
    (hthreads : m'.threads = m.threads.set t th') (hconnected : Connected s.index m'.world)
    (hpoint : m'.world.points[s.point]? = some p')
    (huntouched : p'.gateway = none →
      m'.world = start ∧ ∀ th ∈ m'.threads, th.phase.beforeGateway = true)
    (hown : th'.Relies s m'.world p')
    (hothers : ∀ u x, u ≠ t → m.threads[u]? = some x → x.Relies s m.world p →
      x.Relies s m'.world p')
    (htable : ∀ u, m'.tableHolder = some u ↔
      if u = t then th'.phase.atTable = true else m.tableHolder = some u)
    (hholders : ∀ lock u, m'.holders.get? lock = some u ↔
      if u = t then th'.phase.held = some lock else m.holders.get? lock = some u)
    (hlocks : p'.locks.Sound fun lock =>
      (m.threads.set t th').countP fun th => th.phase.shared = some lock)
    (hcached : ∀ name, (m'.world.cached p'.cache name).isSome →
      th'.phase.captured = some name ∨
        (m.world.cached p.cache name).isSome ∧ th.phase.captured ≠ some name)
    (hcount : m'.world.instruments[s.index]?.map (·.count) =
      some (base + m'.answered.length + (m.threads.set t th').countP fun th => th.phase.asked))
    (hanswered : ∀ x ∈ m'.answered, x.2 = .ok (some (s.bytesOf x.1))) :
    Safe s start base p' m' := by
  rw [← hthreads] at hlocks hcount
  refine ⟨hconnected, hpoint, huntouched, ?_, ?_, ?_, hlocks, ?_, hcount, hanswered⟩
  · rw [hthreads]
    exact forall_mem_put ht hown fun u x hu hx =>
      hothers u x hu hx (h.relies x (List.mem_of_getElem? hx))
  · intro u
    rw [htable, hthreads, getElem?_put ht]
    by_cases hu : u = t
    · simp [hu]
    · simpa [hu] using h.tableHolder u
  · intro lock u
    rw [hholders, hthreads, getElem?_put ht]
    by_cases hu : u = t
    · simp [hu]
    · simpa [hu] using h.holders lock u
  · intro name hc
    rw [hthreads]
    apply exists_mem_put ht
    rcases hcached name hc with hc | ⟨hc, hn⟩
    · exact .inl hc
    · obtain ⟨x, hx, hxc⟩ := h.cached name hc
      exact .inr ⟨x, hx, hxc, hn⟩

theorem tableHolder_same (h : Safe s start base p m) (ht : m.threads[t]? = some th)
    (hat : th'.phase.atTable = th.phase.atTable) (u : Nat) :
    m.tableHolder = some u ↔
      if u = t then th'.phase.atTable = true else m.tableHolder = some u := by
  by_cases hu : u = t
  · subst hu
    rw [if_pos rfl, h.tableHolder, hat]
    simp [ht]
  · rw [if_neg hu]

theorem holders_same (h : Safe s start base p m) (ht : m.threads[t]? = some th)
    (hheld : th'.phase.held = th.phase.held) (lock u : Nat) :
    m.holders.get? lock = some u ↔
      if u = t then th'.phase.held = some lock else m.holders.get? lock = some u := by
  by_cases hu : u = t
  · subst hu
    rw [if_pos rfl, h.holders, hheld]
    simp [ht]
  · rw [if_neg hu]

theorem users_same (ht : m.threads[t]? = some th) (hshared : th'.phase.shared = th.phase.shared) :
    (fun lock => (m.threads.set t th').countP fun th => th.phase.shared = some lock) =
      fun lock => m.threads.countP fun th => th.phase.shared = some lock := by
  funext lock
  have h := countP_put ht (fun th => th.phase.shared = some lock) th'
  rw [hshared] at h
  omega

theorem users_joined {lock : Nat} (ht : m.threads[t]? = some th) (hno : th.phase.shared = none)
    (hnew : th'.phase.shared = some lock) :
    (fun k => (m.threads.set t th').countP fun th => th.phase.shared = some k) =
      Capture.Locks.joined lock fun k => m.threads.countP fun th => th.phase.shared = some k := by
  funext k
  have h := countP_put ht (fun th => th.phase.shared = some k) th'
  rw [hno, hnew] at h
  by_cases hk : k = lock
  · subst hk
    simpa [Capture.Locks.joined] using h
  · simpa [Capture.Locks.joined, hk, Ne.symm hk] using h

theorem users_parted {lock : Nat} (ht : m.threads[t]? = some th)
    (hold : th.phase.shared = some lock) (hno : th'.phase.shared = none) :
    (fun k => (m.threads.set t th').countP fun th => th.phase.shared = some k) =
      Capture.Locks.parted lock fun k => m.threads.countP fun th => th.phase.shared = some k := by
  funext k
  have h := countP_put ht (fun th => th.phase.shared = some k) th'
  rw [hno, hold] at h
  by_cases hk : k = lock
  · subst hk
    simp [Capture.Locks.parted] at h ⊢
    omega
  · simpa [Capture.Locks.parted, hk, Ne.symm hk] using h

theorem asked_same (ht : m.threads[t]? = some th) (hasked : th'.phase.asked = th.phase.asked) :
    ((m.threads.set t th').countP fun th => th.phase.asked) =
      m.threads.countP fun th => th.phase.asked := by
  have h := countP_put ht (fun th => th.phase.asked) th'
  rw [hasked] at h
  omega

theorem asked_once_more (ht : m.threads[t]? = some th) (hno : th.phase.asked = false)
    (hnow : th'.phase.asked = true) :
    ((m.threads.set t th').countP fun th => th.phase.asked) =
      (m.threads.countP fun th => th.phase.asked) + 1 := by
  simpa [hno, hnow] using countP_put ht (fun th => th.phase.asked) th'

end Safe

end ClassRecovery.Collector.Threads
