import ClassRecovery.Capture.Threads
import ClassRecovery.Proofs.Capture.Locks
import ClassRecovery.Proofs.Interleaving

/-!
Any number of threads at one table of class locks. The table has the lock that a thread holds under
its name, for as long as it holds it. Whether it has a lock that nobody holds any more is a question
of when the last one gave it back: if others had given it back too but not let their shares go yet,
then all of them took each other for users, and the lock stays behind.
-/

namespace ClassRecovery.Capture.Locks.Threads

namespace Phase

@[simp] def holds (lock : Nat) : Phase → Bool
  | holding _ k => k = lock
  | _ => false

@[simp] def drops (lock : Nat) : Phase → Bool
  | dropping k => k = lock
  | _ => false

/-- Whether the thread has a share. -/
@[simp] def uses (lock : Nat) (phase : Phase) : Bool := phase.holds lock || phase.drops lock

end Phase

/-- No thread has a share of any lock. -/
def Quiet (m : State) : Prop := ∀ t phase, m.phases t = some phase → ∃ name, phase = .finding name

/-- How many shares of a lock are still to be let go by threads that gave the lock back. -/
def pending (log : List Event) (lock : Nat) : Nat :=
  log.count (.released lock) - log.count (.dropped lock)

/-- Whether a lock was given back, for the last time, between another thread's giving it back and
letting its share go. -/
def overlapped (lock : Nat) : List Event → Bool
  | [] => false
  | .released k :: log => if k = lock then 0 < pending log lock else overlapped lock log
  | .dropped _ :: log => overlapped lock log

/-- Whether the table has a lock. -/
def Listed (l : Locks) (lock : Nat) : Prop := ∃ name, l.table.get? name = some lock

section Table

variable {l : Locks} {users : Nat → Nat} {name : String} {lock k : Nat}

theorem listed_acquire (l : Locks) (name : String) (hk : k ≠ (l.acquire name).1) :
    Listed (l.acquire name).2 k ↔ Listed l k := by
  cases hn : l.table.get? name with
  | some lock => rw [acquire_listed hn]; rfl
  | none =>
    rw [acquire_new hn] at hk ⊢
    refine exists_congr fun other => ?_
    rw [Table.get?_put]
    by_cases ho : other = name
    · rw [if_pos ho, ho, hn]
      exact iff_of_false (fun h => hk (Option.some.inj h).symm) nofun
    · rw [if_neg ho]

theorem listed_release (h : l.Sound users) (hn : l.table.get? name = some lock) (hk : k ≠ lock) :
    Listed (l.release name lock) k ↔ Listed l k := by
  by_cases hu : users lock = 1
  · rw [release_of_alone h hn hu]
    refine exists_congr fun other => ?_
    change (l.table.erase name).get? other = some k ↔ _
    rw [Table.get?_erase]
    by_cases ho : other = name
    · rw [if_pos ho, ho, hn]
      exact iff_of_false nofun fun he => hk (Option.some.inj he).symm
    · rw [if_neg ho]
  · rw [release_of_shared h hn hu]

/-- A lock that is given back leaves the table if nobody else has a share. -/
theorem listed_release_self (h : l.Sound users) (hn : l.table.get? name = some lock) :
    Listed (l.release name lock) lock ↔ users lock ≠ 1 := by
  by_cases hu : users lock = 1
  · rw [release_of_alone h hn hu]
    refine iff_of_false ?_ fun hne => hne hu
    rintro ⟨other, ho⟩
    change (l.table.erase name).get? other = some lock at ho
    rw [Table.get?_erase] at ho
    split at ho
    · cases ho
    · next hne => exact hne (h.apart other name lock ho hn)
  · rw [release_of_shared h hn hu]
    exact iff_of_true ⟨name, hn⟩ hu

theorem get?_acquire_of_ne {other : String} (l : Locks) (h : other ≠ name) :
    (l.acquire name).2.table.get? other = l.table.get? other := by
  cases hn : l.table.get? name with
  | some lock => rw [acquire_listed hn]; rfl
  | none =>
    rw [acquire_new hn]
    exact (Table.get?_put ..).trans (if_neg h)

end Table

/-- How many threads have a share of a lock. -/
noncomputable def users (m : State) (lock : Nat) : Nat := m.count (Phase.uses lock)

/-- What holds between any two steps. -/
structure Sound (m : State) : Prop where
  finite : m.Finite
  shared : m.shared.locks.Sound (users m)
  held : ∀ t name lock, m.phases t = some (.holding name lock) →
    m.shared.locks.table.get? name = some lock
  released : ∀ lock, m.shared.log.count (.released lock) =
    m.shared.log.count (.dropped lock) + m.count (Phase.drops lock)
  /-- What is left of a lock that nobody holds. -/
  left : ∀ lock, m.count (Phase.holds lock) = 0 →
    (Listed m.shared.locks lock ↔ overlapped lock m.shared.log = true)

theorem sound_start : Sound start := by
  have hnone : ∀ q : Phase → Bool, start.count q = 0 := fun q => by
    simp [Routine.State.count, start]
  refine ⟨Set.finite_empty.subset fun t ht => ht rfl, ?_, fun t name lock h => ?_, fun lock => ?_,
    fun lock _ => iff_of_false ?_ Bool.false_ne_true⟩
  · rw [show users start = fun _ => 0 from funext fun lock => hnone _]
    exact sound_empty
  · cases h
  · rw [hnone]
    rfl
  · rintro ⟨name, h⟩
    cases h

variable {m : State} {t : Nat} {name : String} {lock : Nat}

/-- What a step changes in the counts. -/
theorem Sound.count_put (h : Sound m) {phase : Phase} (ht : m.phases t = some phase)
    (after : Option Phase) (s : Shared) (q : Phase → Bool) :
    (m.put t after s).count q + (q phase).toNat = m.count q + (after.any q).toNat := by
  have hput := Routine.count_put h.finite t after s q
  rwa [ht, Option.any_some] at hput

/-- Holding is a matter of the other threads, and of where this one goes. -/
theorem held_put {after : Option Phase} {s : Shared}
    (hothers : ∀ u, u ≠ t → ∀ other k, m.phases u = some (.holding other k) →
      s.locks.table.get? other = some k)
    (hown : ∀ other k, after = some (.holding other k) → s.locks.table.get? other = some k) :
    ∀ u other k, (m.put t after s).phases u = some (.holding other k) →
      s.locks.table.get? other = some k := by
  intro u other k hu
  rcases Routine.put_eq_some.mp hu with ⟨-, hu⟩ | ⟨hut, hu⟩
  · exact hown other k hu
  · exact hothers u hut other k hu

theorem Sound.call (h : Sound m) (ht : m.phases t = none) (name : String) :
    Sound (m.put t (some (.finding name)) m.shared) := by
  have hsame : ∀ q : Phase → Bool, q (.finding name) = false →
      (m.put t (some (.finding name)) m.shared).count q = m.count q := fun q hq =>
    Routine.count_put_of_eq h.finite _ (by rw [ht, Option.any_none, Option.any_some, hq])
  refine ⟨h.finite.put .., ?_, held_put (fun u _ => h.held u) nofun, fun k => ?_,
    fun k hnone => ?_⟩
  · rw [show users (m.put t _ m.shared) = users m from funext fun k => hsame (Phase.uses k) rfl]
    exact h.shared
  · rw [hsame (Phase.drops k) rfl]
    exact h.released k
  · rw [hsame (Phase.holds k) rfl] at hnone
    exact h.left k hnone

theorem Sound.finding (h : Sound m) (ht : m.phases t = some (.finding name)) :
    Sound (m.put t (next (.finding name) m.shared).1 (next (.finding name) m.shared).2) := by
  set taken := m.shared.locks.acquire name
  change Sound (m.put t (some (.holding name taken.1)) ⟨taken.2, m.shared.log⟩)
  have hcount := h.count_put ht (some (.holding name taken.1)) ⟨taken.2, m.shared.log⟩
  refine ⟨h.finite.put .., ?_, ?_, fun k => ?_, fun k hnone => ?_⟩
  · have husers : users (m.put t (some (.holding name taken.1)) ⟨taken.2, m.shared.log⟩) =
        joined taken.1 (users m) := by
      funext k
      have hk := hcount (Phase.uses k)
      by_cases hne : taken.1 = k <;> simp_all [users, joined, eq_comm]
    rw [husers]
    exact h.shared.acquire name
  · refine held_put (fun u _ other k hu => get?_acquire_of_listed name (h.held u other k hu)) ?_
    rintro other k ⟨⟩
    exact get?_acquire _ _
  · rw [Nat.add_right_cancel (hcount (Phase.drops k))]
    exact h.released k
  · have hk' := hcount (Phase.holds k)
    rw [hnone] at hk'
    have hne : k ≠ taken.1 := by
      rintro rfl
      simp at hk'
    have hbefore : m.count (Phase.holds k) = 0 := by
      simp [Ne.symm hne] at hk'
      omega
    exact (listed_acquire _ _ hne).trans (h.left k hbefore)

/-- Who holds a lock alone shares it with those who still have to let their shares go. -/
theorem Sound.users_of_holding (h : Sound m) (ht : m.phases t = some (.holding name lock))
    (halone : ∀ u, u ≠ t → ∀ other, m.phases u ≠ some (.holding other lock)) :
    users m lock = m.count (Phase.drops lock) + 1 := by
  have huses := h.count_put ht none m.shared (Phase.uses lock)
  have hdrops := h.count_put ht none m.shared (Phase.drops lock)
  have hrest : (m.put t none m.shared).count (Phase.uses lock) =
      (m.put t none m.shared).count (Phase.drops lock) := by
    refine Routine.count_congr fun u phase hu => ?_
    obtain ⟨-, ⟨⟩⟩ | ⟨hut, hu⟩ := Routine.put_eq_some.mp hu
    cases phase with
    | finding other => rfl
    | dropping k => simp
    | holding other k =>
      have hne : k ≠ lock := by
        rintro rfl
        exact halone u hut other hu
      simp [hne]
  simp at huses hdrops
  unfold users
  omega

/-- The last one to give a lock back leaves it behind if others still have to let their shares
go. -/
theorem Sound.listed_release_alone (h : Sound m) (ht : m.phases t = some (.holding name lock))
    (halone : ∀ u, u ≠ t → ∀ other, m.phases u ≠ some (.holding other lock)) :
    Listed (m.shared.locks.release name lock) lock ↔ 0 < pending m.shared.log lock := by
  have husers := h.users_of_holding ht halone
  have hreleased := h.released lock
  rw [listed_release_self h.shared (h.held t name lock ht), pending]
  omega

theorem Sound.holding (h : Sound m) (ht : m.phases t = some (.holding name lock)) :
    Sound (m.put t (next (.holding name lock) m.shared).1
      (next (.holding name lock) m.shared).2) := by
  have hlisted := h.held t name lock ht
  change Sound (m.put t (some (.dropping lock))
    ⟨m.shared.locks.release name lock, .released lock :: m.shared.log⟩)
  have hcount := h.count_put ht (some (.dropping lock))
    ⟨m.shared.locks.release name lock, .released lock :: m.shared.log⟩
  refine ⟨h.finite.put .., ?_, ?_, fun k => ?_, fun k hnone => ?_⟩
  · have husers : users (m.put t (some (.dropping lock))
        ⟨m.shared.locks.release name lock, .released lock :: m.shared.log⟩) = users m := by
      funext k
      have hk := hcount (Phase.uses k)
      simpa [users] using hk
    rw [husers]
    exact h.shared.release hlisted
  · refine held_put (fun u hut other k hu => ?_) nofun
    refine (get?_release h.shared hlisted fun hname => ?_).trans (h.held u other k hu)
    -- Whoever holds the lock of this name has another share of it.
    subst hname
    obtain rfl : k = lock := Option.some.inj ((h.held u other k hu).symm.trans hlisted)
    exact Nat.ne_of_gt (Routine.one_lt_count h.finite hu ht hut (by simp) (by simp))
  · change (Event.released lock :: m.shared.log).count (.released k) =
      (Event.released lock :: m.shared.log).count (.dropped k) + _
    have hk := hcount (Phase.drops k)
    have hreleased := h.released k
    by_cases hne : lock = k
    · subst hne
      simp at hk ⊢
      omega
    · simp [hne] at hk ⊢
      omega
  · change Listed (m.shared.locks.release name lock) k ↔
      overlapped k (.released lock :: m.shared.log) = true
    by_cases hne : k = lock
    · subst hne
      have halone : ∀ u, u ≠ t → ∀ other, m.phases u ≠ some (.holding other k) := by
        intro u hut other hu
        have hfalse := (Routine.count_eq_zero_iff (h.finite.put ..)).mp hnone u _
          (Routine.put_eq_some.mpr (.inr ⟨hut, hu⟩))
        simp at hfalse
      rw [overlapped, if_pos rfl, decide_eq_true_iff]
      exact h.listed_release_alone ht halone
    · rw [listed_release h.shared hlisted hne, overlapped, if_neg (Ne.symm hne)]
      refine h.left k ?_
      have hk' := hcount (Phase.holds k)
      rw [hnone] at hk'
      simp [Ne.symm hne] at hk'
      omega

theorem Sound.dropping (h : Sound m) (ht : m.phases t = some (.dropping lock)) :
    Sound (m.put t (next (.dropping lock) m.shared).1 (next (.dropping lock) m.shared).2) := by
  change Sound (m.put t none ⟨m.shared.locks.drop lock, .dropped lock :: m.shared.log⟩)
  have hcount := h.count_put ht none ⟨m.shared.locks.drop lock, .dropped lock :: m.shared.log⟩
  refine ⟨h.finite.put .., ?_, held_put (fun u _ => h.held u) nofun, fun k => ?_,
    fun k hnone => ?_⟩
  · have husers : users (m.put t none
        ⟨m.shared.locks.drop lock, .dropped lock :: m.shared.log⟩) = parted lock (users m) := by
      funext k
      have hk := hcount (Phase.uses k)
      by_cases hne : lock = k
      · subst hne
        simp [users, parted] at hk ⊢
        omega
      · simpa [users, parted, hne, Ne.symm hne] using hk
    rw [husers]
    refine h.shared.drop fun hzero => ?_
    have hfalse := (Routine.count_eq_zero_iff h.finite).mp hzero t _ ht
    simp at hfalse
  · change (Event.dropped lock :: m.shared.log).count (.released k) =
      (Event.dropped lock :: m.shared.log).count (.dropped k) + _
    have hk := hcount (Phase.drops k)
    have hreleased := h.released k
    by_cases hne : lock = k
    · subst hne
      simp at hk ⊢
      omega
    · simp [hne] at hk ⊢
      omega
  · refine h.left k ?_
    have hk' := hcount (Phase.holds k)
    rw [hnone] at hk'
    simp at hk'
    omega

theorem Sound.moves {m' : State} (h : Sound m) (hmoves : Routine.Moves routine m m') :
    Sound m' := by
  cases hmoves with
  | call t name idle => exact h.call idle name
  | go t phase after shared busy goes =>
    obtain ⟨rfl, rfl⟩ := Prod.mk.inj (Option.some.inj goes.symm)
    cases phase with
    | finding name => exact h.finding busy
    | holding name lock => exact h.holding busy
    | dropping lock => exact h.dropping busy
  | besides e => cases e

theorem sound_run {moves : List (Routine.Move String Empty)}
    (hrun : routine.run start moves = some m) : Sound m :=
  Routine.run_keeps Sound.moves hrun sound_start

/-- A lock is taken out of the table by a thread that gives it back while no other thread has a
share of it. -/
theorem Sound.stays_or_unshared {m' : State} (h : Sound m) (hmoves : Routine.Moves routine m m')
    (hlisted : m.shared.locks.table.get? name = some lock) :
    m'.shared.locks.table.get? name = some lock ∨
      m'.shared.locks.table.get? name = none ∧ ∃ t, m.phases t = some (.holding name lock) ∧
        m'.phases t = some (.dropping lock) ∧
        ∀ u phase, u ≠ t → m.phases u = some phase → phase.uses lock = false := by
  cases hmoves with
  | call => exact .inl hlisted
  | besides e => cases e
  | go t phase after s busy goes =>
    cases phase with
    | dropping =>
      cases goes
      exact .inl hlisted
    | finding other =>
      cases goes
      exact .inl (get?_acquire_of_listed other hlisted)
    | holding other k =>
      cases goes
      have hother := h.held t other k busy
      by_cases halone : name = other ∧ users m k = 1
      · obtain ⟨rfl, husers⟩ := halone
        obtain rfl := Option.some.inj (hlisted.symm.trans hother)
        refine .inr ⟨?_, t, busy, Routine.put_self _ _ _ _, fun u phase hut hu => ?_⟩
        · change (m.shared.locks.release name lock).table.get? name = none
          rw [release_of_alone h.shared hlisted husers]
          exact (Table.get?_erase ..).trans (if_pos rfl)
        · rw [Bool.eq_false_iff]
          intro huses
          have htwo := Routine.one_lt_count h.finite hu busy hut huses (by simp)
          rw [show m.count (Phase.uses lock) = 1 from husers] at htwo
          exact Nat.lt_irrefl 1 htwo
      · left
        exact (get?_release h.shared hother fun hname husers => halone ⟨hname, husers⟩).trans hlisted

theorem Sound.users_of_quiet (h : Sound m) (hquiet : Quiet m) (lock : Nat) : users m lock = 0 := by
  refine (Routine.count_eq_zero_iff h.finite).mpr fun t phase ht => ?_
  obtain ⟨name, rfl⟩ := hquiet t phase ht
  rfl

/-- An undisturbed call leaves nothing of its lock, also if there was something left before. -/
theorem Sound.call_alone (h : Sound m) (hquiet : Quiet m) (hidle : m.phases t = none)
    (name : String) :
    ∃ n m', routine.run m (.call t name :: List.replicate n (.go t)) = some m' ∧
      m'.phases = m.phases ∧ m'.shared.locks.table.get? name = none ∧
      ∀ other, other ≠ name →
        m'.shared.locks.table.get? other = m.shared.locks.table.get? other := by
  set taken := m.shared.locks.acquire name
  have halone : joined taken.1 (users m) taken.1 = 1 := by
    simp [joined, h.users_of_quiet hquiet]
  have hrelease : taken.2.release name taken.1 =
      drop taken.1 { taken.2 with table := taken.2.table.erase name } :=
    release_of_alone (h.shared.acquire name) (get?_acquire _ _) halone
  obtain ⟨n, hn⟩ := Routine.Alone.call (p := routine) (r := name) hidle
    (.step rfl (.step rfl (.done rfl)))
  refine ⟨n, _, hn, rfl, ?_, fun other hother => ?_⟩
  · change (taken.2.release name taken.1).table.get? name = none
    rw [hrelease]
    exact (Table.get?_erase ..).trans (if_pos rfl)
  · change (taken.2.release name taken.1).table.get? other = _
    rw [hrelease]
    exact (Table.get?_erase ..).trans ((if_neg hother).trans (get?_acquire_of_ne _ hother))

/-- While no thread has a share of any lock, the table has just the locks that were given back, for
the last time, before another thread that had given them back too let its share go. Such a lock is
shared by the table alone, and the next undisturbed call for its name takes it out. If no two
threads come between each other like this, the table is empty. -/
theorem left_behind_iff_overlapped {moves : List (Routine.Move String Empty)}
    (hrun : routine.run start moves = some m) (hquiet : Quiet m) :
    (∀ lock, Listed m.shared.locks lock ↔ overlapped lock m.shared.log = true) ∧
      (∀ name lock, m.shared.locks.table.get? name = some lock →
        m.shared.locks.shares[lock]? = some 1) ∧
      ((∀ lock, overlapped lock m.shared.log = false) → m.shared.locks.table = {}) ∧
      ∀ t name, m.phases t = none → ∃ n m',
        routine.run m (.call t name :: List.replicate n (.go t)) = some m' ∧
          m'.phases = m.phases ∧ m'.shared.locks.table.get? name = none ∧
          ∀ other, other ≠ name →
            m'.shared.locks.table.get? other = m.shared.locks.table.get? other := by
  have hsound := sound_run hrun
  have hleft : ∀ lock, Listed m.shared.locks lock ↔ overlapped lock m.shared.log = true := by
    refine fun lock => hsound.left lock ((Routine.count_eq_zero_iff hsound.finite).mpr ?_)
    intro t phase ht
    obtain ⟨name, rfl⟩ := hquiet t phase ht
    rfl
  refine ⟨hleft, fun name lock hlock => ?_, fun hnone => ?_,
    fun t name hidle => hsound.call_alone hquiet hidle name⟩
  · rw [hsound.shared.shared name lock hlock, hsound.users_of_quiet hquiet]
  · refine Table.eq_empty_of_get? _ fun name => ?_
    by_contra hsome
    obtain ⟨lock, hlock⟩ := Option.ne_none_iff_exists'.mp hsome
    have hoverlapped := (hleft lock).mp ⟨name, hlock⟩
    rw [hnone lock] at hoverlapped
    cases hoverlapped

section Crossed

/-- Two threads get shares of the lock of one class. Both give the lock back before either lets its
share go. -/
def crossed : List (Routine.Move String Empty) :=
  [.call 0 "a.B", .call 1 "a.B", .go 0, .go 1, .go 0, .go 1, .go 0, .go 1]

theorem left_behind_crossed :
    ∃ m, routine.run start crossed = some m ∧ Listed m.shared.locks 0 ∧
      m.shared.locks.shares[0]? = some 1 ∧
      ∃ n m', routine.run m (.call 2 "a.B" :: List.replicate n (.go 2)) = some m' ∧
        m'.shared.locks.table.get? "a.B" = none := by
  have hrun : routine.run start crossed = some ((routine.run start crossed).get rfl) := rfl
  have hquiet : Quiet ((routine.run start crossed).get rfl) := by
    intro t phase ht
    match t with
    | 0 | 1 | t + 2 => cases ht
  obtain ⟨hleft, hshared, -, hagain⟩ := left_behind_iff_overlapped hrun hquiet
  obtain ⟨n, m', hrun', -, hgone, -⟩ := hagain 2 "a.B" rfl
  exact ⟨_, hrun, (hleft 0).mpr rfl, hshared "a.B" 0 rfl, n, m', hrun', hgone⟩

/-- Nobody is asked anything any more, and the lock is still in the table. -/
theorem crossed_leave_lock :
    ∃ m, routine.run start crossed = some m ∧ (∀ t, m.phases t = none) ∧
      m.shared.locks.table.get? "a.B" = some 0 := by
  refine ⟨_, rfl, fun t => ?_, rfl⟩
  match t with
  | 0 | 1 | t + 2 => rfl

end Crossed

end ClassRecovery.Capture.Locks.Threads
