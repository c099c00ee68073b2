import Mathlib
import ClassRecovery.Capture.Locks

/-!
The table of class locks against those who use them. A lock in the table is shared by the table and
by its users, so the number of shares tells whether anyone else uses it. Locks that were taken out
may keep users; nobody finds them any more.
-/

namespace ClassRecovery.Capture.Locks

/-- `users` says how many use a lock. -/
structure Sound (l : Locks) (users : Nat → Nat) : Prop where
  shared : ∀ name lock, l.table.get? name = some lock → l.shares[lock]? = some (users lock + 1)
  apart : ∀ m n lock, l.table.get? m = some lock → l.table.get? n = some lock → m = n
  /-- A lock that is not there yet has no users. -/
  known : ∀ lock, l.shares.size ≤ lock → users lock = 0

/-- One user more of a lock. -/
def joined (lock : Nat) (users : Nat → Nat) : Nat → Nat :=
  fun k => if k = lock then users k + 1 else users k

/-- One user less of a lock. -/
def parted (lock : Nat) (users : Nat → Nat) : Nat → Nat :=
  fun k => if k = lock then users k - 1 else users k

variable {l : Locks} {users : Nat → Nat} {name other : String} {lock : Nat}

theorem sound_empty : ({} : Locks).Sound fun _ => 0 where
  shared _ _ h := by cases h
  apart _ _ _ h := by cases h
  known _ _ := rfl

theorem acquire_listed (h : l.table.get? name = some lock) :
    l.acquire name = (lock, l.share lock) := by
  unfold acquire
  rw [h]

theorem acquire_new (h : l.table.get? name = none) :
    l.acquire name =
      (l.shares.size, ⟨l.table.put name l.shares.size, l.shares.push 2⟩) := by
  unfold acquire
  rw [h]

theorem get?_acquire (l : Locks) (name : String) :
    (l.acquire name).2.table.get? name = some (l.acquire name).1 := by
  cases h : l.table.get? name with
  | some lock =>
    rw [acquire_listed h]
    exact h
  | none =>
    rw [acquire_new h]
    simp [Table.get?_put]

/-- Who uses a lock still finds it under its name. -/
theorem get?_acquire_of_listed (name : String) (h : l.table.get? other = some lock) :
    (l.acquire name).2.table.get? other = some lock := by
  cases hn : l.table.get? name with
  | some k =>
    rw [acquire_listed hn]
    exact h
  | none =>
    have hne : other ≠ name := by
      intro he
      rw [he, hn] at h
      cases h
    rw [acquire_new hn]
    simp [Table.get?_put, hne, h]

theorem Sound.lt (h : l.Sound users) (hn : l.table.get? name = some lock) :
    lock < l.shares.size :=
  (Array.getElem?_eq_some_iff.mp (h.shared name lock hn)).1

theorem Sound.acquire (h : l.Sound users) (name : String) :
    (l.acquire name).2.Sound (joined (l.acquire name).1 users) := by
  cases hn : l.table.get? name with
  | some lock =>
    rw [acquire_listed hn]
    refine ⟨?_, h.apart, ?_⟩
    · intro n k hk
      have hs := h.shared n k hk
      by_cases he : k = lock
      · subst he
        simp [share, joined, Array.getElem?_modify, hs]
      · simp [share, joined, Array.getElem?_modify, Ne.symm he, he, hs]
    · intro k hk
      have hlt := h.lt hn
      simp only [share, Array.size_modify] at hk
      have hne : k ≠ lock := by omega
      simp [joined, hne, h.known k hk]
  | none =>
    rw [acquire_new hn]
    refine ⟨?_, ?_, ?_⟩
    · intro n k hk
      rw [Table.get?_put] at hk
      split at hk
      next =>
        cases hk
        simp [joined, h.known]
      next =>
        have hne : k ≠ l.shares.size := Nat.ne_of_lt (h.lt hk)
        simp [joined, Array.getElem?_push, hne, h.shared n k hk]
    · intro m n k hm hn'
      rw [Table.get?_put] at hm hn'
      split at hm <;> split at hn'
      next hem hen => rw [hem, hen]
      next =>
        cases hm
        exact absurd (h.lt hn') (Nat.lt_irrefl _)
      next =>
        cases hn'
        exact absurd (h.lt hm) (Nat.lt_irrefl _)
      next => exact h.apart m n k hm hn'
    · intro k hk
      rw [Array.size_push] at hk
      have hne : k ≠ l.shares.size := by omega
      simp [joined, hne, h.known k (by omega)]

/-- With another user the lock stays in the table. -/
theorem release_of_shared (h : l.Sound users) (hn : l.table.get? name = some lock)
    (hu : users lock ≠ 1) : l.release name lock = l := by
  unfold release
  rw [h.shared name lock hn, if_neg]
  simp [hu]

theorem release_of_alone (h : l.Sound users) (hn : l.table.get? name = some lock)
    (hu : users lock = 1) :
    l.release name lock = drop lock { l with table := l.table.erase name } := by
  unfold release
  rw [h.shared name lock hn, if_pos (by rw [hu]), hn]

/-- The lock of a name stays in the table while someone else uses it. -/
theorem get?_release (h : l.Sound users) (hn : l.table.get? name = some lock)
    (ho : other = name → users lock ≠ 1) :
    (l.release name lock).table.get? other = l.table.get? other := by
  by_cases hu : users lock = 1
  · rw [release_of_alone h hn hu]
    have hne : other ≠ name := fun he => ho he hu
    simp [drop, Table.get?_erase, hne]
  · rw [release_of_shared h hn hu]

theorem Sound.release (h : l.Sound users) (hn : l.table.get? name = some lock) :
    (l.release name lock).Sound users := by
  by_cases hu : users lock = 1
  · rw [release_of_alone h hn hu]
    -- Other names have other locks, whose shares stay.
    have hget : ∀ {n k}, (l.table.erase name).get? n = some k → l.table.get? n = some k := by
      intro n k hk
      rw [Table.get?_erase] at hk
      split at hk
      · cases hk
      · exact hk
    refine ⟨?_, fun m n k hm hn => h.apart m n k (hget hm) (hget hn), ?_⟩
    · intro n k hk
      have hne : lock ≠ k := by
        intro he
        subst he
        have hname := h.apart n name lock (hget hk) hn
        rw [hname] at hk
        simp [drop, Table.get?_erase] at hk
      simp [drop, Array.getElem?_modify, hne, h.shared n k (hget hk)]
    · intro k hk
      exact h.known k (by simpa [drop] using hk)
  · rw [release_of_shared h hn hu]
    exact h

theorem Sound.drop (h : l.Sound users) (hu : users lock ≠ 0) :
    (l.drop lock).Sound (parted lock users) := by
  refine ⟨?_, h.apart, ?_⟩
  · intro n k hk
    have hs := h.shared n k hk
    by_cases he : k = lock
    · subst he
      have hpos : users k - 1 + 1 = users k := by omega
      simp [Locks.drop, parted, Array.getElem?_modify, hs, hpos]
    · simp [Locks.drop, parted, Array.getElem?_modify, Ne.symm he, he, hs]
  · intro k hk
    have hz := h.known k (by simpa [Locks.drop] using hk)
    simp [parted, hz]

end ClassRecovery.Capture.Locks
