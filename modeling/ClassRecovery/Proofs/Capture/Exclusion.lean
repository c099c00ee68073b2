import ClassRecovery.Capture.Exclusion
import ClassRecovery.Proofs.Capture.Threads

/-!
Threads that work under the locks of class names. As far as the table can tell, a thread holds its
share from finding the lock until it comes back with it, and with the locks nothing is lost of what
can happen at the table. So all threads that are engaged with one name have the lock that the table
has for it, and that lock lets in one of them at a time.
-/

namespace ClassRecovery.Capture.Locks.Exclusion

variable {m m' : State} {t u : Nat} {name other : String} {lock k : Nat}
  {moves : List (Routine.Move String Empty)}

namespace Phase

/-- The thread holds the lock. -/
def within (lock : Nat) : Phase → Bool
  | inside _ k => k = lock
  | _ => false

theorem engaged_eq_some_iff {phase : Phase} :
    phase.engaged = some (name, lock) ↔ phase.atTable = .holding name lock := by
  cases phase <;> simp [engaged, atTable]

theorem eq_dropping {phase : Phase} (h : phase.atTable = .dropping lock) :
    phase = .dropping lock := by
  cases phase with
  | dropping =>
    cases h
    rfl
  | finding | waiting | inside | returning => cases h

theorem map_atTable (after : Option Threads.Phase) :
    (after.map ofTable).map atTable = after := by
  cases after with
  | none => rfl
  | some phase => cases phase <;> rfl

end Phase

/-- What the table can tell. -/
abbrev seen (m : State) : Threads.State := m.map Shared.table Phase.atTable

/-- The table cannot tell when a thread takes a lock or gives it back. -/
theorem refines : Routine.Refines routine Threads.routine Shared.table Phase.atTable where
  start _ := rfl
  next {t phase s after s'} h := by
    cases phase with
    | finding | returning | dropping =>
      left
      cases h
      exact congrArg some (Prod.ext (Phase.map_atTable _).symm rfl)
    | waiting =>
      right
      obtain ⟨-, h⟩ := Option.ite_none_right_eq_some.mp h
      cases h
      exact ⟨rfl, rfl⟩
    | inside =>
      right
      cases h
      exact ⟨rfl, rfl⟩
  besides {e} := nomatch e

section Rest

/-- The same at the table, with every lock free. -/
abbrev rest (n : Threads.State) : State := n.map (fun table => { table }) Phase.ofTable

variable {n n' : Threads.State}

theorem seen_rest (n : Threads.State) : seen (rest n) = n := by
  unfold seen rest Routine.State.map
  congr 1
  funext t
  exact Phase.map_atTable _

theorem rest_put (n : Threads.State) (t : Nat) (after : Option Threads.Phase) (s : Threads.Shared) :
    rest (n.put t after s) = (rest n).put t (after.map .ofTable) { table := s } :=
  Routine.map_put n t after s

/-- A thread that is about to come back to the table can take the lock and give it back just before,
while nobody else is inside. -/
theorem moves_rest (hmoves : Routine.Moves Threads.routine n n') :
    ∃ moves, routine.run (rest n) moves = some (rest n') := by
  cases hmoves with
  | besides e => cases e
  | call t name idle =>
    have hidle : (rest n).phases t = none := by rw [Routine.phases_map, idle, Option.map_none]
    rw [rest_put]
    exact (Routine.Moves.call t name hidle).exists_run
  | go t phase after s busy goes =>
    have hbusy : (rest n).phases t = some (.ofTable phase) := by
      rw [Routine.phases_map, busy, Option.map_some]
    rw [rest_put]
    cases phase with
    | finding | dropping =>
      cases goes
      exact (Routine.Moves.go t _ _ _ hbusy rfl).exists_run
    | holding name lock =>
      cases goes
      let taken : Table Nat Nat := Table.put {} lock t
      have hfree : taken.erase lock = {} := by simp [taken, Table.put, Table.erase]
      let inside := (rest n).put t (some (.inside name lock)) ⟨n.shared, taken⟩
      let returning := (rest n).put t (some (.returning name lock)) { table := n.shared }
      have htakes : Routine.Moves routine (rest n) inside := .go t _ _ _ hbusy rfl
      have hgives : Routine.Moves routine inside
          (inside.put t (some (.returning name lock)) ⟨n.shared, taken.erase lock⟩) :=
        .go t _ _ _ (Routine.put_self ..) rfl
      have hcomes := Routine.Moves.go (p := routine) (m := returning) t _ _ _
        (Routine.put_self ..) rfl
      rw [Routine.put_put, hfree] at hgives
      rw [Routine.put_put] at hcomes
      exact Routine.exists_run_trans htakes.exists_run
        (Routine.exists_run_trans hgives.exists_run hcomes.exists_run)

/-- What the table can tell of the threads is just what can happen at the table. -/
theorem exists_seen_iff : (∃ moves m, routine.run start moves = some m ∧ seen m = n) ↔
    ∃ moves, Threads.routine.run Threads.start moves = some n := by
  constructor
  · rintro ⟨moves, m, hrun, rfl⟩
    exact refines.run hrun
  · rintro ⟨moves, hrun⟩
    have hrest : ∃ moves, routine.run start moves = some (rest n) :=
      Routine.run_keeps (P := fun n => ∃ moves, routine.run start moves = some (rest n))
        (fun hbefore hmoves => Routine.exists_run_trans hbefore (moves_rest hmoves)) hrun ⟨[], rfl⟩
    obtain ⟨moves, hrest⟩ := hrest
    exact ⟨moves, rest n, hrest, seen_rest n⟩

theorem sound_run (hrun : routine.run start moves = some m) : Threads.Sound (seen m) := by
  obtain ⟨moves, hseen⟩ := exists_seen_iff.mp ⟨moves, m, hrun, rfl⟩
  exact Threads.sound_run hseen

end Rest

section Engaged

theorem engaged_eq {phase : Phase} (ht : m.phases t = some phase) :
    engaged m t = phase.engaged := by
  rw [engaged, ht, Option.bind_some]

theorem engaged_iff : engaged m t = some (name, lock) ↔
    (seen m).phases t = some (.holding name lock) := by
  rw [engaged, Option.bind_eq_some_iff, Routine.phases_map, Option.map_eq_some_iff]
  exact exists_congr fun phase => and_congr_right fun _ => Phase.engaged_eq_some_iff

variable (h : Threads.Sound (seen m))

include h

theorem lockOf_of_engaged (ht : engaged m t = some (name, lock)) : lockOf m name = some lock :=
  h.held t name lock (engaged_iff.mp ht)

/-- One lock for each name, and one name for each lock. -/
theorem lock_eq_iff (ht : engaged m t = some (name, lock)) (hu : engaged m u = some (other, k)) :
    lock = k ↔ name = other := by
  have hname := lockOf_of_engaged h ht
  have hother := lockOf_of_engaged h hu
  constructor
  · rintro rfl
    exact h.shared.apart name other lock hname hother
  · rintro rfl
    exact Option.some.inj (hname.symm.trans hother)

theorem lockOf_stays_or_unshared (hmoves : Routine.Moves routine m m')
    (hlock : lockOf m name = some lock) :
    lockOf m' name = some lock ∨ lockOf m' name = none ∧
      ∃ t, engaged m t = some (name, lock) ∧ m'.phases t = some (.dropping lock) ∧
        ∀ u phase, u ≠ t → m.phases u = some phase → phase.atTable.uses lock = false := by
  rcases refines.moves hmoves with hseen | hsame
  · refine (h.stays_or_unshared hseen hlock).imp_right fun ⟨hnone, t, ht, ht', hothers⟩ => ?_
    obtain ⟨phase, hphase, hdropping⟩ := Option.map_eq_some_iff.mp ht'
    refine ⟨hnone, t, engaged_iff.mpr ht, ?_, fun u phase hut hu => hothers u _ hut ?_⟩
    · rw [hphase, Phase.eq_dropping hdropping]
    · rw [Routine.phases_map, hu, Option.map_some]
  · left
    have hshared : m'.shared.table = m.shared.table := congrArg Routine.State.shared hsame
    rw [lockOf, hshared]
    exact hlock

end Engaged

section Mutex

/-- One of the locks. Nothing is relied on but that it has one holder. -/
def monitor (lock : Nat) : Routine.Monitor Shared Phase where
  holder s := s.holders.get? lock
  inside := Phase.within lock
  Always _ := True
  Free _ := True
  Relies _ _ := True

theorem guards (lock : Nat) : (monitor lock).Guards routine where
  outside _ := rfl
  start _ _ _ := trivial
  next {t phase s after s'} h _ _ _ := by
    refine ⟨trivial, fun _ _ => trivial, fun _ _ _ => trivial, ?_⟩
    cases phase with
    | finding | returning | dropping =>
      cases h
      exact .outside rfl id fun _ _ => id
    | waiting name k =>
      obtain ⟨hfree, h⟩ := Option.ite_none_right_eq_some.mp h
      cases h
      by_cases hk : k = lock
      · subst hk
        simp only [monitor, Phase.within, Option.any_some, decide_true]
        exact .enters hfree (by simp [Table.get?_put])
      · simp only [monitor, Phase.within, Option.any_some, hk, decide_false]
        exact .outside (by simp [Table.get?_put, Ne.symm hk]) id fun _ _ => id
    | inside name k =>
      cases h
      by_cases hk : k = lock
      · subst hk
        simp only [monitor, Phase.within, Option.any_some, decide_true]
        exact .leaves (by simp [Table.get?_erase]) trivial
      · simp only [monitor, Phase.within, Option.any_some, hk, decide_false]
        exact .outside (by simp [Table.get?_erase, Ne.symm hk]) id fun _ _ => id
  holder {e} := nomatch e
  always {e} := nomatch e
  free {e} := nomatch e
  relies {e} := nomatch e

theorem holder_iff (hrun : routine.run start moves = some m) :
    m.shared.holders.get? lock = some t ↔ ∃ name, m.phases t = some (.inside name lock) := by
  have hsafe := (guards lock).safe_run (Routine.Monitor.safe_start trivial rfl trivial) hrun
  refine (hsafe.lock t).trans ((Option.any_eq_true _ _).trans ⟨?_, ?_⟩)
  · rintro ⟨phase, ht, hwithin⟩
    cases phase with
    | inside name k => exact ⟨name, of_decide_eq_true hwithin ▸ ht⟩
    | finding | waiting | returning | dropping => cases hwithin
  · rintro ⟨name, ht⟩
    exact ⟨_, ht, decide_eq_true rfl⟩

end Mutex

section Reachable

variable (hrun : routine.run start moves = some m)

include hrun

/-- A lock keeps a thread waiting just as long as another thread of the same name is inside. -/
theorem waits_iff (ht : m.phases t = some (.waiting name lock)) :
    routine.step m (.go t) = none ↔ ∃ u, m.phases u = some (.inside name lock) := by
  have hstep : routine.step m (.go t) = none ↔ m.shared.holders.get? lock ≠ none := by
    simp only [Routine.step, ht, routine, next, Option.bind_eq_bind, Option.bind_some]
    split
    next hfree => simp [hfree]
    next hheld => simp [hheld]
  rw [hstep, Option.ne_none_iff_exists']
  refine exists_congr fun u => (holder_iff hrun).trans ⟨?_, fun hu => ⟨name, hu⟩⟩
  rintro ⟨other, hu⟩
  rw [hu, (lock_eq_iff (sound_run hrun) (engaged_eq ht) (engaged_eq hu)).mp rfl]

theorem eq_of_inside (ht : m.phases t = some (.inside name lock))
    (hu : m.phases u = some (.inside name k)) : t = u := by
  obtain rfl := (lock_eq_iff (sound_run hrun) (engaged_eq ht) (engaged_eq hu)).mpr rfl
  have hfirst := (holder_iff hrun).mpr ⟨name, ht⟩
  have hsecond := (holder_iff hrun).mpr ⟨name, hu⟩
  exact Option.some.inj (hfirst.symm.trans hsecond)

end Reachable

/-- Threads that are engaged with one name have one lock, which is the one that the table has for the
name; threads with other names have other locks. At most one thread is inside for a name, and it is
all that the others have to wait for. A lock is taken out of the table only by a thread that was
engaged with it, while no other thread has a share of it. -/
theorem one_at_a_time (hrun : routine.run start moves = some m) :
    (∀ t name lock, engaged m t = some (name, lock) → lockOf m name = some lock) ∧
      (∀ t u name other lock k, engaged m t = some (name, lock) → engaged m u = some (other, k) →
        (lock = k ↔ name = other)) ∧
      (∀ t u name lock k, m.phases t = some (.inside name lock) →
        m.phases u = some (.inside name k) → t = u) ∧
      (∀ t name lock, m.phases t = some (.waiting name lock) →
        (routine.step m (.go t) = none ↔ ∃ u, m.phases u = some (.inside name lock))) ∧
      ∀ move m', routine.step m move = some m' → ∀ name lock, lockOf m name = some lock →
        lockOf m' name = some lock ∨ lockOf m' name = none ∧
          ∃ t, engaged m t = some (name, lock) ∧ m'.phases t = some (.dropping lock) ∧
            ∀ u phase, u ≠ t → m.phases u = some phase → phase.atTable.uses lock = false := by
  have hsound := sound_run hrun
  refine ⟨fun t name lock ht => ?_, fun t u name other lock k ht hu => ?_,
    fun t u name lock k ht hu => ?_, fun t name lock ht => ?_,
    fun move m' hstep name lock hlock => ?_⟩
  · exact lockOf_of_engaged hsound ht
  · exact lock_eq_iff hsound ht hu
  · exact eq_of_inside hrun ht hu
  · exact waits_iff hrun ht
  · exact lockOf_stays_or_unshared hsound (Routine.moves_of_step hstep) hlock

section Contended

/-- Three threads are engaged with one name, another one with a name of its own. Of the three the
first has given the lock back, the second is inside, and the third waits. -/
def contended : List (Routine.Move String Empty) :=
  [.call 0 "a.B", .call 1 "a.B", .call 2 "a.B", .call 3 "a.C", .go 0, .go 3, .go 1, .go 2, .go 0,
    .go 3, .go 0, .go 1]

theorem one_at_a_time_contended :
    ∃ m, routine.run start contended = some m ∧ engaged m 0 = some ("a.B", 0) ∧
      m.phases 1 = some (.inside "a.B" 0) ∧ m.phases 2 = some (.waiting "a.B" 0) ∧
      m.phases 3 = some (.inside "a.C" 1) ∧ lockOf m "a.B" = some 0 ∧
      routine.step m (.go 2) = none ∧
      ∃ m', routine.step m (.go 0) = some m' ∧ lockOf m' "a.B" = some 0 := by
  have hrun : routine.run start contended = some ((routine.run start contended).get rfl) := rfl
  obtain ⟨hlock, -, -, hwaits, hstays⟩ := one_at_a_time hrun
  refine ⟨_, hrun, rfl, rfl, rfl, rfl, hlock 0 "a.B" 0 rfl, (hwaits 2 "a.B" 0 rfl).mpr ⟨1, rfl⟩,
    _, rfl, (hstays (.go 0) _ rfl "a.B" 0 (hlock 0 "a.B" 0 rfl)).resolve_right ?_⟩
  -- The second thread still has its share.
  rintro ⟨-, t, -, ht, hothers⟩
  by_cases hne : 1 = t
  · subst hne
    cases ht
  · cases hothers 1 _ hne rfl

end Contended

end ClassRecovery.Capture.Locks.Exclusion
