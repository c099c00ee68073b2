import Mathlib
import ClassRecovery.Interleaving

/-!
What every step keeps, a run keeps; and a step changes by one how many threads are at a place. If a
routine looks like another one to whoever does not see everything, so do its runs.

Around one lock there is more to say. Whoever is inside can rely on what nobody outside changes, and
leaves things in order for the next one. So it is enough to look at what a thread does at each place,
without looking at what the others do meanwhile.
-/

namespace ClassRecovery.Routine

variable {σ ρ φ ω : Type} {p : Routine σ ρ φ ω} {m m' : State σ φ}

theorem put_self (m : State σ φ) (t : Nat) (phase : Option φ) (shared : σ) :
    (m.put t phase shared).phases t = phase := if_pos rfl

theorem put_of_ne {t u : Nat} (h : u ≠ t) (m : State σ φ) (phase : Option φ) (shared : σ) :
    (m.put t phase shared).phases u = m.phases u := if_neg h

/-- After a step of one thread the others are where they were. -/
theorem put_eq_some {t u : Nat} {after : Option φ} {s : σ} {phase : φ} :
    (m.put t after s).phases u = some phase ↔
      u = t ∧ after = some phase ∨ u ≠ t ∧ m.phases u = some phase := by
  by_cases hut : u = t
  · subst hut
    simp [put_self]
  · simp [put_of_ne hut, hut]

/-- What a move comes to. -/
inductive Moves (p : Routine σ ρ φ ω) (m : State σ φ) : State σ φ → Prop
  | call (t : Nat) (r : ρ) (idle : m.phases t = none) :
      Moves p m (m.put t (some (p.start r)) m.shared)
  | go (t : Nat) (phase : φ) (next : Option φ) (shared : σ) (busy : m.phases t = some phase)
      (goes : p.next t phase m.shared = some (next, shared)) : Moves p m (m.put t next shared)
  | besides (e : ω) (shared : σ) (happens : p.besides e m.shared = some shared) :
      Moves p m { m with shared }

theorem moves_of_step {move : Move ρ ω} (h : p.step m move = some m') : Moves p m m' := by
  cases move with
  | call t r =>
    simp only [step] at h
    split at h
    next hidle =>
      cases h
      exact .call t r hidle
    next => cases h
  | go t =>
    obtain ⟨phase, hbusy, h⟩ := Option.bind_eq_some_iff.mp h
    obtain ⟨⟨next, shared⟩, hgoes, h⟩ := Option.bind_eq_some_iff.mp h
    cases h
    exact .go t phase next shared hbusy hgoes
  | besides e =>
    obtain ⟨shared, hhappens, h⟩ := Option.bind_eq_some_iff.mp h
    cases h
    exact .besides e shared hhappens

theorem run_cons (m : State σ φ) (move : Move ρ ω) (moves : List (Move ρ ω)) :
    p.run m (move :: moves) = (p.step m move).bind fun m => p.run m moves :=
  List.foldlM_cons

theorem exists_run_trans {m'' : State σ φ} (h : ∃ moves, p.run m moves = some m')
    (h' : ∃ moves, p.run m' moves = some m'') : ∃ moves, p.run m moves = some m'' := by
  obtain ⟨moves, hrun⟩ := h
  obtain ⟨moves', hrun'⟩ := h'
  refine ⟨moves ++ moves', ?_⟩
  rw [run, List.foldlM_append]
  exact (congrArg (·.bind fun m => p.run m moves') hrun).trans hrun'

theorem run_keeps {P : State σ φ → Prop} (hP : ∀ {m m'}, P m → Moves p m m' → P m')
    {moves : List (Move ρ ω)} (hrun : p.run m moves = some m') (h : P m) : P m' := by
  induction moves generalizing m with
  | nil =>
    cases hrun
    exact h
  | cons move moves ih =>
    rw [run_cons] at hrun
    obtain ⟨m₁, hstep, hrun⟩ := Option.bind_eq_some_iff.mp hrun
    exact ih hrun (hP h (moves_of_step hstep))

/-- A thread that nothing is asked of has nothing to do. -/
theorem idle_of_uncalled {t : Nat} {moves : List (Move ρ ω)} (hrun : p.run m moves = some m')
    (hidle : m.phases t = none) (huncalled : ∀ r, .call t r ∉ moves) : m'.phases t = none := by
  induction moves generalizing m with
  | nil =>
    cases hrun
    exact hidle
  | cons move moves ih =>
    rw [run_cons] at hrun
    obtain ⟨m₁, hstep, hrun⟩ := Option.bind_eq_some_iff.mp hrun
    refine ih hrun ?_ fun r hr => huncalled r (List.mem_cons_of_mem _ hr)
    cases move with
    | call u r =>
      have htu : t ≠ u := fun htu => huncalled r (htu ▸ List.mem_cons_self)
      simp only [step] at hstep
      split at hstep
      next =>
        cases hstep
        exact (put_of_ne htu ..).trans hidle
      next => cases hstep
    | go u =>
      obtain ⟨phase, hbusy, hstep⟩ := Option.bind_eq_some_iff.mp hstep
      obtain ⟨⟨next, shared⟩, -, hstep⟩ := Option.bind_eq_some_iff.mp hstep
      cases hstep
      have htu : t ≠ u := by
        rintro rfl
        rw [hidle] at hbusy
        cases hbusy
      exact (put_of_ne htu ..).trans hidle
    | besides e =>
      obtain ⟨shared, -, hstep⟩ := Option.bind_eq_some_iff.mp hstep
      cases hstep
      exact hidle

/-- What a thread makes of what is shared until it is done, if nobody comes between. -/
inductive Alone (p : Routine σ ρ φ ω) (t : Nat) : φ → σ → σ → Prop
  | done {phase : φ} {s s' : σ} (goes : p.next t phase s = some (none, s')) : Alone p t phase s s'
  | step {phase phase' : φ} {s s' s'' : σ} (goes : p.next t phase s = some (some phase', s'))
      (rest : Alone p t phase' s' s'') : Alone p t phase s s''

theorem put_put (m : State σ φ) (t : Nat) (phase phase' : Option φ) (s s' : σ) :
    (m.put t phase s).put t phase' s' = m.put t phase' s' := by
  unfold State.put
  congr 1
  funext u
  dsimp only
  split <;> rfl

theorem put_same {t : Nat} {phase : Option φ} (h : m.phases t = phase) (s : σ) :
    m.put t phase s = ⟨s, m.phases⟩ := by
  unfold State.put
  congr 1
  funext u
  split
  next hu => rw [hu, h]
  next => rfl

theorem step_call {t : Nat} (hidle : m.phases t = none) (r : ρ) :
    p.step m (.call t r) = some (m.put t (some (p.start r)) m.shared) := by
  simp [step, hidle]

theorem step_go {t : Nat} {phase : φ} {next : Option φ} {s : σ} (hbusy : m.phases t = some phase)
    (hgoes : p.next t phase m.shared = some (next, s)) :
    p.step m (.go t) = some (m.put t next s) := by
  simp [step, hbusy, hgoes]

theorem Moves.exists_run (h : Moves p m m') : ∃ moves, p.run m moves = some m' := by
  cases h with
  | call t r idle => exact ⟨[.call t r], by rw [run_cons, step_call idle]; rfl⟩
  | go t phase next s busy goes => exact ⟨[.go t], by rw [run_cons, step_go busy goes]; rfl⟩
  | besides e s happens =>
    have hstep : p.step m (.besides e) = some { m with shared := s } := by simp [step, happens]
    exact ⟨[.besides e], by rw [run_cons, hstep]; rfl⟩

theorem Alone.run {t : Nat} {phase : φ} {s s' : σ} (h : p.Alone t phase s s')
    (m : State σ φ) :
    ∃ n, p.run (m.put t (some phase) s) (List.replicate n (.go t)) = some (m.put t none s') := by
  induction h with
  | done goes =>
    refine ⟨1, ?_⟩
    rw [List.replicate_one, run_cons, step_go (put_self _ _ _ _) goes, put_put]
    rfl
  | step goes _ ih =>
    obtain ⟨n, hn⟩ := ih
    refine ⟨n + 1, ?_⟩
    rw [List.replicate_succ, run_cons, step_go (put_self _ _ _ _) goes, put_put]
    exact hn

theorem Alone.call {t : Nat} {r : ρ} {s : σ} (hidle : m.phases t = none)
    (h : p.Alone t (p.start r) m.shared s) :
    ∃ n, p.run m (.call t r :: List.replicate n (.go t)) = some ⟨s, m.phases⟩ := by
  obtain ⟨n, hn⟩ := h.run m
  refine ⟨n, ?_⟩
  rw [run_cons, step_call hidle, Option.bind_some, hn, put_same hidle]

section Count

/-- However many threads there are, few are asked something. -/
def State.Finite (m : State σ φ) : Prop := {t | m.phases t ≠ none}.Finite

/-- How many threads are at such a place. -/
noncomputable def State.count (m : State σ φ) (q : φ → Bool) : Nat :=
  {t | (m.phases t).any q = true}.ncard

variable {q : φ → Bool}

theorem State.Finite.put (h : m.Finite) (t : Nat) (phase : Option φ) (s : σ) :
    (m.put t phase s).Finite := by
  refine (h.insert t).subset fun u hu => ?_
  by_cases hut : u = t
  · exact .inl hut
  · rw [Set.mem_ofPred_eq, put_of_ne hut] at hu
    exact .inr hu

theorem State.Finite.any (h : m.Finite) (q : φ → Bool) :
    {t | (m.phases t).any q = true}.Finite := by
  refine h.subset fun t ht hnone => ?_
  rw [Set.mem_ofPred_eq, hnone] at ht
  cases ht

theorem count_congr {q' : φ → Bool} (h : ∀ t phase, m.phases t = some phase → q phase = q' phase) :
    m.count q = m.count q' := by
  unfold State.count
  congr 1
  ext t
  rw [Set.mem_ofPred_eq, Set.mem_ofPred_eq]
  cases ht : m.phases t with
  | none => rfl
  | some phase => rw [Option.any_some, Option.any_some, h t phase ht]

/-- A step takes a thread from one place to another. -/
theorem count_put (h : m.Finite) (t : Nat) (phase : Option φ) (s : σ) (q : φ → Bool) :
    (m.put t phase s).count q + ((m.phases t).any q).toNat = m.count q + (phase.any q).toNat := by
  -- Both come to the threads besides this one, and this one.
  have hsplit : ∀ m' : State σ φ, m'.Finite →
      m'.count q = {u | u ≠ t ∧ (m'.phases u).any q = true}.ncard +
        ((m'.phases t).any q).toNat := by
    intro m' hfinite
    unfold State.count
    cases ht : (m'.phases t).any q with
    | true =>
      refine Eq.trans ?_ (Set.ncard_insert_of_notMem (fun hmem => hmem.1 rfl)
        ((hfinite.any q).subset fun u hu => hu.2))
      congr 1
      ext u
      by_cases hut : u = t <;> simp [hut, ht]
    | false =>
      congr 1
      ext u
      by_cases hut : u = t <;> simp [hut, ht]
  have hothers : {u | u ≠ t ∧ ((m.put t phase s).phases u).any q = true} =
      {u | u ≠ t ∧ (m.phases u).any q = true} := by
    ext u
    refine and_congr_right fun hut => ?_
    rw [put_of_ne hut]
  rw [hsplit _ (h.put t phase s), hsplit m h, hothers, put_self]
  omega

theorem count_put_of_eq (h : m.Finite) {t : Nat} {phase : Option φ} (s : σ)
    (hq : (m.phases t).any q = phase.any q) : (m.put t phase s).count q = m.count q := by
  have hput := count_put h t phase s q
  rw [hq] at hput
  exact Nat.add_right_cancel hput

theorem count_eq_zero_iff (h : m.Finite) :
    m.count q = 0 ↔ ∀ t phase, m.phases t = some phase → q phase = false := by
  rw [State.count, Set.ncard_eq_zero (h.any q), Set.eq_empty_iff_forall_notMem]
  refine forall_congr' fun t => ?_
  rw [Set.mem_ofPred_eq]
  cases m.phases t with
  | none => simp
  | some phase => simp

theorem one_lt_count (h : m.Finite) {t u : Nat} {x y : φ} (ht : m.phases t = some x)
    (hu : m.phases u = some y) (hne : t ≠ u) (hx : q x = true) (hy : q y = true) :
    1 < m.count q :=
  (Set.one_lt_ncard (h.any q)).mpr ⟨t, by simp [ht, hx], u, by simp [hu, hy], hne⟩

end Count

section Refinement

variable {σ' φ' : Type} {q : Routine σ' ρ φ' ω} {f : σ → σ'} {g : φ → φ'}

/-- What can be seen of a state if `f` tells what is shared and `g` where a thread is. -/
def State.map (f : σ → σ') (g : φ → φ') (m : State σ φ) : State σ' φ' where
  shared := f m.shared
  phases t := (m.phases t).map g

/-- Whatever a thread does looks like a step of the other routine, or like nothing. -/
structure Refines (p : Routine σ ρ φ ω) (q : Routine σ' ρ φ' ω) (f : σ → σ') (g : φ → φ') :
    Prop where
  start : ∀ r, g (p.start r) = q.start r
  next : ∀ {t phase s after s'}, p.next t phase s = some (after, s') →
    q.next t (g phase) (f s) = some (after.map g, f s') ∨ after.map g = some (g phase) ∧ f s' = f s
  besides : ∀ {e s s'}, p.besides e s = some s' → q.besides e (f s) = some (f s')

theorem phases_map (m : State σ φ) (t : Nat) : (m.map f g).phases t = (m.phases t).map g := rfl

theorem map_put (m : State σ φ) (t : Nat) (after : Option φ) (s : σ) :
    (m.put t after s).map f g = (m.map f g).put t (after.map g) (f s) := by
  unfold State.map State.put
  congr 1
  funext u
  exact apply_ite (Option.map g) ..

theorem Refines.moves (h : Refines p q f g) (hmoves : Moves p m m') :
    Moves q (m.map f g) (m'.map f g) ∨ m'.map f g = m.map f g := by
  cases hmoves with
  | call t r idle =>
    left
    rw [map_put, Option.map_some, h.start]
    exact .call t r (by rw [phases_map, idle, Option.map_none])
  | go t phase after s busy goes =>
    have hbusy : (m.map f g).phases t = some (g phase) := by rw [phases_map, busy, Option.map_some]
    rw [map_put]
    rcases h.next goes with hnext | ⟨hafter, hs⟩
    · exact .inl (.go t (g phase) _ _ hbusy hnext)
    · right
      rw [hafter, hs]
      exact put_same hbusy _
  | besides e s happens => exact .inl (.besides e (f s) (h.besides happens))

theorem Refines.run (h : Refines p q f g) {moves : List (Move ρ ω)}
    (hrun : p.run m moves = some m') :
    ∃ moves', q.run (m.map f g) moves' = some (m'.map f g) := by
  refine run_keeps (P := fun m' => ∃ moves', q.run (m.map f g) moves' = some (m'.map f g))
    (fun hbefore hmoves => ?_) hrun ⟨[], rfl⟩
  rcases h.moves hmoves with hseen | hsame
  · exact exists_run_trans hbefore hseen.exists_run
  · rwa [hsame]

end Refinement

/-- A lock, and what may be relied on around it. -/
structure Monitor (σ φ : Type) where
  holder : σ → Option Nat
  /-- Where a thread is that has the lock. -/
  inside : φ → Bool
  Always : σ → Prop
  /-- What holds while nobody has the lock. -/
  Free : σ → Prop
  /-- What a thread relies on, by where it is. -/
  Relies : φ → σ → Prop

namespace Monitor

/-- A step of a thread, by whether it is inside before and after. From outside it spoils nothing
for whoever is inside. -/
inductive Turn (M : Monitor σ φ) (t : Nat) (s s' : σ) : Bool → Bool → Prop
  | outside (holder : M.holder s' = M.holder s) (free : M.Free s → M.Free s')
      (relies : ∀ phase, M.inside phase = true → M.Relies phase s → M.Relies phase s') :
      Turn M t s s' false false
  | enters (free : M.holder s = none) (taken : M.holder s' = some t) : Turn M t s s' false true
  | works (holder : M.holder s' = M.holder s) : Turn M t s s' true true
  | leaves (free : M.holder s' = none) (order : M.Free s') : Turn M t s s' true false

/-- A step keeps what the others outside rely on, wherever it is made. -/
structure Passes (M : Monitor σ φ) (t : Nat) (phase : φ) (s : σ) (next : Option φ) (s' : σ) :
    Prop where
  always : M.Always s'
  relies : ∀ phase', next = some phase' → M.Relies phase' s'
  others : ∀ phase', M.inside phase' = false → M.Relies phase' s → M.Relies phase' s'
  turn : M.Turn t s s' (M.inside phase) (next.any M.inside)

/-- What is to be shown of the steps, each on its own. -/
structure Guards (M : Monitor σ φ) (p : Routine σ ρ φ ω) : Prop where
  outside : ∀ r, M.inside (p.start r) = false
  start : ∀ r s, M.Always s → M.Relies (p.start r) s
  next : ∀ {t phase s next s'}, p.next t phase s = some (next, s') → M.Always s →
    M.Relies phase s → (M.holder s = none → M.Free s) → M.Passes t phase s next s'
  holder : ∀ {e s s'}, p.besides e s = some s' → M.holder s' = M.holder s
  always : ∀ {e s s'}, p.besides e s = some s' → M.Always s → M.Always s'
  free : ∀ {e s s'}, p.besides e s = some s' → M.Free s → M.Free s'
  relies : ∀ {e s s'}, p.besides e s = some s' → ∀ phase, M.Relies phase s → M.Relies phase s'

/-- What holds between any two steps. -/
structure Safe (M : Monitor σ φ) (m : State σ φ) : Prop where
  always : M.Always m.shared
  lock : ∀ t, M.holder m.shared = some t ↔ (m.phases t).any M.inside = true
  free : M.holder m.shared = none → M.Free m.shared
  relies : ∀ t phase, m.phases t = some phase → M.Relies phase m.shared

variable {M : Monitor σ φ}

theorem safe_start {s : σ} (halways : M.Always s) (hholder : M.holder s = none) (hfree : M.Free s) :
    M.Safe ⟨s, fun _ => none⟩ where
  always := halways
  lock t := by simp [hholder]
  free _ := hfree
  relies _ _ h := by cases h

namespace Safe

theorem inside_iff (h : M.Safe m) {t : Nat} {phase : φ} (ht : m.phases t = some phase) :
    M.inside phase = true ↔ M.holder m.shared = some t := by
  rw [h.lock, ht, Option.any_some]

/-- If the thread is inside before or after its step, nobody else is. -/
theorem put_alone (h : M.Safe m) {t : Nat} {next : Option φ} {s : σ} (halways : M.Always s)
    (hown : ∀ phase', next = some phase' → M.Relies phase' s)
    (hothers : ∀ phase', M.inside phase' = false → M.Relies phase' m.shared → M.Relies phase' s)
    (hafter : M.holder s = none ∨ M.holder s = some t)
    (hbefore : M.holder m.shared = none ∨ M.holder m.shared = some t)
    (hlock : M.holder s = some t ↔ next.any M.inside = true)
    (hfree : M.holder s = none → M.Free s) : M.Safe (m.put t next s) := by
  have hne : ∀ {u : Nat} {o : Option Nat}, u ≠ t → o = none ∨ o = some t → o ≠ some u := by
    rintro u o hut (rfl | rfl) he
    · cases he
    · exact hut (Option.some.inj he).symm
  refine ⟨halways, fun u => ?_, hfree, fun u phase' hu => ?_⟩
  · by_cases hut : u = t
    · subst hut
      rw [put_self]
      exact hlock
    · rw [put_of_ne hut, ← h.lock]
      exact iff_of_false (hne hut hafter) (hne hut hbefore)
  · rcases put_eq_some.mp hu with ⟨-, hnext⟩ | ⟨hut, hbusy⟩
    · exact hown phase' hnext
    · refine hothers phase' ?_ (h.relies u phase' hbusy)
      rw [Bool.eq_false_iff, Ne, h.inside_iff hbusy]
      exact hne hut hbefore

theorem go (h : M.Safe m) {t : Nat} {phase : φ} {next : Option φ} {s : σ}
    (ht : m.phases t = some phase) (hpasses : M.Passes t phase m.shared next s) :
    M.Safe (m.put t next s) := by
  obtain ⟨halways, hown, hothers, hturn⟩ := hpasses
  have halone := h.put_alone (t := t) halways hown hothers
  generalize hi : M.inside phase = before at hturn
  generalize hi' : next.any M.inside = after at hturn
  cases hturn with
  | outside holder free relies =>
    refine ⟨halways, fun u => ?_, fun hn => free (h.free (holder ▸ hn)), fun u phase' hu => ?_⟩
    · rw [show M.holder (m.put t next s).shared = M.holder m.shared from holder]
      by_cases hut : u = t
      · subst hut
        rw [put_self, hi', ← h.inside_iff ht, hi]
      · rw [put_of_ne hut, h.lock]
    · rcases put_eq_some.mp hu with ⟨-, hnext⟩ | ⟨-, hbusy⟩
      · exact hown phase' hnext
      · have hrelies := h.relies u phase' hbusy
        cases hin : M.inside phase' with
        | true => exact relies phase' hin hrelies
        | false => exact hothers phase' hin hrelies
  | enters free taken =>
    exact halone (.inr taken) (.inl free) (by simp [taken, hi'])
      fun hn => by simp [taken] at hn
  | works holder =>
    have ht' := (h.inside_iff ht).mp hi
    rw [← holder] at ht'
    exact halone (.inr ht') (.inr (holder ▸ ht')) (by simp [ht', hi'])
      fun hn => by simp [ht'] at hn
  | leaves free order =>
    exact halone (.inl free) (.inr ((h.inside_iff ht).mp hi)) (by simp [free, hi']) fun _ => order

end Safe

theorem Guards.safe (hg : M.Guards p) (h : M.Safe m) (hm : Moves p m m') : M.Safe m' := by
  cases hm with
  | call t r idle =>
    refine ⟨h.always, fun u => ?_, h.free, fun u phase hu => ?_⟩
    · by_cases hut : u = t
      · subst hut
        rw [put_self, Option.any_some, hg.outside]
        exact (h.lock u).trans (by rw [idle, Option.any_none])
      · rw [put_of_ne hut]
        exact h.lock u
    · rcases put_eq_some.mp hu with ⟨-, hstart⟩ | ⟨-, hbusy⟩
      · cases hstart
        exact hg.start r _ h.always
      · exact h.relies u phase hbusy
  | go t phase next shared busy goes =>
    exact h.go busy (hg.next goes h.always (h.relies t phase busy) h.free)
  | besides e shared happens =>
    refine ⟨hg.always happens h.always, fun t => ?_, fun hn => ?_, fun t phase ht => ?_⟩
    · rw [hg.holder happens]
      exact h.lock t
    · exact hg.free happens (h.free (hg.holder happens ▸ hn))
    · exact hg.relies happens phase (h.relies t phase ht)

theorem Guards.safe_run (hg : M.Guards p) {moves : List (Move ρ ω)} (h : M.Safe m)
    (hrun : p.run m moves = some m') : M.Safe m' :=
  run_keeps (fun h hm => hg.safe h hm) hrun h

end Monitor

end ClassRecovery.Routine
