import ClassRecovery.Proofs.Threads.Delivery

/-!
No question is lost and none waits for ever. Every step of a thread brings it closer to its answer;
who holds a lock can always go on, and who waits for one waits for a thread that holds it.
-/

namespace ClassRecovery.Collector.Threads

/-- How many steps of a thread are left, all callbacks counted as one. -/
def Stage.left : Stage → Nat
  | waiting => 9
  | inside => 8
  | asking => 7
  | delivering _ => 6
  | fetching => 5
  | leaving _ => 4
  | returning _ => 3
  | closing _ => 2
  | dropping _ => 1

namespace Phase

def left : Phase → Nat
  | idle => 0
  | begun _ => 12
  | wanting _ _ => 11
  | finding _ _ => 10
  | sharing _ _ _ stage => stage.left

def callbacks : Phase → Nat
  | sharing _ _ _ (.delivering callbacks) => callbacks.length
  | _ => 0

end Phase

namespace State

/-- The questions that threads are at work on. -/
def pending (m : State) : List ClassRef := m.threads.filterMap (·.phase.question)

def left (m : State) : Nat × Nat :=
  ((m.threads.map (·.phase.left)).sum, (m.threads.map (·.phase.callbacks)).sum)

end State

/-- What a step does to the thread that takes it. -/
structure Goes (m m' : State) (t : Nat) (th th' : Thread) : Prop where
  before : m.threads[t]? = some th
  threads : m'.threads = m.threads.set t th'
  closer : th'.phase.left < th.phase.left ∨
    th'.phase.left = th.phase.left ∧ th'.phase.callbacks < th.phase.callbacks
  questions : th'.phase.question.toList ++ m'.answered.map Prod.fst =
    th.phase.question.toList ++ m.answered.map Prod.fst

/-- However the threads go on from here, they come to an end, and not before all is answered. -/
inductive Settles (s : Setting) : State → Prop
  | intro {m : State} (enabled : m.pending ≠ [] → ∃ t m', go s m t = some m')
    (next : ∀ t m', go s m t = some m' → Settles s m') : Settles s m

variable {s : Setting} {start : World} {base : Nat} {p : CapturePoint} {m m' : State} {t : Nat}
  {th th' : Thread} {c : ClassRef} {gateway : Instrument} {lock : Nat}

theorem goSharing_goes {stage : Stage} (ht : m.threads[t]? = some th)
    (hphase : th.phase = .sharing c gateway lock stage)
    (hgo : goSharing s m t th c gateway lock stage = some m') : ∃ th', Goes m m' t th th' := by
  have hstep : ∀ {m₁ : State} {stage' : Stage} {marks : List Nat},
      some (m₁.put t ⟨.sharing c gateway lock stage', marks⟩) = some m' →
      m₁.threads = m.threads → m₁.answered = m.answered →
      (stage'.left < stage.left ∨ stage'.left = stage.left ∧
        (Phase.sharing c gateway lock stage').callbacks <
          (Phase.sharing c gateway lock stage).callbacks) →
      ∃ th', Goes m m' t th th' := by
    intro m₁ stage' marks hm hthreads hanswered hcloser
    cases hm
    refine ⟨⟨.sharing c gateway lock stage', marks⟩, ht, ?_, ?_, ?_⟩
    · rw [State.put, hthreads]
    · rw [hphase]
      exact hcloser
    · rw [hphase, State.put, hanswered]
      rfl
  cases stage with
  | waiting =>
    simp only [goSharing] at hgo
    split at hgo
    next => exact hstep hgo rfl rfl (.inl (Nat.lt_succ_self _))
    next => cases hgo
  | inside => exact hstep hgo rfl rfl (.inl (Nat.lt_succ_self _))
  | asking =>
    have hleave : ∀ a : Answer, (Stage.leaving a).left < Stage.asking.left := by
      intro a
      simp [Stage.left]
    simp only [goSharing] at hgo
    split at hgo
    next =>
      split at hgo
      · exact hstep hgo rfl rfl (.inl (Nat.lt_succ_self _))
      · exact hstep hgo rfl rfl (.inl (hleave _))
      · exact hstep hgo rfl rfl (.inl (hleave _))
    next => exact hstep hgo rfl rfl (.inl (hleave _))
  | delivering callbacks =>
    cases callbacks with
    | nil => exact hstep hgo rfl rfl (.inl (Nat.lt_succ_self _))
    | cons u rest => exact hstep hgo rfl rfl (.inr ⟨rfl, Nat.lt_succ_self _⟩)
  | fetching => exact hstep hgo rfl rfl (.inl (Nat.lt_succ_self _))
  | leaving answer => exact hstep hgo rfl rfl (.inl (Nat.lt_succ_self _))
  | returning answer =>
    simp only [goSharing] at hgo
    split at hgo
    next => exact hstep hgo rfl rfl (.inl (Nat.lt_succ_self _))
    next => cases hgo
  | closing answer => exact hstep hgo rfl rfl (.inl (Nat.lt_succ_self _))
  | dropping answer =>
    cases hgo
    refine ⟨{ th with phase := .idle }, ht, rfl, .inl ?_, ?_⟩
    · rw [hphase]
      exact Nat.lt_succ_self _
    · rw [hphase]
      rfl

theorem go_goes (hgo : go s m t = some m') : ∃ th th', Goes m m' t th th' := by
  unfold go at hgo
  cases ht : m.threads[t]? with
  | none =>
    rw [ht] at hgo
    cases hgo
  | some th =>
    refine ⟨th, ?_⟩
    simp only [ht] at hgo
    cases hphase : th.phase with
    | idle =>
      rw [hphase] at hgo
      cases hgo
    | begun c =>
      simp only [hphase] at hgo
      split at hgo
      · cases hgo
        exact ⟨_, ht, rfl, .inl (by rw [hphase]; exact Nat.lt_succ_self _), by rw [hphase]; rfl⟩
      · cases hgo
        exact ⟨_, ht, rfl, .inl (by rw [hphase]; exact Nat.succ_pos _), by rw [hphase]; rfl⟩
    | wanting c gateway =>
      simp only [hphase] at hgo
      split at hgo
      next =>
        cases hgo
        exact ⟨_, ht, rfl, .inl (by rw [hphase]; exact Nat.lt_succ_self _), by rw [hphase]; rfl⟩
      next => cases hgo
    | finding c gateway =>
      rw [hphase] at hgo
      cases hgo
      exact ⟨_, ht, rfl, .inl (by rw [hphase]; exact Nat.lt_succ_self _), by rw [hphase]; rfl⟩
    | sharing c gateway lock stage =>
      rw [hphase] at hgo
      exact goSharing_goes ht hphase hgo

theorem filterMap_questions (l₁ l₂ : List Thread) (th : Thread) :
    (l₁ ++ th :: l₂).filterMap (·.phase.question) = l₁.filterMap (·.phase.question) ++
      (th.phase.question.toList ++ l₂.filterMap (·.phase.question)) := by
  rw [List.filterMap_append, List.filterMap_cons]
  cases th.phase.question <;> rfl

namespace Goes

theorem left_lt (h : Goes m m' t th th') : Prod.Lex (· < ·) (· < ·) m'.left m.left := by
  obtain ⟨l₁, l₂, hl, hset⟩ := exists_split h.before
  unfold State.left
  rw [h.threads, hset, hl]
  rcases h.closer with hlt | ⟨heq, hlt⟩
  · apply Prod.Lex.left
    simp only [List.map_append, List.map_cons, List.sum_append, List.sum_cons]
    omega
  · simp only [List.map_append, List.map_cons, List.sum_append, List.sum_cons, heq]
    apply Prod.Lex.right
    omega

/-- A question that is answered was asked, and it is answered once. -/
theorem perm (h : Goes m m' t th th') :
    (m'.answered.map Prod.fst ++ m'.pending).Perm (m.answered.map Prod.fst ++ m.pending) := by
  obtain ⟨l₁, l₂, hl, hset⟩ := exists_split h.before
  have hmove : ∀ a l₁ q l₂ : List ClassRef,
      (a ++ (l₁ ++ (q ++ l₂))).Perm ((q ++ a) ++ (l₁ ++ l₂)) := by
    intro a l₁ q l₂
    rw [List.perm_iff_count]
    intro c
    simp only [List.count_append]
    omega
  unfold State.pending
  rw [h.threads, hset, hl, filterMap_questions, filterMap_questions]
  refine (hmove _ _ _ _).trans ?_
  rw [h.questions]
  exact (hmove _ _ _ _).symm

end Goes

theorem call_perm (hcall : call m t c = some m') :
    (m'.answered.map Prod.fst ++ m'.pending).Perm
      (c :: (m.answered.map Prod.fst ++ m.pending)) := by
  unfold call at hcall
  cases ht : m.threads[t]? with
  | none =>
    rw [ht] at hcall
    cases hcall
  | some th =>
    simp only [ht] at hcall
    cases hphase : th.phase with
    | idle =>
      rw [hphase] at hcall
      cases hcall
      obtain ⟨l₁, l₂, hl, hset⟩ := exists_split ht
      simp only [State.pending, State.put, hset]
      rw [hl, filterMap_questions, filterMap_questions, hphase]
      simp only [Phase.question, Option.toList, List.nil_append, List.singleton_append,
        ← List.append_assoc]
      exact List.perm_middle
    | _ =>
      rw [hphase] at hcall
      cases hcall

theorem goSharing_isSome {stage : Stage}
    (hwaiting : stage = .waiting → m.holders.get? lock = none)
    (hreturning : ∀ a, stage = .returning a → m.tableHolder = none) :
    ∃ m', goSharing s m t th c gateway lock stage = some m' := by
  cases stage with
  | waiting => exact ⟨_, by simp only [goSharing, if_pos (hwaiting rfl)]; rfl⟩
  | asking =>
    simp only [goSharing]
    split
    · split <;> exact ⟨_, rfl⟩
    · exact ⟨_, rfl⟩
  | delivering callbacks => cases callbacks <;> exact ⟨_, rfl⟩
  | returning a => exact ⟨_, by simp only [goSharing, if_pos (hreturning a rfl)]; rfl⟩
  | _ => exact ⟨_, rfl⟩

theorem go_sharing {stage : Stage} (ht : m.threads[t]? = some th)
    (hphase : th.phase = .sharing c gateway lock stage) :
    go s m t = goSharing s m t th c gateway lock stage := by
  simp only [go, ht, hphase]

/-- Who holds the lock of the table never waits. -/
theorem go_atTable (ht : m.threads[t]? = some th) (hat : th.phase.atTable = true) :
    ∃ m', go s m t = some m' := by
  cases hphase : th.phase with
  | finding c gateway => exact ⟨_, by simp only [go, ht, hphase]; rfl⟩
  | sharing c gateway lock stage =>
    rw [go_sharing ht hphase]
    cases stage with
    | closing a => exact ⟨_, rfl⟩
    | _ =>
      rw [hphase] at hat
      cases hat
  | _ =>
    rw [hphase] at hat
    cases hat

theorem go_held (ht : m.threads[t]? = some th) (hheld : th.phase.held = some lock) :
    ∃ m', go s m t = some m' := by
  cases hphase : th.phase with
  | sharing c gateway k stage =>
    rw [go_sharing ht hphase]
    apply goSharing_isSome
    · rintro rfl
      rw [hphase] at hheld
      cases hheld
    · rintro a rfl
      rw [hphase] at hheld
      cases hheld
  | _ =>
    rw [hphase] at hheld
    cases hheld

namespace Safe

theorem exists_go (h : Safe s start base p m) (hpending : m.pending ≠ []) :
    ∃ t m', go s m t = some m' := by
  obtain ⟨c, hc⟩ := List.exists_mem_of_ne_nil _ hpending
  obtain ⟨th, hth, hq⟩ := List.mem_filterMap.mp hc
  obtain ⟨t, ht⟩ := List.mem_iff_getElem?.mp hth
  cases htable : m.tableHolder with
  | some u =>
    obtain ⟨x, hx, hat⟩ := (h.tableHolder u).mp htable
    exact ⟨u, go_atTable hx hat⟩
  | none =>
    cases hphase : th.phase with
    | idle =>
      rw [hphase] at hq
      cases hq
    | begun d =>
      refine ⟨t, ?_⟩
      simp only [go, ht, hphase]
      split <;> exact ⟨_, rfl⟩
    | wanting d gateway => exact ⟨t, _, by simp only [go, ht, hphase, if_pos htable]; rfl⟩
    | finding d gateway => exact ⟨t, _, by simp only [go, ht, hphase]; rfl⟩
    | sharing d gateway lock stage =>
      cases hholder : m.holders.get? lock with
      | some u =>
        obtain ⟨x, hx, hheld⟩ := (h.holders lock u).mp hholder
        exact ⟨u, go_held hx hheld⟩
      | none =>
        refine ⟨t, ?_⟩
        rw [go_sharing ht hphase]
        exact goSharing_isSome (fun _ => hholder) fun _ _ => htable

end Safe

end ClassRecovery.Collector.Threads
