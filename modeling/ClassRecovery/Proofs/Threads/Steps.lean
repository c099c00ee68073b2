import ClassRecovery.Proofs.Threads.Invariant

/-!
Every step of a thread keeps threads safe. What another thread relies on is not touched: the lock of
its name stays in the table, and what is in the cache under its name changes only at its own hands.
-/

namespace ClassRecovery.Collector.Threads

variable {s : Setting} {start : World} {base : Nat} {p p' : CapturePoint} {m m' : State}
  {w w' : World} {t : Nat} {th th' : Thread} {c : ClassRef} {gateway : Instrument} {lock : Nat}

theorem Thread.Relies.mono (h : th.Relies s w p)
    (hgateway : ∀ on, p.gateway = some on → p'.gateway = some on)
    (hinstalled : p.installed = true → p'.installed = true)
    (hactions : ∀ u a, w.actionOf u = some a → w'.actionOf u = some a)
    (hlisted : ∀ c on lock stage, th.phase = .sharing c on lock stage → stage.listed = true →
      p.locks.table.get? c.name = some lock → p'.locks.table.get? c.name = some lock)
    (hcached : ∀ name, th.phase.captured = some name →
      w'.cached p'.cache name = w.cached p.cache name) :
    th.Relies s w' p' := by
  obtain ⟨phase, marks⟩ := th
  cases phase with
  | idle => exact h
  | begun c => exact h
  | wanting c on => exact ⟨h.1, hgateway on h.2⟩
  | finding c on => exact ⟨h.1, hgateway on h.2⟩
  | sharing c on lock stage =>
    obtain ⟨g, hon, hpon, hlist, hstage⟩ := h
    refine ⟨g, hon, hgateway on hpon, fun hl => hlisted c on lock stage rfl hl (hlist hl), ?_⟩
    cases stage with
    | asking => exact ⟨hstage.1, hinstalled hstage.2⟩
    | delivering rest =>
      obtain ⟨hmarks, hi, hall, hdue⟩ := hstage
      refine ⟨hmarks, hinstalled hi, ?_, ?_⟩
      · intro u hu
        obtain ⟨k, hk⟩ := hall u hu
        exact ⟨k, hactions u _ hk⟩
      · rw [hcached c.name rfl]
        rcases hdue with ⟨u, hu, hact⟩ | hdone
        · exact .inl ⟨u, hu, hactions u _ hact⟩
        · exact .inr hdone
    | fetching => exact ⟨hstage.1, (hcached c.name rfl).trans hstage.2⟩
    | _ => exact hstage

theorem Phase.exists_of_captured {phase : Phase} {name : String}
    (h : phase.captured = some name) :
    ∃ c on lock stage, phase = .sharing c on lock stage ∧ c.name = name ∧
      stage.inLock = true ∧ stage.listed = true := by
  cases phase with
  | sharing c on lock stage =>
    cases stage with
    | delivering rest =>
      exact ⟨c, on, lock, .delivering rest, rfl, Option.some.inj h, rfl, rfl⟩
    | fetching => exact ⟨c, on, lock, .fetching, rfl, Option.some.inj h, rfl, rfl⟩
    | _ => cases h
  | _ => cases h

namespace Safe

/-- Threads that hold locks of one name are one thread. -/
theorem eq_of_name {u v : Nat} {x y : Thread} {c d : ClassRef} {on on' : Instrument}
    {lock lock' : Nat} {stage stage' : Stage} (h : Safe s start base p m)
    (hu : m.threads[u]? = some x) (hv : m.threads[v]? = some y)
    (hx : x.phase = .sharing c on lock stage) (hy : y.phase = .sharing d on' lock' stage')
    (hxl : stage.inLock = true) (hyl : stage'.inLock = true) (hname : c.name = d.name) :
    u = v := by
  have listed_of_inLock : ∀ {stage : Stage}, stage.inLock = true → stage.listed = true := by
    intro stage hs
    cases stage <;> first | rfl | cases hs
  have hlist : ∀ {u x c on lock} {stage : Stage}, m.threads[u]? = some x →
      x.phase = .sharing c on lock stage → stage.inLock = true →
      p.locks.table.get? c.name = some lock ∧ m.holders.get? lock = some u := by
    intro u x c on lock stage hu hx hl
    have hr := h.relies x (List.mem_of_getElem? hu)
    unfold Thread.Relies at hr
    rw [hx] at hr
    obtain ⟨-, -, -, hlist, -⟩ := hr
    exact ⟨hlist (listed_of_inLock hl),
      (h.holders lock u).mpr ⟨x, hu, by simp [hx, Phase.held, hl]⟩⟩
  obtain ⟨hc, hcu⟩ := hlist hu hx hxl
  obtain ⟨hd, hdv⟩ := hlist hv hy hyl
  rw [hname, hd] at hc
  cases hc
  rw [hdv] at hcu
  exact (Option.some.inj hcu).symm

theorem captured_ne {u : Nat} {x : Thread} {on : Instrument} {lock : Nat} {stage : Stage}
    {name : String} (h : Safe s start base p m) (ht : m.threads[t]? = some th)
    (hth : th.phase = .sharing c on lock stage) (hl : stage.inLock = true) (hu : u ≠ t)
    (hx : m.threads[u]? = some x) (hc : x.phase.captured = some name) : name ≠ c.name := by
  intro hname
  obtain ⟨d, on', lock', stage', hphase, hd, hl', -⟩ := Phase.exists_of_captured hc
  exact hu (h.eq_of_name hx ht hphase hth hl' hl (hd.trans hname))

/-- A step that leaves the world alone. -/
theorem step_alone (h : Safe s start base p m) (ht : m.threads[t]? = some th)
    (hworld : m'.world = m.world) (hanswered : m'.answered = m.answered)
    (hthreads : m'.threads = m.threads.set t th')
    (hbefore : th'.phase.beforeGateway = th.phase.beforeGateway)
    (hown : th'.Relies s m.world p)
    (htable : ∀ u, m'.tableHolder = some u ↔
      if u = t then th'.phase.atTable = true else m.tableHolder = some u)
    (hholders : ∀ lock u, m'.holders.get? lock = some u ↔
      if u = t then th'.phase.held = some lock else m.holders.get? lock = some u)
    (hshared : th'.phase.shared = th.phase.shared)
    (hcaptured : th'.phase.captured = th.phase.captured)
    (hasked : th'.phase.asked = th.phase.asked) :
    Safe s start base p m' := by
  have hpoint : m'.world.points[s.point]? = some p := by rw [hworld, h.point]
  refine h.step ht hthreads ?_ hpoint ?_ ?_ ?_ htable hholders ?_ ?_ ?_ ?_
  · rw [hworld]
    exact h.connected
  · intro hn
    obtain ⟨hw, hall⟩ := h.untouched hn
    refine ⟨hworld.trans hw, ?_⟩
    rw [hthreads]
    refine forall_mem_put ht ?_ fun u x _ hx => hall x (List.mem_of_getElem? hx)
    rw [hbefore]
    exact hall th (List.mem_of_getElem? ht)
  · rw [hworld]
    exact hown
  · rw [hworld]
    exact fun _ _ _ _ hx => hx
  · rw [users_same ht hshared]
    exact h.locks
  · intro name hc
    rw [hworld] at hc
    by_cases hn : th.phase.captured = some name
    · exact .inl (hcaptured.trans hn)
    · exact .inr ⟨hc, hn⟩
  · rw [hworld, hanswered, asked_same ht hasked]
    exact h.count
  · rw [hanswered]
    exact h.answered

/-- A step that neither shows classes nor takes captured bytes. -/
theorem step_arranged (h : Safe s start base p m) (ht : m.threads[t]? = some th)
    (ha : Arranged s.index m.world m'.world) (hpoint : m'.world.points[s.point]? = some p')
    (hthreads : m'.threads = m.threads.set t th') (hcache : p'.cache = p.cache)
    (hconnected : p'.gateway ≠ none)
    (hgateway : ∀ on, p.gateway = some on → p'.gateway = some on)
    (hinstalled : p.installed = true → p'.installed = true)
    (hlisted : ∀ u x c on lock stage, u ≠ t → m.threads[u]? = some x →
      x.phase = .sharing c on lock stage → stage.listed = true →
      p.locks.table.get? c.name = some lock → p'.locks.table.get? c.name = some lock)
    (hown : th'.Relies s m'.world p')
    (htable : ∀ u, m'.tableHolder = some u ↔
      if u = t then th'.phase.atTable = true else m.tableHolder = some u)
    (hholders : ∀ lock u, m'.holders.get? lock = some u ↔
      if u = t then th'.phase.held = some lock else m.holders.get? lock = some u)
    (hlocks : p'.locks.Sound fun lock =>
      (m.threads.set t th').countP fun th => th.phase.shared = some lock)
    (hcaptured : th.phase.captured = none)
    (hcount : m'.answered.length + (if th'.phase.asked then 1 else 0) =
      m.answered.length + (if th.phase.asked then 1 else 0))
    (hanswered : ∀ x ∈ m'.answered, x.2 = .ok (some (s.bytesOf x.1))) :
    Safe s start base p' m' := by
  have hcached : ∀ name, m'.world.cached p'.cache name = m.world.cached p.cache name := by
    intro name
    unfold World.cached
    rw [ha.caches, hcache]
  refine h.step ht hthreads ha.connected hpoint (fun hn => absurd hn hconnected) hown ?_ htable
    hholders hlocks ?_ ?_ hanswered
  · intro u x hu hx hr
    exact hr.mono hgateway hinstalled ha.actions
      (fun c on lock stage => hlisted u x c on lock stage hu hx) fun name _ => hcached name
  · intro name hc
    rw [hcached] at hc
    exact .inr ⟨hc, by rw [hcaptured]; exact fun hn => nomatch hn⟩
  · have hasked := countP_put ht (fun th => th.phase.asked) th'
    rw [ha.count, h.count]
    congr 1
    omega

theorem tableHolder_taken (hm : m.tableHolder = none) (hat : th'.phase.atTable = true) (u : Nat) :
    some t = some u ↔ if u = t then th'.phase.atTable = true else m.tableHolder = some u := by
  by_cases hu : u = t
  · simp [hu, hat]
  · simp [hu, hm, Ne.symm hu]

theorem tableHolder_left (h : Safe s start base p m) (ht : m.threads[t]? = some th)
    (hat : th.phase.atTable = true) (hno : th'.phase.atTable = false) (u : Nat) :
    none = some u ↔ if u = t then th'.phase.atTable = true else m.tableHolder = some u := by
  have hm : m.tableHolder = some t := (h.tableHolder t).mpr ⟨th, ht, hat⟩
  by_cases hu : u = t
  · simp [hu, hno]
  · simp [hu, hm, Ne.symm hu]

theorem holders_taken (h : Safe s start base p m) (ht : m.threads[t]? = some th)
    (hm : m.holders.get? lock = none) (hno : th.phase.held = none)
    (hheld : th'.phase.held = some lock) (k u : Nat) :
    (m.holders.put lock t).get? k = some u ↔
      if u = t then th'.phase.held = some k else m.holders.get? k = some u := by
  have hfree : m.holders.get? k ≠ some t := by
    intro hk
    obtain ⟨x, hx, hxk⟩ := (h.holders k t).mp hk
    rw [ht] at hx
    cases hx
    rw [hno] at hxk
    cases hxk
  rw [Table.get?_put, hheld]
  by_cases hk : k = lock
  · subst hk
    by_cases hu : u = t
    · simp [hu]
    · simp [hu, hm, Ne.symm hu]
  · by_cases hu : u = t
    · subst hu
      simp [hk, Ne.symm hk, hfree]
    · simp [hk, hu]

theorem holders_left (h : Safe s start base p m) (ht : m.threads[t]? = some th)
    (hheld : th.phase.held = some lock) (hno : th'.phase.held = none) (k u : Nat) :
    (m.holders.erase lock).get? k = some u ↔
      if u = t then th'.phase.held = some k else m.holders.get? k = some u := by
  have hm : m.holders.get? lock = some t := (h.holders lock t).mpr ⟨th, ht, hheld⟩
  have hother : k ≠ lock → m.holders.get? k ≠ some t := by
    intro hk hkt
    obtain ⟨x, hx, hxk⟩ := (h.holders k t).mp hkt
    rw [ht] at hx
    cases hx
    rw [hheld] at hxk
    exact hk (Option.some.inj hxk).symm
  rw [Table.get?_erase, hno]
  by_cases hk : k = lock
  · subst hk
    by_cases hu : u = t
    · simp [hu]
    · simp [hu, hm, Ne.symm hu]
  · by_cases hu : u = t
    · subst hu
      simp [hk, hother hk]
    · simp [hk, hu]

theorem relies_of_phase {phase : Phase} (h : Safe s start base p m) (ht : m.threads[t]? = some th)
    (hphase : th.phase = phase) : Thread.Relies s m.world p ⟨phase, th.marks⟩ := by
  subst hphase
  exact h.relies th (List.mem_of_getElem? ht)

theorem call (h : Safe s start base p m) (ht : m.threads[t]? = some th)
    (hphase : th.phase = .idle) (c : ClassRef) :
    Safe s start base p (m.put t { th with phase := .begun c }) := by
  have hr := h.relies_of_phase ht hphase
  exact h.step_alone ht rfl rfl rfl (by rw [hphase]; rfl) hr
    (h.tableHolder_same ht (by rw [hphase]; rfl)) (h.holders_same ht (by rw [hphase]; rfl))
    (by rw [hphase]; rfl) (by rw [hphase]; rfl) (by rw [hphase]; rfl)

theorem wanting (h : Safe s start base p m) (ht : m.threads[t]? = some th)
    (hphase : th.phase = .wanting c gateway) (hm : m.tableHolder = none) :
    Safe s start base p
      ({ m with tableHolder := some t }.put t { th with phase := .finding c gateway }) := by
  have hr := h.relies_of_phase ht hphase
  exact h.step_alone ht rfl rfl rfl (by rw [hphase]; rfl) hr (tableHolder_taken hm rfl)
    (h.holders_same ht (by rw [hphase]; rfl)) (by rw [hphase]; rfl) (by rw [hphase]; rfl)
    (by rw [hphase]; rfl)

theorem waiting (h : Safe s start base p m) (ht : m.threads[t]? = some th)
    (hphase : th.phase = .sharing c gateway lock .waiting) (hm : m.holders.get? lock = none) :
    Safe s start base p ({ m with holders := m.holders.put lock t }.put t
      { th with phase := .sharing c gateway lock .inside }) := by
  obtain ⟨g, hg, hpg, hlisted, hmarks⟩ := h.relies_of_phase ht hphase
  exact h.step_alone ht rfl rfl rfl (by rw [hphase]; rfl) ⟨g, hg, hpg, hlisted, hmarks⟩
    (h.tableHolder_same ht (by rw [hphase]; rfl))
    (h.holders_taken ht hm (by rw [hphase]; rfl) rfl)
    (by rw [hphase]; rfl) (by rw [hphase]; rfl) (by rw [hphase]; rfl)

theorem delivered (h : Safe s start base p m) (ht : m.threads[t]? = some th)
    (hphase : th.phase = .sharing c gateway lock (.delivering [])) :
    Safe s start base p (m.put t
      { phase := .sharing c gateway lock .fetching, marks := gateway.unmark th.marks }) := by
  obtain ⟨g, hg, hpg, hlisted, hmarks, -, -, hdue⟩ := h.relies_of_phase ht hphase
  have hcached : m.world.cached p.cache c.name = some (s.bytesOf c) := by
    rcases hdue with ⟨u, hu, -⟩ | hdone
    · cases hu
    · exact hdone
  have hunmark : gateway.unmark th.marks = [] := by
    change th.marks = [g] at hmarks
    rw [hg, hmarks]
    simp [Instrument.unmark]
  exact h.step_alone ht rfl rfl rfl (by rw [hphase]; rfl) ⟨g, hg, hpg, hlisted, hunmark, hcached⟩
    (h.tableHolder_same ht (by rw [hphase]; rfl)) (h.holders_same ht (by rw [hphase]; rfl))
    (by rw [hphase]; rfl) (by rw [hphase]; rfl) (by rw [hphase]; rfl)

theorem leaving {answer : Answer} (h : Safe s start base p m) (ht : m.threads[t]? = some th)
    (hphase : th.phase = .sharing c gateway lock (.leaving answer)) :
    Safe s start base p ({ m with holders := m.holders.erase lock }.put t
      { th with phase := .sharing c gateway lock (.returning answer) }) := by
  obtain ⟨g, hg, hpg, hlisted, hr⟩ := h.relies_of_phase ht hphase
  exact h.step_alone ht rfl rfl rfl (by rw [hphase]; rfl) ⟨g, hg, hpg, hlisted, hr⟩
    (h.tableHolder_same ht (by rw [hphase]; rfl)) (h.holders_left ht (by rw [hphase]; rfl) rfl)
    (by rw [hphase]; rfl) (by rw [hphase]; rfl) (by rw [hphase]; rfl)

theorem returning {answer : Answer} (h : Safe s start base p m) (ht : m.threads[t]? = some th)
    (hphase : th.phase = .sharing c gateway lock (.returning answer))
    (hm : m.tableHolder = none) :
    Safe s start base p ({ m with tableHolder := some t }.put t
      { th with phase := .sharing c gateway lock (.closing answer) }) := by
  obtain ⟨g, hg, hpg, hlisted, hr⟩ := h.relies_of_phase ht hphase
  exact h.step_alone ht rfl rfl rfl (by rw [hphase]; rfl) ⟨g, hg, hpg, hlisted, hr⟩
    (tableHolder_taken hm rfl) (h.holders_same ht (by rw [hphase]; rfl)) (by rw [hphase]; rfl)
    (by rw [hphase]; rfl) (by rw [hphase]; rfl)

/-- The first thread finds the world as it was at the start; all others find the gateway. -/
theorem begun (h : Safe s start base p m) (ht : m.threads[t]? = some th)
    (hphase : th.phase = .begun c)
    (ha : Answerable s.index s.point s.handle s.source start) :
    ∃ on w p', pointGateway s.point s.handle s.source m.world = (.ok on, w) ∧
      Safe s start base p'
        ({ m with world := w }.put t { th with phase := .wanting c on }) := by
  have hanswerable : Answerable s.index s.point s.handle s.source m.world := by
    cases hg : p.gateway with
    | none =>
      rw [(h.untouched hg).1]
      exact ha
    | some on =>
      left
      rw [h.point, Option.bind_some, hg]
      rfl
  obtain ⟨g, w, hw, harr, hp, hsame⟩ := pointGateway_arranged h.connected h.point hanswerable
  have hmarks : th.marks = [] := h.relies_of_phase ht hphase
  refine ⟨_, w, _, hw, h.step_arranged ht harr hp rfl rfl (fun hn => nomatch hn) ?_ id
    (fun _ _ _ _ _ _ _ _ _ _ hl => hl) ⟨hmarks, rfl⟩
    (h.tableHolder_same ht (by rw [hphase]; rfl)) (h.holders_same ht (by rw [hphase]; rfl)) ?_
    (by rw [hphase]; rfl) (by rw [hphase]; rfl) h.answered⟩
  · intro on hon
    rw [hsame on hon]
  · rw [users_same ht (by rw [hphase]; rfl)]
    exact h.locks

theorem finding (h : Safe s start base p m) (ht : m.threads[t]? = some th)
    (hphase : th.phase = .finding c gateway) :
    ∃ lock w p', acquireLock s.point c.name m.world = (lock, w) ∧
      Safe s start base p' ({ m with world := w, tableHolder := none }.put t
        { th with phase := .sharing c gateway lock .waiting }) := by
  obtain ⟨w, hw, harr, hp⟩ := acquireLock_arranged h.connected h.point c.name
  obtain ⟨hmarks, hg⟩ := h.relies_of_phase ht hphase
  obtain ⟨g, -, hon, -⟩ := (h.connected.wired _ _ h.point).exists_gateway hg
  refine ⟨_, w, _, hw, h.step_arranged ht harr hp rfl rfl (fun hn => ?_) (fun _ hon => hon) id ?_
    ⟨g, hon, hg, fun _ => Capture.Locks.get?_acquire _ _, hmarks⟩
    (h.tableHolder_left ht (by rw [hphase]; rfl) rfl) (h.holders_same ht (by rw [hphase]; rfl))
    ?_ (by rw [hphase]; rfl) (by rw [hphase]; rfl) h.answered⟩
  · rw [hg] at hn
    cases hn
  · intro u x d on k stage _ _ _ _ hl
    exact Capture.Locks.get?_acquire_of_listed _ hl
  · rw [users_joined ht (by rw [hphase]; rfl) rfl]
    exact h.locks.acquire c.name

theorem inside (h : Safe s start base p m) (ht : m.threads[t]? = some th)
    (hphase : th.phase = .sharing c gateway lock .inside) :
    ∃ p', Safe s start base p' ({ m with
      world := (ensureCapture s.point gateway m.world).2 }.put t
        { th with phase := .sharing c gateway lock .asking }) := by
  obtain ⟨g, rfl, hpg, hlisted, hmarks⟩ := h.relies_of_phase ht hphase
  obtain ⟨w, hw, harr, hp⟩ := ensureCapture_arranged h.connected h.point hpg
  rw [hw]
  refine ⟨_, h.step_arranged ht harr hp rfl rfl (fun hn => ?_) (fun _ hon => hon) (fun _ => rfl)
    (fun _ _ _ _ _ _ _ _ _ _ hl => hl) ⟨g, rfl, hpg, hlisted, hmarks, rfl⟩
    (h.tableHolder_same ht (by rw [hphase]; rfl)) (h.holders_same ht (by rw [hphase]; rfl)) ?_
    (by rw [hphase]; rfl) (by rw [hphase]; rfl) h.answered⟩
  · rw [hpg] at hn
    cases hn
  · rw [users_same ht (by rw [hphase]; rfl)]
    exact h.locks

/-- The lock goes only if no other thread has a share of it. -/
theorem closing {answer : Answer} (h : Safe s start base p m) (ht : m.threads[t]? = some th)
    (hphase : th.phase = .sharing c gateway lock (.closing answer)) :
    ∃ p', Safe s start base p' ({ m with
      world := (unlistLock s.point c.name lock m.world).2, tableHolder := none }.put t
        { th with phase := .sharing c gateway lock (.dropping answer) }) := by
  obtain ⟨g, rfl, hpg, hlisted, hr⟩ := h.relies_of_phase ht hphase
  have hl : p.locks.table.get? c.name = some lock := hlisted rfl
  obtain ⟨w, hw, harr, hp⟩ := unlistLock_arranged h.connected h.point c.name lock
  rw [hw]
  refine ⟨_, h.step_arranged ht harr hp rfl rfl (fun hn => ?_) (fun _ hon => hon) id ?_
    ⟨g, rfl, hpg, (fun hd => nomatch hd), hr⟩ (h.tableHolder_left ht (by rw [hphase]; rfl) rfl)
    (h.holders_same ht (by rw [hphase]; rfl)) ?_ (by rw [hphase]; rfl) (by rw [hphase]; rfl)
    h.answered⟩
  · rw [hpg] at hn
    cases hn
  · intro u x d on k stage hu hx hxp _ hd
    refine (Capture.Locks.get?_release h.locks hl ?_).trans hd
    intro hname halone
    have hk : lock = k := by
      rw [hname, hl] at hd
      exact Option.some.inj hd
    have htwo := two_le_countP ht hx hu (fun th => th.phase.shared = some lock)
      (by simp [hphase, Phase.shared]) (by simp [hxp, Phase.shared, hk])
    omega
  · rw [users_same ht (by rw [hphase]; rfl)]
    exact h.locks.release hl

theorem dropping {answer : Answer} (h : Safe s start base p m) (ht : m.threads[t]? = some th)
    (hphase : th.phase = .sharing c gateway lock (.dropping answer)) :
    ∃ p', Safe s start base p' ({ m with
      world := (dropLock s.point lock m.world).2
      answered := (c, answer) :: m.answered }.put t { th with phase := .idle }) := by
  obtain ⟨g, rfl, hpg, -, hmarks, hanswer⟩ := h.relies_of_phase ht hphase
  obtain ⟨w, hw, harr, hp⟩ := dropLock_arranged h.connected h.point lock
  rw [hw]
  refine ⟨_, h.step_arranged ht harr hp rfl rfl (fun hn => ?_) (fun _ hon => hon) id
    (fun _ _ _ _ _ _ _ _ _ _ hl => hl) hmarks (h.tableHolder_same ht (by rw [hphase]; rfl))
    (h.holders_same ht (by rw [hphase]; rfl)) ?_ (by rw [hphase]; rfl) ?_ ?_⟩
  · rw [hpg] at hn
    cases hn
  · rw [users_parted ht (by rw [hphase]; rfl) rfl]
    apply h.locks.drop
    have hpos : 0 < m.threads.countP fun th => th.phase.shared = some lock :=
      List.countP_pos_iff.mpr ⟨th, List.mem_of_getElem? ht, by simp [hphase, Phase.shared]⟩
    omega
  · rw [hphase]
    rfl
  · intro x hx
    rcases List.mem_cons.mp hx with rfl | hx
    · exact hanswer
    · exact h.answered x hx

end Safe

end ClassRecovery.Collector.Threads
