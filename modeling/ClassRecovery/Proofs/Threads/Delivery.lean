import ClassRecovery.Proofs.Threads.Steps

/-!
The steps in which a class is shown to callbacks and its bytes go through the cache. All callbacks
but that of the collector's own gateway keep still on the thread, and the thread that takes the
bytes is the one that put them there.
-/

namespace ClassRecovery.Collector.Threads

variable {s : Setting} {start : World} {base : Nat} {p : CapturePoint} {m : State} {t : Nat}
  {th : Thread} {c : ClassRef} {gateway : Instrument} {lock : Nat}

/-- One callback on a thread that transforms the class for the gateway `g`. -/
theorem onThread_callback {w : World} {g k u cache : Nat} (hquiet : w.inFlight = [])
    (hmarks : th.marks = [g]) (hcapturing : Capturing g cache (w.entered g))
    (hu : w.actionOf u = some (.callback k)) :
    onThread th (Transform.run u (eventOf s c)) w =
      if k = g then w.keeping cache c.name (s.bytesOf c) else w := by
  have hback : ∀ v : World, v.inFlight = [] → { v with inFlight := [] } = v := by
    intro v hv
    rw [← hv]
  have hentered : { w with inFlight := th.marks } = w.entered g := by
    rw [World.entered, hquiet, hmarks]
  have hrun := Transform.run_callback (w := w.entered g) hu hcapturing
    (rfl : (eventOf s c).redefined = some c)
  unfold onThread
  rw [hentered, hrun]
  split
  · exact hback (w.keeping cache c.name (s.bytesOf c)) hquiet
  · exact hback w hquiet

namespace Safe

theorem asking (h : Safe s start base p m) (ht : m.threads[t]? = some th)
    (hphase : th.phase = .sharing c gateway lock .asking) :
    gateway.supportsRetransform m.world = true ∧
      gateway.isModifiable c m.world = (.ok true, m.world) ∧
      Safe s start base p ({ m with world := (enter s m.world).1 }.put t
        { phase := .sharing c gateway lock (.delivering (enter s m.world).2)
          marks := gateway.marks ++ th.marks }) := by
  obtain ⟨g, rfl, hpg, hlisted, hmarks, hi⟩ := h.relies_of_phase ht hphase
  obtain ⟨i, hinst, -⟩ := h.connected.able
  have hob : Observed s.index p.cache m.world (m.world.asked s.index) :=
    Instrument.observed_asked hinst
  have hcalls := (capturing_of_installed h.connected h.point hpg hi).2
  refine ⟨supportsRetransform_gateway h.connected g, isModifiable_gateway h.connected g c, ?_⟩
  refine h.step ht rfl (h.connected.observed hob) h.point (fun hn => ?_) ?_ ?_
    (h.tableHolder_same ht (by rw [hphase]; rfl)) (h.holders_same ht (by rw [hphase]; rfl)) ?_ ?_ ?_
    h.answered
  · rw [hpg] at hn
    cases hn
  · refine ⟨g, rfl, hpg, hlisted, ?_, hi, h.connected.shared.capable, .inl hcalls.capable⟩
    change th.marks = [] at hmarks
    simp [Instrument.marks, hmarks]
  · exact fun _ _ _ _ hr => hr.mono (fun _ hon => hon) id (fun _ _ ha => ha)
      (fun _ _ _ _ _ _ hl => hl) fun _ _ => rfl
  · rw [users_same ht (by rw [hphase]; rfl)]
    exact h.locks
  · exact fun name hc => .inr ⟨hc, by rw [hphase]; exact fun hn => nomatch hn⟩
  · have hcount := h.count
    rw [hinst, Option.map_some, Option.some.injEq] at hcount
    change (m.world.asked s.index).instruments[s.index]?.map (·.count) = _
    rw [asked_once_more ht (by rw [hphase]; rfl) rfl, World.asked, Array.getElem?_modify,
      if_pos rfl, hinst, Option.map_some, Option.map_some, hcount]
    rfl

/-- A step in the lock of a name that touches nothing but what the cache has under it. -/
theorem step_cache {on : Instrument} {stage stage' : Stage} {marks : List Nat}
    {caches : Array (Table String Bytes)} (h : Safe s start base p m)
    (ht : m.threads[t]? = some th) (hphase : th.phase = .sharing c on lock stage)
    (hin : stage.inLock = true) (hin' : stage'.inLock = true)
    (hasked : stage'.asked = stage.asked) (hsize : caches.size = m.world.caches.size)
    (hown : Thread.Relies s { m.world with caches } p ⟨.sharing c on lock stage', marks⟩)
    (hothers : ∀ name, name ≠ c.name →
      World.cached { m.world with caches } p.cache name = m.world.cached p.cache name)
    (hkept : stage'.capturing = false →
      World.cached { m.world with caches } p.cache c.name = none) :
    Safe s start base p ({ m with world := { m.world with caches } }.put t
      { th with phase := .sharing c on lock stage', marks }) := by
  have hno : ∀ {stage : Stage}, stage.inLock = true →
      (Phase.sharing c on lock stage).atTable = false := by
    intro stage hl
    cases stage <;> first | rfl | cases hl
  refine h.step ht rfl ?_ h.point (fun hn => ?_) hown ?_ (h.tableHolder_same ht ?_)
    (h.holders_same ht ?_) ?_ ?_ ?_ h.answered
  · exact h.connected.congr rfl rfl rfl hsize rfl rfl
  · obtain ⟨-, -, hpg, -⟩ := h.relies_of_phase ht hphase
    rw [hn] at hpg
    cases hpg
  · intro u x hu hx hr
    exact hr.mono (fun _ hon => hon) id (fun _ _ ha => ha) (fun _ _ _ _ _ _ hl => hl)
      fun name hc => hothers name (h.captured_ne ht hphase hin hu hx hc)
  · rw [hphase, hno hin, hno hin']
  · rw [hphase, Phase.held, Phase.held, if_pos hin, if_pos hin']
  · rw [users_same ht (by rw [hphase]; rfl)]
    exact h.locks
  · intro name hc
    by_cases hname : name = c.name
    · left
      subst hname
      cases hcap : stage'.capturing with
      | true => simp [Phase.captured, hcap]
      | false =>
        change (World.cached { m.world with caches } p.cache c.name).isSome = true at hc
        rw [hkept hcap] at hc
        cases hc
    · right
      refine ⟨(congrArg Option.isSome (hothers name hname)).symm.trans hc, ?_⟩
      rw [hphase, Phase.captured]
      split
      · exact fun he => hname (Option.some.inj he).symm
      · exact Option.some_ne_none name ∘ Eq.symm
  · exact h.count.trans (by rw [asked_same ht (by rw [hphase]; exact hasked)]; rfl)

/-- Only the callback of the collector's gateway leaves something, and it is what is due. -/
theorem delivering {u : Nat} {rest : List Nat} (h : Safe s start base p m)
    (ht : m.threads[t]? = some th)
    (hphase : th.phase = .sharing c gateway lock (.delivering (u :: rest))) :
    Safe s start base p ({ m with
      world := onThread th (Transform.run u (eventOf s c)) m.world }.put t
        { th with phase := .sharing c gateway lock (.delivering rest) }) := by
  obtain ⟨g, rfl, hpg, hlisted, hmarks, hi, hall, hdue⟩ := h.relies_of_phase ht hphase
  obtain ⟨k, hk⟩ := hall u List.mem_cons_self
  have hrest : ∀ v ∈ rest, ∃ k, m.world.actionOf v = some (.callback k) :=
    fun v hv => hall v (List.mem_cons_of_mem u hv)
  have hshown : onThread th (Transform.run u (eventOf s c)) m.world = _ :=
    onThread_callback h.connected.quiet hmarks
      (capturing_of_installed h.connected h.point hpg hi).1 hk
  rw [hshown]
  split
  next hg =>
    have hput := World.cached_keeping (h.connected.room _ _ h.point) c.name
    refine h.step_cache ht hphase rfl rfl rfl (Array.size_modify ..) ?_ ?_ (fun hc => nomatch hc)
    · exact ⟨g, rfl, hpg, hlisted, hmarks, hi, hrest,
        .inr ((hput c.name (s.bytesOf c)).trans (if_pos rfl))⟩
    · exact fun name hname => (hput name (s.bytesOf c)).trans (if_neg hname)
  next hg =>
    refine h.step_cache ht hphase rfl rfl rfl rfl ?_ (fun _ _ => rfl) (fun hc => nomatch hc)
    refine ⟨g, rfl, hpg, hlisted, hmarks, hi, hrest, ?_⟩
    rcases hdue with ⟨v, hv, hact⟩ | hdone
    · rcases List.mem_cons.mp hv with rfl | hv
      · rw [hk] at hact
        exact absurd (TransformerAction.callback.inj (Option.some.inj hact)) hg
      · exact .inl ⟨v, hv, hact⟩
    · exact .inr hdone

theorem fetching (h : Safe s start base p m) (ht : m.threads[t]? = some th)
    (hphase : th.phase = .sharing c gateway lock .fetching) :
    ∃ w, takeCaptured s.point c.name m.world = (some (s.bytesOf c), w) ∧
      Safe s start base p ({ m with world := w }.put t
        { th with phase := .sharing c gateway lock (.leaving (.ok (some (s.bytesOf c)))) }) := by
  obtain ⟨g, rfl, hpg, hlisted, hmarks, hcached⟩ := h.relies_of_phase ht hphase
  refine ⟨taken p.cache c.name m.world, ?_, ?_⟩
  · rw [takeCaptured_eq h.point (h.connected.room _ _ h.point), hcached]
  · refine h.step_cache ht hphase rfl rfl rfl (Array.size_modify ..)
      ⟨g, rfl, hpg, hlisted, hmarks, rfl⟩ ?_ fun _ => ?_
    · exact fun name hname => (cached_taken c.name name).trans (if_neg hname)
    · exact (cached_taken c.name c.name).trans (if_pos rfl)

end Safe

end ClassRecovery.Collector.Threads
