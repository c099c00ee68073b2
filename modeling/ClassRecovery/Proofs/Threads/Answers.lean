import ClassRecovery.Proofs.Collector.Exactness
import ClassRecovery.Proofs.Threads.Progress

/-!
Threads that ask one collector, in whatever order they get to move: each is told the bytes of its
own class, the instrument is asked once for each question, and nothing is left in the cache.
-/

namespace ClassRecovery.Collector.Threads

variable {s : Setting} {start : World} {base : Nat} {p : CapturePoint} {m m' : State} {t : Nat}
  {th : Thread} {c : ClassRef} {gateway : Instrument} {lock : Nat}

namespace Safe

theorem goSharing {stage : Stage} (h : Safe s start base p m) (ht : m.threads[t]? = some th)
    (hphase : th.phase = .sharing c gateway lock stage)
    (hgo : Threads.goSharing s m t th c gateway lock stage = some m') :
    ∃ p', Safe s start base p' m' := by
  cases stage with
  | waiting =>
    simp only [Threads.goSharing] at hgo
    split at hgo
    next hm =>
      cases hgo
      exact ⟨p, h.waiting ht hphase hm⟩
    next => cases hgo
  | inside =>
    cases hgo
    exact h.inside ht hphase
  | asking =>
    obtain ⟨hsupports, hmodifiable, hsafe⟩ := h.asking ht hphase
    simp only [Threads.goSharing, if_pos hsupports, hmodifiable] at hgo
    cases hgo
    exact ⟨p, hsafe⟩
  | delivering callbacks =>
    cases callbacks with
    | nil =>
      cases hgo
      exact ⟨p, h.delivered ht hphase⟩
    | cons u rest =>
      cases hgo
      exact ⟨p, h.delivering ht hphase⟩
  | fetching =>
    obtain ⟨w, hw, hsafe⟩ := h.fetching ht hphase
    simp only [Threads.goSharing, hw] at hgo
    cases hgo
    exact ⟨p, hsafe⟩
  | leaving answer =>
    cases hgo
    exact ⟨p, h.leaving ht hphase⟩
  | returning answer =>
    simp only [Threads.goSharing] at hgo
    split at hgo
    next hm =>
      cases hgo
      exact ⟨p, h.returning ht hphase hm⟩
    next => cases hgo
  | closing answer =>
    cases hgo
    exact h.closing ht hphase
  | dropping answer =>
    cases hgo
    exact h.dropping ht hphase

theorem go (h : Safe s start base p m) (ha : Answerable s.index s.point s.handle s.source start)
    (hgo : Threads.go s m t = some m') : ∃ p', Safe s start base p' m' := by
  unfold Threads.go at hgo
  cases ht : m.threads[t]? with
  | none =>
    rw [ht] at hgo
    cases hgo
  | some th =>
    simp only [ht] at hgo
    cases hphase : th.phase with
    | idle =>
      rw [hphase] at hgo
      cases hgo
    | begun c =>
      obtain ⟨on, w, p', hw, hsafe⟩ := h.begun ht hphase ha
      simp only [hphase, hw] at hgo
      cases hgo
      exact ⟨p', hsafe⟩
    | wanting c gateway =>
      simp only [hphase] at hgo
      split at hgo
      next hm =>
        cases hgo
        exact ⟨p, h.wanting ht hphase hm⟩
      next => cases hgo
    | finding c gateway =>
      obtain ⟨lock, w, p', hw, hsafe⟩ := h.finding ht hphase
      simp only [hphase, hw] at hgo
      cases hgo
      exact ⟨p', hsafe⟩
    | sharing c gateway lock stage =>
      rw [hphase] at hgo
      exact h.goSharing ht hphase hgo

theorem settles (h : Safe s start base p m)
    (ha : Answerable s.index s.point s.handle s.source start) : Settles s m := by
  have hwf : WellFounded fun a b : State => Prod.Lex (· < ·) (· < ·) a.left b.left :=
    InvImage.wf State.left (Prod.lex Nat.lt_wfRel Nat.lt_wfRel).wf
  induction m using hwf.induction generalizing p with
  | _ m ih =>
    refine ⟨h.exists_go, ?_⟩
    intro t m' hgo
    obtain ⟨_, _, hgoes⟩ := go_goes hgo
    obtain ⟨p', h'⟩ := h.go ha hgo
    exact ih m' hgoes.left_lt h'

theorem idle_of_pending (hpending : m.pending = []) : ∀ th ∈ m.threads, th.phase = .idle := by
  intro th hth
  have hq : th.phase.question = none := by
    rw [State.pending, List.filterMap_eq_nil_iff] at hpending
    exact hpending th hth
  cases hphase : th.phase with
  | idle => rfl
  | _ =>
    rw [hphase] at hq
    cases hq

/-- When no question is open the instrument was asked once for each answer, and all that was
captured is gone. -/
theorem quiet (h : Safe s start base p m) (hpending : m.pending = []) :
    m.world.instruments[s.index]?.map (·.count) = some (base + m.answered.length) ∧
      m.world.caches[p.cache]? = some ⟨[]⟩ := by
  have hidle := idle_of_pending hpending
  constructor
  · have hasked : (m.threads.countP fun th => th.phase.asked) = 0 := by
      rw [List.countP_eq_zero]
      intro th hth
      rw [hidle th hth]
      exact Bool.false_ne_true
    rw [h.count, hasked]
    rfl
  · have hroom := h.connected.room _ _ h.point
    rw [Array.getElem?_eq_getElem hroom, Option.some.injEq]
    apply Table.eq_empty_of_get?
    intro name
    rw [← Option.not_isSome_iff_eq_none]
    intro hsome
    have hc : (m.world.cached p.cache name).isSome := by
      rw [World.cached, Array.getElem?_eq_getElem hroom]
      exact hsome
    obtain ⟨th, hth, hcap⟩ := h.cached name hc
    rw [hidle th hth] at hcap
    cases hcap

/-- When no question is open nobody shares a lock that is still in the table. -/
theorem unshared (h : Safe s start base p m) (hpending : m.pending = []) {name : String}
    {lock : Nat} (hlock : p.locks.table.get? name = some lock) :
    p.locks.shares[lock]? = some 1 := by
  have hidle := idle_of_pending hpending
  have hnobody : (m.threads.countP fun th => th.phase.shared = some lock) = 0 := by
    rw [List.countP_eq_zero]
    intro th hth
    rw [hidle th hth]
    exact Bool.false_ne_true
  rw [h.locks.shared name lock hlock, hnobody]

end Safe

/-- The question that a move puts. -/
def Move.question : Move → Option ClassRef
  | call _ c => some c
  | go _ => none

/-- What the collector has captured and not fetched. -/
def State.cache (s : Setting) (m : State) : Option Capture.Cache :=
  m.world.points[s.point]?.bind fun p => m.world.caches[p.cache]?

theorem Safe.step_move {move : Move} (h : Safe s start base p m)
    (ha : Answerable s.index s.point s.handle s.source start)
    (hstep : Threads.step s m move = some m') :
    (∃ p', Safe s start base p' m') ∧ (m'.answered.map Prod.fst ++ m'.pending).Perm
      (move.question.toList ++ (m.answered.map Prod.fst ++ m.pending)) := by
  cases move with
  | go t =>
    obtain ⟨_, _, hgoes⟩ := go_goes hstep
    exact ⟨h.go ha hstep, hgoes.perm⟩
  | call t c =>
    refine ⟨?_, call_perm hstep⟩
    change Threads.call m t c = some m' at hstep
    unfold Threads.call at hstep
    cases ht : m.threads[t]? with
    | none =>
      rw [ht] at hstep
      cases hstep
    | some th =>
      simp only [ht] at hstep
      cases hphase : th.phase with
      | idle =>
        rw [hphase] at hstep
        cases hstep
        exact ⟨p, h.call ht hphase c⟩
      | _ =>
        rw [hphase] at hstep
        cases hstep

theorem Safe.run {moves : List Move} (h : Safe s start base p m)
    (ha : Answerable s.index s.point s.handle s.source start)
    (hrun : Threads.run s m moves = some m') :
    (∃ p', Safe s start base p' m') ∧ (m'.answered.map Prod.fst ++ m'.pending).Perm
      (moves.filterMap Move.question ++ (m.answered.map Prod.fst ++ m.pending)) := by
  induction moves generalizing m p with
  | nil =>
    cases hrun
    exact ⟨⟨p, h⟩, .refl _⟩
  | cons move moves ih =>
    unfold Threads.run at hrun
    cases hstep : Threads.step s m move with
    | none =>
      rw [hstep] at hrun
      cases hrun
    | some m₁ =>
      rw [hstep] at hrun
      obtain ⟨⟨p₁, h₁⟩, hperm₁⟩ := h.step_move ha hstep
      obtain ⟨hsafe, hperm⟩ := ih h₁ hrun
      refine ⟨hsafe, hperm.trans ((hperm₁.append_left _).trans ?_)⟩
      rw [List.filterMap_cons, ← List.append_assoc]
      cases move.question with
      | none => simp
      | some c => exact List.perm_append_comm.append_right _

/-- A new collector that nobody has asked yet. -/
theorem safe_start {index : Nat} {w : World} {i : GivenInstrument} (h : Connected index w)
    (hi : w.instruments[index]? = some i) (hs : s.index = index) (hp : s.point = w.points.size)
    (count : Nat) :
    Safe s (newPoint w).2 i.count { cache := w.caches.size } (.start (newPoint w).2 count) := by
  subst hs
  have hidle : ∀ th ∈ (State.start (newPoint w).2 count).threads, th = {} := by
    intro th hth
    exact List.eq_of_mem_replicate hth
  have hnone : ∀ q : Thread → Bool, q {} = false →
      (State.start (newPoint w).2 count).threads.countP q = 0 := by
    intro q hq
    rw [List.countP_eq_zero]
    intro th hth
    rw [hidle th hth, hq]
    exact Bool.false_ne_true
  refine ⟨h.newPoint, ?_, ?_, ?_, ?_, ?_, ?_, ?_, ?_, fun x hx => nomatch hx⟩
  · rw [hp]
    exact Array.getElem?_push_size
  · refine fun _ => ⟨rfl, fun th hth => ?_⟩
    rw [hidle th hth]
    rfl
  · intro th hth
    rw [hidle th hth]
    rfl
  · intro t
    refine ⟨fun ht => (nomatch ht), ?_⟩
    rintro ⟨th, hth, hat⟩
    rw [hidle th (List.mem_of_getElem? hth)] at hat
    cases hat
  · intro lock t
    refine ⟨fun ht => (nomatch ht), ?_⟩
    rintro ⟨th, hth, hheld⟩
    rw [hidle th (List.mem_of_getElem? hth)] at hheld
    cases hheld
  · have husers : (fun lock => (State.start (newPoint w).2 count).threads.countP
        fun th => th.phase.shared = some lock) = fun _ => 0 :=
      funext fun lock => hnone _ rfl
    rw [husers]
    exact Capture.Locks.sound_empty
  · intro name hc
    change ((w.caches.push {})[w.caches.size]?.bind (·.get? name)).isSome = true at hc
    rw [Array.getElem?_push_size] at hc
    cases hc
  · rw [hnone _ rfl]
    exact congrArg (Option.map _) hi

/-- Whatever happened to the instrument before, and in whatever order the threads move: each answer
is the bytes of the class that was asked about, each question gets one answer, and when none is
open the instrument was asked once more for each and the cache is empty. -/
theorem run_answers {w₀ w : World} {count : Nat} {moves : List Move}
    (h : Unused s.index w₀) (run : Collector.Run s.index w₀ w) (hp : s.point = w.points.size)
    (ha : Handle.Supplies s.index s.handle s.source (newPoint w).2)
    (hrun : Threads.run s (.start (newPoint w).2 count) moves = some m) :
    (∀ x ∈ m.answered, x.2 = .ok (some (s.bytesOf x.1))) ∧
      (m.answered.map Prod.fst ++ m.pending).Perm (moves.filterMap Move.question) ∧
      Settles s m ∧
      (m.pending = [] → m.cache s = some ⟨[]⟩ ∧
        m.world.instruments[s.index]?.map (·.count) = w.instruments[s.index]?.map
          fun i => i.count + (moves.filterMap Move.question).length) := by
  have hconnected := (run.keeps_of_unused h).1
  obtain ⟨i, hi, -⟩ := hconnected.able
  obtain ⟨⟨p, hsafe⟩, hperm⟩ := (safe_start hconnected hi rfl hp count).run (.inr ha) hrun
  have hnone : (State.start (newPoint w).2 count).pending = [] := by
    rw [State.pending, List.filterMap_eq_nil_iff]
    intro th hth
    rw [List.eq_of_mem_replicate hth]
    rfl
  rw [hnone] at hperm
  simp only [State.start, List.map_nil, List.append_nil] at hperm
  refine ⟨hsafe.answered, hperm, hsafe.settles (.inr ha), ?_⟩
  intro hpending
  obtain ⟨hcount, hcache⟩ := hsafe.quiet hpending
  refine ⟨?_, ?_⟩
  · rw [State.cache, hsafe.point]
    exact hcache
  · have hlength := hperm.length_eq
    rw [hpending, List.append_nil, List.length_map] at hlength
    rw [hcount, hi, Option.map_some, hlength]

/-- Two classes of one name from two loaders, which the instrument tells apart. -/
def twin (loader : Option Loader) : ClassRef := ⟨"a.B", .topLevel, loader, .named⟩

def twinSetting : Setting :=
  ⟨0, 0, 0, .fixed (.given 0), fun c => [UInt8.ofNat c.loaderId]⟩

def twinMoves : List Move :=
  [.call 0 (twin none), .call 1 (twin (some (.given 0 1)))] ++
    [0, 1, 0, 0, 1, 1, 1, 1, 1, 1, 1, 1, 1, 1, 0, 0, 1, 0, 0, 1, 0, 1, 0, 0, 0, 0, 0, 0].map .go

theorem run_answers_twins :
    ∃ m, Threads.run twinSetting (.start (newPoint occupied).2 2) twinMoves = some m ∧
      (∀ x ∈ m.answered, x.2 = .ok (some [UInt8.ofNat x.1.loaderId])) ∧
      (m.answered.map Prod.fst).Perm [twin none, twin (some (.given 0 1))] ∧
      m.cache twinSetting = some ⟨[]⟩ ∧
      m.world.instruments[0]?.map (·.count) = some 2 := by
  have hquiet : (Threads.run twinSetting (.start (newPoint occupied).2 2) twinMoves).any
      (·.pending.isEmpty) = true := by cbv
  obtain ⟨m, hrun, hpending⟩ := (Option.any_eq_true _ _).mp hquiet
  rw [List.isEmpty_iff] at hpending
  have ha : Handle.Supplies 0 0 (.fixed (.given 0)) (newPoint occupied).2 :=
    Handle.supplies_of_none rfl
  obtain ⟨hanswers, hperm, -, hend⟩ := run_answers unused_occupied .refl rfl ha hrun
  obtain ⟨hcache, hcount⟩ := hend hpending
  rw [hpending, List.append_nil] at hperm
  exact ⟨m, hrun, hanswers, hperm, hcache, hcount⟩

/-- A lock that is still in the table when no question is open is shared by the table alone. -/
theorem run_leaves_unshared {w₀ w : World} {count : Nat} {moves : List Move}
    (h : Unused s.index w₀) (run : Collector.Run s.index w₀ w) (hp : s.point = w.points.size)
    (ha : Handle.Supplies s.index s.handle s.source (newPoint w).2)
    (hrun : Threads.run s (.start (newPoint w).2 count) moves = some m)
    (hpending : m.pending = []) {name : String} {lock : Nat}
    (hp' : m.world.points[s.point]? = some p) (hlock : p.locks.table.get? name = some lock) :
    p.locks.shares[lock]? = some 1 := by
  have hconnected := (run.keeps_of_unused h).1
  obtain ⟨i, hi, -⟩ := hconnected.able
  obtain ⟨⟨q, hsafe⟩, -⟩ := (safe_start hconnected hi rfl hp count).run (.inr ha) hrun
  obtain rfl : q = p := Option.some.inj (hsafe.point.symm.trans hp')
  exact hsafe.unshared hpending hlock

/-- Both threads are through with the lock before either lets its share go. -/
def crossedMoves : List Move :=
  [.call 0 (twin none), .call 1 (twin (some (.given 0 1)))] ++
    [0, 0, 0, 1, 1, 1, 0, 0, 0, 0, 0, 0, 0, 0, 1, 1, 1, 1, 1, 1, 1, 1, 0, 0, 1, 1, 0, 1].map .go

example : (Threads.run twinSetting (.start (newPoint occupied).2 2) crossedMoves).map
    (fun m => (m.pending.length, m.answered.length, m.world.points.map (·.locks))) =
      some (0, 2, #[{ table := ⟨[("a.B", 0)]⟩, shares := #[1] }]) := by cbv

end ClassRecovery.Collector.Threads
