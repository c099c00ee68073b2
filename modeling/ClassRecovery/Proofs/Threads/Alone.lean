import ClassRecovery.Proofs.Collector.Exactness
import ClassRecovery.Proofs.Threads.Progress

/-!
One thread alone does what a single call does: the same answer, the same world. So threads that ask
one collector are many calls, cut at the moments at which others can come between.
-/

namespace ClassRecovery.Collector.Threads

theorem retransform_alone {index g cache : Nat} {w : World} {i : GivenInstrument} {c : ClassRef}
    {bytes : Bytes} (hw : Capturing g cache (w.entered g))
    (ho : (Instrument.given index).OnlyCallbacks w)
    (hg : (Instrument.given index).CallsBack g w) (hi : w.instruments[index]? = some i)
    (hf : i.retransformFault = none) (halso : i.also = [])
    (hc : i.classes.get? c.name = some bytes) :
    Instrument.retransform [c] (.gateway g (.given index)) w =
      (.ok (), ((w.asked index).keeping cache c.name bytes).defined index c.name bytes) := by
  have hi' : (w.entered g).instruments[index]? = some i := hi
  have hob : Observed index cache (w.entered g) ((w.entered g).asked index) :=
    Instrument.observed_asked hi'
  have hi₁ : ((w.entered g).asked index).instruments[index]? =
      some { i with count := i.count + 1 } := by
    simp [World.asked, Array.getElem?_modify, hi']
  have hshown := Instrument.changeGiven_eq_shown (hob.capturing hw) (hob.onlyCallbacks hi' ho)
    (hob.callsBack hi' hg) hi₁ hc
  have hleft : ∀ v : World, v.inFlight = g :: w.inFlight →
      v.left g = { v with inFlight := w.inFlight } := by
    intro v hv
    rw [World.left, hv, List.erase_cons_head]
  rw [Instrument.retransform_eq c hi hf, halso, andAlways_apply]
  unfold Instrument.changeAll
  rw [List.map_nil, List.forM, Attempt.lift_bind, hshown]
  exact congrArg (Prod.mk _) (hleft _ rfl)

/-- The only thread gets there by going on. -/
def Leads (s : Setting) (m m' : State) : Prop :=
  ∃ n, run s m (List.replicate n (.go 0)) = some m'

variable {s : Setting} {m m' m'' : State}

theorem Leads.refl (s : Setting) (m : State) : Leads s m m := ⟨0, rfl⟩

theorem Leads.head (hgo : go s m 0 = some m') (h : Leads s m' m'') : Leads s m m'' := by
  obtain ⟨n, hn⟩ := h
  refine ⟨n + 1, ?_⟩
  rw [List.replicate_succ]
  unfold run
  rw [show step s m (.go 0) = some m' from hgo]
  exact hn

theorem Leads.trans (h : Leads s m m') (h' : Leads s m' m'') : Leads s m m'' := by
  obtain ⟨n, hn⟩ := h
  induction n generalizing m with
  | zero =>
    cases hn
    exact h'
  | succ n ih =>
    rw [List.replicate_succ] at hn
    unfold run at hn
    cases hgo : step s m (.go 0) with
    | none =>
      rw [hgo] at hn
      cases hn
    | some m₁ =>
      rw [hgo] at hn
      exact .head hgo (ih hn)

variable {c : ClassRef} {on : Instrument} {lock : Nat} {holders : Table Nat Nat}
  {answered : List (ClassRef × Answer)}

theorem leads_delivered {w : World} {g cache : Nat} (us : List Nat) (hquiet : w.inFlight = [])
    (hw : Capturing g cache (w.entered g))
    (hus : ∀ u ∈ us, ∃ k, w.actionOf u = some (.callback k)) :
    Leads s ⟨w, none, holders, [⟨.sharing c on lock (.delivering us), [g]⟩], answered⟩
      ⟨if us.any fun u => w.actionOf u = some (.callback g)
        then w.keeping cache c.name (s.bytesOf c) else w, none, holders,
        [⟨.sharing c on lock (.delivering []), [g]⟩], answered⟩ := by
  induction us generalizing w with
  | nil => exact .refl _ _
  | cons u us ih =>
    obtain ⟨k, hk⟩ := hus u List.mem_cons_self
    have hrest : ∀ v ∈ us, ∃ k, w.actionOf v = some (.callback k) := fun v hv =>
      hus v (List.mem_cons_of_mem u hv)
    have hgo : go s ⟨w, none, holders,
        [⟨.sharing c on lock (.delivering (u :: us)), [g]⟩], answered⟩ 0 =
        some ⟨if k = g then w.keeping cache c.name (s.bytesOf c) else w, none, holders,
          [⟨.sharing c on lock (.delivering us), [g]⟩], answered⟩ :=
      congrArg (fun w : World => some (State.mk w none holders
        [⟨.sharing c on lock (.delivering us), [g]⟩] answered))
        (onThread_callback hquiet rfl hw hk)
    refine .head hgo ?_
    by_cases hkg : k = g
    · subst hkg
      have hkept : Capturing k cache ((w.keeping cache c.name (s.bytesOf c)).entered k) :=
        ⟨hw.alone, hw.queued⟩
      have h := ih (w := w.keeping cache c.name (s.bytesOf c)) hquiet hkept hrest
      rw [World.keeping_keeping, ite_self] at h
      simpa [hk] using h
    · simpa [hk, hkg] using ih hquiet hw hrest

theorem leads_leaving {w : World} {p : CapturePoint} {g : Nat} (h : Connected s.index w)
    (hp : w.points[s.point]? = some p) (hpg : p.gateway = some (.gateway g (.given s.index)))
    (hi : p.installed = true) :
    Leads s
      ⟨w, none, holders, [⟨.sharing c (.gateway g (.given s.index)) lock .asking, []⟩], answered⟩
      ⟨taken p.cache c.name ((w.asked s.index).keeping p.cache c.name (s.bytesOf c)), none, holders,
        [⟨.sharing c (.gateway g (.given s.index)) lock (.leaving (.ok (some (s.bytesOf c)))), []⟩],
        answered⟩ := by
  obtain ⟨hw, hcalls⟩ := capturing_of_installed h hp hpg hi
  have hasked : Capturing g p.cache ((w.asked s.index).entered g) := ⟨hw.alone, hw.queued⟩
  let us := Transform.capable ((Instrument.given s.index).queue w)
  have hus : ∀ u ∈ us, ∃ k, (w.asked s.index).actionOf u = some (.callback k) := h.shared.capable
  have hany : (us.any fun u => (w.asked s.index).actionOf u = some (.callback g)) = true := by
    obtain ⟨u, hu, hact⟩ := hcalls.capable
    exact List.any_eq_true.mpr ⟨u, hu, decide_eq_true hact⟩
  let on : Instrument := .gateway g (.given s.index)
  have hasking : go s ⟨w, none, holders, [⟨.sharing c on lock .asking, []⟩], answered⟩ 0 =
      some ⟨w.asked s.index, none, holders, [⟨.sharing c on lock (.delivering us), [g]⟩],
        answered⟩ := by
    rw [go_sharing rfl rfl]
    simp only [goSharing, on, if_pos (supportsRetransform_gateway h g), isModifiable_gateway h g c]
    rfl
  have hquiet : (w.asked s.index).inFlight = [] := h.quiet
  refine .head hasking ((leads_delivered us hquiet hasked hus).trans ?_)
  rw [if_pos hany]
  let w' := (w.asked s.index).keeping p.cache c.name (s.bytesOf c)
  have hdone : go s ⟨w', none, holders, [⟨.sharing c on lock (.delivering []), [g]⟩], answered⟩ 0 =
      some ⟨w', none, holders, [⟨.sharing c on lock .fetching, []⟩], answered⟩ := by
    rw [go_sharing rfl rfl]
    simp [goSharing, on, Instrument.unmark, State.put]
  have hroom : p.cache < (w.asked s.index).caches.size := h.room _ _ hp
  have hcached : w'.cached p.cache c.name = some (s.bytesOf c) :=
    (World.cached_keeping hroom c.name c.name (s.bytesOf c)).trans (if_pos rfl)
  have hroom' : p.cache < w'.caches.size := by
    simpa [w', World.keeping] using hroom
  have hp' : w'.points[s.point]? = some p := hp
  have hfetch : go s ⟨w', none, holders, [⟨.sharing c on lock .fetching, []⟩], answered⟩ 0 =
      some ⟨taken p.cache c.name w', none, holders,
        [⟨.sharing c on lock (.leaving (.ok (some (s.bytesOf c)))), []⟩], answered⟩ := by
    rw [go_sharing rfl rfl]
    simp only [goSharing, takeCaptured_eq hp' hroom', hcached]
    rfl
  exact .head hdone (.head hfetch (.refl s _))

/-- What is left of a call when the class can be captured. -/
def readOut (s : Setting) (c : ClassRef) (cache lock : Nat) (w : World) : World :=
  let w := taken cache c.name ((w.asked s.index).keeping cache c.name (s.bytesOf c))
  (dropLock s.point lock (unlistLock s.point c.name lock w).2).2

section Through

variable {w w₁ w₂ w₃ : World} {p : CapturePoint} {g : Nat}
  (hw₁ : pointGateway s.point s.handle s.source w = (.ok (.gateway g (.given s.index)), w₁))
  (hw₂ : acquireLock s.point c.name w₁ = (lock, w₂))
  (hw₃ : ensureCapture s.point (.gateway g (.given s.index)) w₂ = ((), w₃))
  (h : Connected s.index w₃) (hp : w₃.points[s.point]? = some p)
  (hpg : p.gateway = some (.gateway g (.given s.index))) (hinstalled : p.installed = true)

include hw₁ hw₂ hw₃ h hp hpg hinstalled

theorem leads_answered :
    Leads s ⟨w, none, {}, [⟨.begun c, []⟩], []⟩ ⟨readOut s c p.cache lock w₃, none,
      .erase (.put {} lock 0) lock, [{}], [(c, .ok (some (s.bytesOf c)))]⟩ := by
  let on : Instrument := .gateway g (.given s.index)
  let held : Table Nat Nat := .put {} lock 0
  let found : Answer := .ok (some (s.bytesOf c))
  let w₄ := taken p.cache c.name ((w₃.asked s.index).keeping p.cache c.name (s.bytesOf c))
  have hbegun : go s ⟨w, none, {}, [⟨.begun c, []⟩], []⟩ 0 =
      some ⟨w₁, none, {}, [⟨.wanting c on, []⟩], []⟩ := by
    simp only [go, List.getElem?_cons_zero, hw₁]
    rfl
  have hfinding : go s ⟨w₁, some 0, {}, [⟨.finding c on, []⟩], []⟩ 0 =
      some ⟨w₂, none, {}, [⟨.sharing c on lock .waiting, []⟩], []⟩ := by
    simp only [go, List.getElem?_cons_zero, hw₂]
    rfl
  have hinside : go s ⟨w₂, none, held, [⟨.sharing c on lock .inside, []⟩], []⟩ 0 =
      some ⟨w₃, none, held, [⟨.sharing c on lock .asking, []⟩], []⟩ := by
    rw [go_sharing rfl rfl]
    simp only [goSharing, on, hw₃]
    rfl
  have hleaving : Leads s ⟨w₃, none, held, [⟨.sharing c on lock .asking, []⟩], []⟩
      ⟨w₄, none, held, [⟨.sharing c on lock (.leaving found), []⟩], []⟩ :=
    leads_leaving h hp hpg hinstalled
  have hend : Leads s ⟨w₄, none, held, [⟨.sharing c on lock (.leaving found), []⟩], []⟩
      ⟨readOut s c p.cache lock w₃, none, held.erase lock, [{}], [(c, found)]⟩ := ⟨4, rfl⟩
  exact .head hbegun (.head rfl (.head hfinding (.head rfl (.head hinside
    (hleaving.trans hend)))))

theorem readLive_answered {i : GivenInstrument} (hi : w₃.instruments[s.index]? = some i)
    (hf : i.retransformFault = none) (halso : i.also = [])
    (hc : i.classes.get? c.name = some (s.bytesOf c)) :
    readLive s.point s.handle s.source c w = (.ok (some (s.bytesOf c)),
      (readOut s c p.cache lock w₃).defined s.index c.name (s.bytesOf c)) := by
  obtain ⟨hw, hcalls⟩ := capturing_of_installed h hp hpg hinstalled
  have hre := retransform_alone hw h.shared hcalls hi hf halso hc
  have hroom : p.cache < w₃.caches.size := h.room s.point p hp
  have hcapture := capture_eq hw₃ h hre hp (Nat.lt_of_lt_of_eq hroom Array.size_modify.symm)
  have hcached := World.cached_keeping hroom c.name c.name (s.bytesOf c)
  rw [if_pos rfl] at hcached
  rw [readLive_eq hw₁ hw₂ hcapture]
  exact congrArg (fun b => (Except.ok b,
    (readOut s c p.cache lock w₃).defined s.index c.name (s.bytesOf c))) hcached

end Through

/-- A call and a thread that nobody comes between end alike, but that the instrument stores what
it had. -/
theorem run_alone {w : World} {p : CapturePoint} {i : GivenInstrument}
    (h : Connected s.index w) (hp : w.points[s.point]? = some p)
    (ha : Answerable s.index s.point s.handle s.source w)
    (hi : w.instruments[s.index]? = some i) (halso : i.also = [])
    (hc : i.classes.get? c.name = some (s.bytesOf c)) :
    ∃ n w' holders answer,
      run s (.start w 1) (.call 0 c :: List.replicate n (.go 0)) =
        some ⟨w', none, holders, [{}], [(c, answer)]⟩ ∧
      readLive s.point s.handle s.source c w =
        (answer, w'.defined s.index c.name (s.bytesOf c)) := by
  obtain ⟨g, w₁, hw₁, ha₁, hp₁, -⟩ := pointGateway_arranged h hp ha
  obtain ⟨w₂, hw₂, ha₂, hp₂⟩ := acquireLock_arranged ha₁.connected hp₁ c.name
  obtain ⟨w₃, hw₃, ha₃, hp₃⟩ := ensureCapture_arranged ha₂.connected hp₂ rfl
  have harranged := (ha₁.trans ha₂).trans ha₃
  obtain ⟨i₃, hi₃, hable⟩ := ha₃.connected.able
  have halso₃ : i₃.also = [] := by
    have hsame := harranged.also
    rw [hi₃, hi] at hsame
    exact (Option.some.inj hsame).trans halso
  have hc₃ : i₃.classes.get? c.name = some (s.bytesOf c) := by
    have hsame := harranged.held c.name
    unfold World.held at hsame
    rw [hi₃, hi] at hsame
    exact hsame.trans hc
  obtain ⟨n, hn⟩ := leads_answered hw₁ hw₂ hw₃ ha₃.connected hp₃ rfl rfl
  exact ⟨n, _, _, _, hn, readLive_answered hw₁ hw₂ hw₃ ha₃.connected hp₃ rfl rfl hi₃
    hable.faultless halso₃ hc₃⟩

end ClassRecovery.Collector.Threads
