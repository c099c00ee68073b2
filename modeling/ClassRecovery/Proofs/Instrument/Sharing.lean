import Mathlib
import ClassRecovery.Proofs.Instrument.Placement
import ClassRecovery.Proofs.Interleaving

/-!
Threads that use gateways over one instrument. A gateway is never in the hands of two threads at
once: who has its lock uses it, so nobody can give it up meanwhile, and who gives it up last does so
when nobody uses it. Whoever has it alone can rely on what it finds about the callback.
-/

namespace ClassRecovery.Instrument.Threads

variable {inner : Instrument} {n k g t : Nat} {base : List Registration} {w' : World}
  {s s' s'' : Shared} {phase : Phase} {r : Registration}

/-- The gateway that a thread is using. -/
def Phase.uses : Phase → Option Nat
  | checking g _ | locking g _ | checkingAgain g _ | registering g _ | marking g _ | unlocking g _
  | pushing g _ | transforming g => some g
  | _ => none

/-- The gateway that a thread has alone. -/
def Phase.has : Phase → Option Nat
  | checkingAgain g _ | registering g _ | marking g _ | unlocking g _ | unregistering g => some g
  | _ => none

/-- What a thread finds. -/
def Phase.Finds (inner : Instrument) (w : World) : Phase → Prop
  | checkingAgain g _ => Listed inner g w (hasCallback g w)
  | registering g _ => hasCallback g w = false ∧ Listed inner g w false
  | marking g _ => Listed inner g w true
  | unlocking g _ => hasCallback g w = true ∧ Listed inner g w true
  | pushing g _ => hasCallback g w = true
  | unregistering g => holders g w = 0 ∧ Listed inner g w (hasCallback g w)
  | _ => True

def WasAdded (g : Nat) (log : List Entry) : Prop := ∃ e ∈ log, ∃ r, e.request = .add g r

/-- What always holds. Nobody gives up a gateway that somebody uses, and who has a gateway alone
uses it or has given it up. If nobody has it alone, its callback is registered from the first time on
that it was marked as registered, until the gateway goes. -/
structure Sound (inner : Instrument) (n k : Nat) (base : List Registration) (s : Shared) :
    Prop where
  placed : Placed inner n k base s.created s.world
  once : s.borrowed.Nodup
  live : ∀ t g, (t, g) ∈ s.borrowed → g ∈ s.created ∧ holders g s.world ≠ 0
  exclusive : ∀ t g, s.holder g = some t →
    g ∈ s.created ∧ ((t, g) ∈ s.borrowed ∨ holders g s.world = 0)
  order : ∀ g ∈ s.created, s.holder g = none →
    Listed inner g s.world (hasCallback g s.world && decide (holders g s.world ≠ 0))
  added : ∀ g, WasAdded g s.log → g ∈ s.created ∧ hasCallback g s.world = true

/-- What a thread relies on, by its phase if it has something to do. -/
structure Relies (inner : Instrument) (t : Nat) (phase : Option Phase) (s : Shared) : Prop where
  alone : ∀ g, s.holder g = some t ↔ phase.bind Phase.has = some g
  uses : ∀ g, (t, g) ∈ s.borrowed ↔ phase.bind Phase.uses = some g
  finds : ∀ p, phase = some p → p.Finds inner s.world

/-- What others can rely on while a thread takes a step. -/
structure Respects (inner : Instrument) (t : Nat) (s s' : Shared) : Prop where
  created : ∀ g ∈ s.created, g ∈ s'.created
  borrowed : ∀ u g, u ≠ t → ((u, g) ∈ s'.borrowed ↔ (u, g) ∈ s.borrowed)
  holder : ∀ u g, u ≠ t → (s'.holder g = some u ↔ s.holder g = some u)
  installed : ∀ g ∈ s.created, hasCallback g s.world = true → hasCallback g s'.world = true
  same : ∀ u g, u ≠ t → s.holder g = some u → Same inner g s.world s'.world

structure Passes (inner : Instrument) (n k : Nat) (base : List Registration) (t : Nat)
    (s : Shared) (next : Option Phase) (s' : Shared) : Prop where
  sound : Sound inner n k base s'
  relies : Relies inner t next s'
  respects : Respects inner t s s'

theorem isLive_iff : s.isLive g = true ↔ g ∈ s.created ∧ holders g s.world ≠ 0 := by
  rw [Shared.isLive, Bool.and_eq_true, decide_eq_true_iff, decide_eq_true_iff]

theorem take_self {o : Option Nat} (h : s.holder g = o) : s.take g o = s := by
  obtain ⟨world, holder, created, borrowed, log⟩ := s
  unfold Shared.take
  congr 1
  funext j
  split
  next hj => rw [hj, ← h]
  next => rfl

theorem take_holder (s : Shared) (g j : Nat) (o : Option Nat) :
    (s.take g o).holder j = if j = g then o else s.holder j := rfl

namespace Respects

theorem refl (inner : Instrument) (t : Nat) (s : Shared) : Respects inner t s s :=
  ⟨fun _ => id, fun _ _ _ => .rfl, fun _ _ _ => .rfl, fun _ _ => id, fun _ _ _ _ => .refl _ _ _⟩

theorem trans (h : Respects inner t s s') (h' : Respects inner t s' s'') :
    Respects inner t s s'' where
  created g hg := h'.created g (h.created g hg)
  borrowed u g hu := (h'.borrowed u g hu).trans (h.borrowed u g hu)
  holder u g hu := (h'.holder u g hu).trans (h.holder u g hu)
  installed g hg hi := h'.installed g (h.created g hg) (h.installed g hg hi)
  same u g hu hh := (h.same u g hu hh).trans (h'.same u g hu ((h.holder u g hu).mpr hh))

theorem borrow (inner : Instrument) (t g : Nat) (s : Shared) : Respects inner t s (s.borrow t g) :=
  { refl inner t s with
    borrowed := fun _ _ hu => List.mem_cons.trans
      (or_iff_right fun he => hu (congrArg Prod.fst he)) }

theorem giveBack (inner : Instrument) (t g : Nat) (s : Shared) :
    Respects inner t s (s.giveBack t g) :=
  { refl inner t s with
    borrowed := fun _ _ hu => List.mem_erase_of_ne fun he => hu (congrArg Prod.fst he) }

theorem answer (inner : Instrument) (t : Nat) (q : Request) (found : Bool) (s : Shared) :
    Respects inner t s (s.answer t q found) :=
  { refl inner t s with }

end Respects

namespace Sound

theorem borrow (h : Sound inner n k base s) (hlive : s.isLive g = true)
    (hnew : (t, g) ∉ s.borrowed) : Sound inner n k base (s.borrow t g) :=
  { h with
    once := List.nodup_cons.mpr ⟨hnew, h.once⟩
    live := by
      rintro u j (_ | ⟨_, hb⟩)
      · exact isLive_iff.mp hlive
      · exact h.live u j hb
    exclusive := fun u j hj => ⟨(h.exclusive u j hj).1,
      (h.exclusive u j hj).2.imp_left (List.mem_cons_of_mem _)⟩ }

theorem giveBack (h : Sound inner n k base s) (ht : ∀ j, s.holder j ≠ some t) (g : Nat) :
    Sound inner n k base (s.giveBack t g) :=
  { h with
    once := h.once.erase _
    live := fun u j hb => h.live u j (List.mem_of_mem_erase hb)
    exclusive := fun u j hj => by
      refine ⟨(h.exclusive u j hj).1, (h.exclusive u j hj).2.imp_left fun hb => ?_⟩
      refine (List.mem_erase_of_ne fun he => ?_).mpr hb
      obtain rfl : u = t := congrArg Prod.fst he
      exact ht j hj }

theorem answer (h : Sound inner n k base s) {q : Request}
    (hq : ∀ g r, q = .add g r → g ∈ s.created ∧ hasCallback g s.world = true) (t : Nat)
    (found : Bool) : Sound inner n k base (s.answer t q found) :=
  { h with
    added := by
      rintro g ⟨e, _ | ⟨_, he⟩, r, hr⟩
      · exact hq g r hr
      · exact h.added g ⟨e, he, r, hr⟩ }

/-- The world changes, but not for the callbacks. -/
theorem calm (h : Sound inner n k base s) (hcalm : Calm inner s.created s.world w')
    (hsame : ∀ g ∈ s.created, Same inner g s.world w') :
    Sound inner n k base { s with world := w' } where
  placed := h.placed.calm hcalm
  once := h.once
  live u j hb := by
    obtain ⟨hj, hheld⟩ := h.live u j hb
    exact ⟨hj, mt (hsame j hj).held.mp hheld⟩
  exclusive u j hj := by
    obtain ⟨hmem, hu⟩ := h.exclusive u j hj
    exact ⟨hmem, hu.imp_right (hsame j hmem).held.mpr⟩
  order j hj hfree := by
    have hdecide : decide (holders j w' ≠ 0) = decide (holders j s.world ≠ 0) :=
      decide_eq_decide.mpr (not_congr (hsame j hj).held)
    rw [(hsame j hj).installed, hdecide, (hsame j hj).listed_iff]
    exact h.order j hj hfree
  added j hadded := by
    obtain ⟨hj, hinstalled⟩ := h.added j hadded
    exact ⟨hj, (hsame j hj).installed.trans hinstalled⟩

theorem respects_calm (h : Sound inner n k base s)
    (hsame : ∀ g ∈ s.created, Same inner g s.world w') (t : Nat) :
    Respects inner t s { s with world := w' } :=
  { Respects.refl inner t s with
    installed := fun j hj hi => (hsame j hj).installed.trans hi
    same := fun u j _ hj => hsame j (h.exclusive u j hj).1 }

theorem create (h : Sound inner n k base s) (hbelow : inner.Below n) :
    Sound inner n k base { s with
      world := (inner.wrap s.world).2
      created := s.world.gateways.size :: s.created } := by
  have hsame : ∀ g ∈ s.created, Same inner g s.world (inner.wrap s.world).2 :=
    fun g hg => h.placed.same_wrap hbelow hg
  have hcalm := h.calm (h.placed.calm_wrap hbelow) hsame
  refine ⟨h.placed.wrap hbelow, h.once, fun u j hb => ?_, fun u j hj => ?_, ?_,
    fun j hadded => ?_⟩
  · exact (hcalm.live u j hb).imp_left (List.mem_cons_of_mem _)
  · exact (hcalm.exclusive u j hj).imp_left (List.mem_cons_of_mem _)
  · refine List.forall_mem_cons.mpr ⟨fun _ => ?_, hcalm.order⟩
    rw [Placed.hasCallback_wrap hbelow, Bool.false_and]
    exact h.placed.listed_wrap hbelow
  · exact (hcalm.added j hadded).imp_left (List.mem_cons_of_mem _)

theorem respects_create (h : Sound inner n k base s) (hbelow : inner.Below n) (t : Nat) :
    Respects inner t s { s with
      world := (inner.wrap s.world).2
      created := s.world.gateways.size :: s.created } :=
  { h.respects_calm (fun _ hg => h.placed.same_wrap hbelow hg) t with
    created := fun _ => List.mem_cons_of_mem _ }

/-- A thread works on a gateway that nobody else has. -/
theorem work (h : Sound inner n k base s) {o : Option Nat}
    (hplaced : Placed inner n k base s.created w')
    (hsame : ∀ j ∈ s.created, j ≠ g → Same inner j s.world w')
    (hinstalled : hasCallback g s.world = true → hasCallback g w' = true)
    (horder : o = none → Listed inner g w' (hasCallback g w' && decide (holders g w' ≠ 0)))
    (hexclusive : ∀ u, o = some u → g ∈ s.created ∧ ((u, g) ∈ s.borrowed ∨ holders g w' = 0))
    (hlive : holders g w' = 0 → ∀ u, (u, g) ∉ s.borrowed) :
    Sound inner n k base ({ s with world := w' }.take g o) where
  placed := hplaced
  once := h.once
  live u j hb := by
    obtain ⟨hj, hheld⟩ := h.live u j hb
    refine ⟨hj, ?_⟩
    by_cases hjg : j = g
    · subst hjg
      exact fun hzero => hlive hzero u hb
    · exact mt (hsame j hj hjg).held.mp hheld
  exclusive u j hj := by
    rw [take_holder] at hj
    split at hj
    next hjg =>
      subst hjg
      exact hexclusive u hj
    next hjg =>
      obtain ⟨hmem, hu⟩ := h.exclusive u j hj
      exact ⟨hmem, hu.imp_right (hsame j hmem hjg).held.mpr⟩
  order j hj hfree := by
    rw [take_holder] at hfree
    split at hfree
    next hjg =>
      subst hjg
      exact horder hfree
    next hjg =>
      have hdecide : decide (holders j w' ≠ 0) = decide (holders j s.world ≠ 0) :=
        decide_eq_decide.mpr (not_congr (hsame j hj hjg).held)
      change Listed inner j w' (hasCallback j w' && decide (holders j w' ≠ 0))
      rw [(hsame j hj hjg).installed, hdecide, (hsame j hj hjg).listed_iff]
      exact h.order j hj hfree
  added j hadded := by
    obtain ⟨hj, hi⟩ := h.added j hadded
    refine ⟨hj, ?_⟩
    by_cases hjg : j = g
    · subst hjg
      exact hinstalled hi
    · exact (hsame j hj hjg).installed.trans hi

theorem respects_work (h : Sound inner n k base s) {o : Option Nat}
    (hsame : ∀ j ∈ s.created, j ≠ g → Same inner j s.world w')
    (hinstalled : hasCallback g s.world = true → hasCallback g w' = true)
    (hfree : ∀ u, u ≠ t → s.holder g ≠ some u) (ho : ∀ u, u ≠ t → o ≠ some u) :
    Respects inner t s ({ s with world := w' }.take g o) where
  created _ := id
  borrowed _ _ _ := .rfl
  holder u j hu := by
    rw [take_holder]
    split
    next hjg =>
      subst hjg
      exact iff_of_false (ho u hu) (hfree u hu)
    next => rfl
  installed j hj hi := by
    by_cases hjg : j = g
    · subst hjg
      exact hinstalled hi
    · exact (hsame j hj hjg).installed.trans hi
  same u j hu hj :=
    hsame j (h.exclusive u j hj).1 fun hjg => hfree u hu (hjg ▸ hj)

/-- A gateway that is there changes in what is neither its callback nor whether it is held. -/
theorem update (h : Sound inner n k base s) (hbelow : inner.Below n) (hg : n ≤ g)
    {f : Gateway → Gateway} (hcallback : ∀ x, (f x).callback = x.callback)
    (hinstalled : ∀ x, (f x).installed = x.installed)
    (hheld : holders g (World.updateGateway g f s.world).2 = 0 ↔ holders g s.world = 0) (t : Nat) :
    Sound inner n k base (s.update g f) ∧ Respects inner t s (s.update g f) := by
  have hcalm := calm_updateGateway hbelow hg hcallback s.created s.world
  have hsame : ∀ j ∈ s.created, Same inner j s.world (World.updateGateway g f s.world).2 := by
    intro j hj
    refine hcalm.same hj (hasCallback_updateGateway hinstalled g j s.world) ?_
    by_cases hgj : g = j
    · exact hgj ▸ hheld
    · rw [holders_updateGateway_of_ne hgj]
  exact ⟨h.calm hcalm hsame, h.respects_calm hsame t⟩

end Sound

namespace Relies

theorem idle (h : ∀ j, s.holder j ≠ some t) (hunused : ∀ j, (t, j) ∉ s.borrowed) :
    Relies inner t none s where
  alone j := iff_of_false (h j) nofun
  uses j := iff_of_false (hunused j) nofun
  finds := nofun

theorem outside (h : ∀ j, s.holder j ≠ some t) (hhas : phase.has = none)
    (huses : ∀ j, (t, j) ∈ s.borrowed ↔ phase.uses = some j)
    (hfinds : phase.Finds inner s.world) : Relies inner t (some phase) s where
  alone j := iff_of_false (h j) (by simp [hhas])
  uses := huses
  finds _ hp := Option.some.inj hp ▸ hfinds

theorem free (h : Relies inner t (some phase) s) (hhas : phase.has = none) (j : Nat) :
    s.holder j ≠ some t := by
  rw [Ne, h.alone, Option.bind_some, hhas]
  nofun

theorem unused (h : Relies inner t (some phase) s) (huses : phase.uses = none) (j : Nat) :
    (t, j) ∉ s.borrowed := by
  rw [h.uses, Option.bind_some, huses]
  nofun

/-- A thread uses one gateway at a time, and uses it once. -/
theorem unused_giveBack (h : Relies inner t (some phase) s) (huses : phase.uses = some g)
    (honce : s.borrowed.Nodup) (j : Nat) : (t, j) ∉ (s.giveBack t g).borrowed := by
  intro hj
  have hmem := (h.uses j).mp (List.mem_of_mem_erase hj)
  obtain rfl : g = j := Option.some.inj (huses.symm.trans hmem)
  exact honce.not_mem_erase hj

theorem holds (h : Relies inner t (some phase) s) (hhas : phase.has = some g) :
    s.holder g = some t := (h.alone g).mpr hhas

/-- A thread that goes on has the same gateway alone. -/
theorem inside (h : Relies inner t (some phase) s) {next : Phase} (hsame : s'.holder = s.holder)
    (hborrowed : s'.borrowed = s.borrowed) (hhas : next.has = phase.has)
    (huses : next.uses = phase.uses) (hfinds : next.Finds inner s'.world) :
    Relies inner t (some next) s' where
  alone j := by
    rw [hsame, h.alone, Option.bind_some, Option.bind_some, hhas]
  uses j := by
    rw [hborrowed, h.uses, Option.bind_some, Option.bind_some, huses]
  finds _ hp := Option.some.inj hp ▸ hfinds

theorem takes (h : ∀ j, s.holder j ≠ some t) (hhas : phase.has = some g)
    (huses : ∀ j, (t, j) ∈ s.borrowed ↔ phase.uses = some j) (hfinds : phase.Finds inner w') :
    Relies inner t (some phase) ({ s with world := w' }.take g (some t)) where
  alone j := by
    rw [take_holder, Option.bind_some, hhas]
    split
    next hj => exact iff_of_true rfl (congrArg some hj.symm)
    next hj => exact iff_of_false (h j) fun hg => hj (Option.some.inj hg).symm
  uses := huses
  finds _ hp := Option.some.inj hp ▸ hfinds

theorem gives (h : Relies inner t (some phase) s) (hhas : phase.has = some g) (j : Nat) :
    ({ s with world := w' }.take g none).holder j ≠ some t := by
  rw [take_holder]
  split
  next => nofun
  next hj =>
    rw [Ne, h.alone, Option.bind_some, hhas]
    exact fun hg => hj (Option.some.inj hg).symm

theorem finds_of_same {w : World} (hhas : phase.has = some g) (h : Same inner g w w') :
    phase.Finds inner w' ↔ phase.Finds inner w := by
  cases phase with
  | checkingAgain | registering | marking | unlocking | unregistering =>
    cases hhas
    simp only [Phase.Finds, h.installed, h.held, h.listed_iff]
  | _ => cases hhas

theorem respects {p : Option Phase} (h : Relies inner t p s) (hsound : Sound inner n k base s)
    {u : Nat} (htu : t ≠ u) (hrespects : Respects inner u s s') : Relies inner t p s' where
  alone j := (hrespects.holder t j htu).trans (h.alone j)
  uses j := (hrespects.borrowed t j htu).trans (h.uses j)
  finds phase hphase := by
    subst hphase
    have hfinds := h.finds phase rfl
    cases hhas : phase.has with
    | some g => exact (finds_of_same hhas (hrespects.same t g htu (h.holds hhas))).mpr hfinds
    | none =>
      cases phase with
      | pushing g r => exact hrespects.installed g (hsound.live t g ((h.uses g).mpr rfl)).1 hfinds
      | checkingAgain | registering | marking | unlocking | unregistering => cases hhas
      | _ => trivial

end Relies

/-- The last hold on a gateway is given up, which nobody is using. -/
theorem Sound.passes_giveUp (h : Sound inner n k base s) (hbelow : inner.Below n)
    (hg : g ∈ s.created) (hunused : ∀ u, (u, g) ∉ s.borrowed) (hnobody : ∀ u, s.holder g ≠ some u)
    (hfree : ∀ j, s.holder j ≠ some t) (hidle : ∀ j, (t, j) ∉ s.borrowed)
    (horder : Listed inner g s.world (hasCallback g s.world && decide (holders g s.world ≠ 0)))
    {f : Gateway → Gateway} (hcallback : ∀ x, (f x).callback = x.callback)
    (hinstalled : ∀ x, (f x).installed = x.installed) (hheld : holders g s.world ≠ 0)
    (hgone : holders g (World.updateGateway g f s.world).2 = 0) :
    Passes inner n k base t s (some (.unregistering g)) ((s.update g f).take g (some t)) := by
  have hcalm := calm_updateGateway hbelow (h.placed.le_of_mem g hg) hcallback s.created s.world
  have hmark := fun j => hasCallback_updateGateway hinstalled g j s.world
  have hsame : ∀ j ∈ s.created, j ≠ g → Same inner j s.world (World.updateGateway g f s.world).2 :=
    fun j hj hjg => hcalm.same hj (hmark j) (by rw [holders_updateGateway_of_ne (Ne.symm hjg)])
  refine ⟨h.work (h.placed.calm hcalm) hsame (hmark g).trans nofun (fun u _ => ⟨hg, .inr hgone⟩)
    fun _ => hunused, .takes hfree rfl (fun j => iff_of_false (hidle j) nofun) ⟨hgone, ?_⟩,
    h.respects_work hsame (hmark g).trans (fun u _ => hnobody u) fun u hu ho => ?_⟩
  · rw [hmark, hcalm.listed_iff hg]
    simpa [hheld] using horder
  · exact hu (Option.some.inj ho).symm

/-- A thread goes on with a gateway that it has alone. -/
theorem Sound.passes_inside (h : Sound inner n k base s)
    (hrelies : Relies inner t (some phase) s) (hhas : phase.has = some g)
    (huses : phase.uses = some g) (hplaced : Placed inner n k base s.created w')
    (hsame : ∀ j ∈ s.created, j ≠ g → Same inner j s.world w')
    (hinstalled : hasCallback g s.world = true → hasCallback g w' = true)
    (hholders : holders g w' = holders g s.world) {p : Phase} (hp : p.has = some g)
    (hpuses : p.uses = some g) (hfinds : p.Finds inner w') :
    Passes inner n k base t s (some p) { s with world := w' } := by
  have hholder : ({ s with world := w' } : Shared).holder g = some t := hrelies.holds hhas
  have hborrowed := (hrelies.uses g).mpr huses
  obtain ⟨hg, hheld⟩ := h.live t g hborrowed
  refine ⟨?_, hrelies.inside rfl rfl (hp.trans hhas.symm) (hpuses.trans huses.symm) hfinds, ?_⟩
  · rw [← take_self hholder]
    refine h.work hplaced hsame hinstalled nofun ?_ fun hgone => absurd (hholders ▸ hgone) hheld
    rintro u ⟨⟩
    exact ⟨hg, .inl hborrowed⟩
  · rw [← take_self hholder]
    exact h.respects_work hsame hinstalled
      (fun u hu hh => hu (Option.some.inj (hh.symm.trans hholder)))
      fun u hu ho => hu (Option.some.inj ho).symm

def leave (x : Gateway) : Gateway := { x with holders := x.holders - 1 }

theorem dropping_cases {next : Option Phase}
    (h : Threads.next inner t (.dropping g) s = some (next, s')) : s.isLive g = true ∧
      (holders g s.world ≠ 1 ∧ next = none ∧ s' = (s.update g leave).answer t (.drop g) false ∨
        holders g s.world = 1 ∧ (∀ u, (u, g) ∉ s.borrowed) ∧ next = some (.unregistering g) ∧
          s' = (s.update g leave).take g (some t)) := by
  obtain ⟨hlive, h⟩ := Option.ite_none_left_eq_some.mp h
  rw [Bool.not_eq_true', Bool.not_eq_false] at hlive
  refine ⟨hlive, ?_⟩
  by_cases hmany : holders g s.world ≠ 1
  · rw [if_pos hmany] at h
    cases h
    exact .inl ⟨hmany, rfl, rfl⟩
  · rw [if_neg hmany] at h
    obtain ⟨hunused, h⟩ := Option.ite_none_left_eq_some.mp h
    cases h
    refine .inr ⟨not_not.mp hmany, fun u hu => hunused ?_, rfl, rfl⟩
    exact List.any_eq_true.mpr ⟨(u, g), hu, decide_eq_true rfl⟩

section Steps

variable {next : Option Phase} (hsound : Sound inner n k base s) (hbelow : inner.Below n)
include hsound hbelow

theorem passes_wrapping (hrelies : Relies inner t (some .wrapping) s)
    (hnext : Threads.next inner t .wrapping s = some (next, s')) :
    Passes inner n k base t s next s' := by
  cases hnext
  exact ⟨(hsound.create hbelow).answer (by nofun) t false,
    .idle (hrelies.free rfl) (hrelies.unused rfl),
    (hsound.respects_create hbelow t).trans (.answer ..)⟩

theorem passes_sharing (hrelies : Relies inner t (some (.sharing g)) s)
    (hnext : Threads.next inner t (.sharing g) s = some (next, s')) :
    Passes inner n k base t s next s' := by
  obtain ⟨hlive, hnext⟩ := Option.ite_none_right_eq_some.mp hnext
  cases hnext
  obtain ⟨hg, hheld⟩ := isLive_iff.mp hlive
  obtain ⟨x, hx, -⟩ := exists_of_holders hheld
  have hupdate := hsound.update hbelow (hsound.placed.le_of_mem g hg)
    (f := fun x => { x with holders := x.holders + 1 }) (fun _ => rfl) (fun _ => rfl)
    (iff_of_false (by rw [holders_updateGateway_self hx]; simp) hheld) t
  exact ⟨hupdate.1.answer (by nofun) t false, .idle (hrelies.free rfl) (hrelies.unused rfl),
    hupdate.2.trans (.answer ..)⟩

theorem passes_dropping (hrelies : Relies inner t (some (.dropping g)) s)
    (hnext : Threads.next inner t (.dropping g) s = some (next, s')) :
    Passes inner n k base t s next s' := by
  obtain ⟨hlive, hcases⟩ := dropping_cases hnext
  obtain ⟨hg, hheld⟩ := isLive_iff.mp hlive
  obtain ⟨x, hx, hholders⟩ := exists_of_holders hheld
  have hleft : holders g (World.updateGateway g leave s.world).2 = holders g s.world - 1 :=
    (holders_updateGateway_self hx leave).trans (congrArg (· - 1) hholders.symm)
  rcases hcases with ⟨hmany, rfl, rfl⟩ | ⟨hlast, hunused, rfl, rfl⟩
  · have hupdate := hsound.update hbelow (hsound.placed.le_of_mem g hg) (f := leave)
      (fun _ => rfl) (fun _ => rfl) (by rw [hleft]; omega) t
    exact ⟨hupdate.1.answer (by nofun) t false, .idle (hrelies.free rfl) (hrelies.unused rfl),
      hupdate.2.trans (.answer ..)⟩
  · -- Whoever had the gateway alone would be using it.
    have hnobody : ∀ u, s.holder g ≠ some u := fun u hu =>
      (hsound.exclusive u g hu).2.elim (hunused u) hheld
    exact hsound.passes_giveUp hbelow hg hunused hnobody (hrelies.free rfl) (hrelies.unused rfl)
      (hsound.order g hg (Option.eq_none_iff_forall_ne_some.mpr hnobody)) (fun _ => rfl)
      (fun _ => rfl) hheld (by rw [hleft, hlast])

theorem passes_unregistering (hrelies : Relies inner t (some (.unregistering g)) s)
    (hnext : Threads.next inner t (.unregistering g) s = some (next, s')) :
    Passes inner n k base t s next s' := by
  cases hnext
  have hhas := hrelies.holds rfl
  obtain ⟨hgone, hlisted⟩ := hrelies.finds _ rfl
  have hg := (hsound.exclusive t g hhas).1
  have hunused : ∀ u, (u, g) ∉ s.borrowed := fun u hb => (hsound.live u g hb).2 hgone
  have hnobody : ∀ u, u ≠ t → s.holder g ≠ some u := fun u hu hh =>
    hu (Option.some.inj (hh.symm.trans hhas))
  have hplaced := hsound.placed
  have hgateway := (sameFrom_unregister hbelow g s.world).gateways g (hplaced.le_of_mem g hg)
  have hsame : ∀ j ∈ s.created, j ≠ g → Same inner j s.world (unregister inner g s.world) :=
    fun _ => hplaced.same_unregister hbelow hg
  refine ⟨hsound.work (hplaced.unregister hbelow hg) hsame (hasCallback_of_gateway hgateway).trans
      (fun _ => ?_) nofun fun _ => hunused, .outside (hrelies.gives rfl) rfl hrelies.uses trivial,
    hsound.respects_work hsame (hasCallback_of_gateway hgateway).trans hnobody nofun⟩
  rw [holders_of_gateway hgateway, hgone, show decide (0 ≠ 0) = false from rfl, Bool.and_false]
  exact hplaced.listed_unregister hbelow hg hlisted

theorem passes_releasing (hrelies : Relies inner t (some (.releasing g)) s)
    (hnext : Threads.next inner t (.releasing g) s = some (next, s')) :
    Passes inner n k base t s next s' := by
  cases hnext
  have hrelease := release_sameFrom hbelow s.world
  have hcalm := calm_sameFrom hrelease hsound.placed.le_of_mem (queue_release hbelow s.world)
  have hsame : ∀ j ∈ s.created, Same inner j s.world (inner.release s.world).2 := by
    intro j hj
    have hgateway := hrelease.gateways j (hsound.placed.le_of_mem j hj)
    exact hcalm.same hj (hasCallback_of_gateway hgateway) (by rw [holders_of_gateway hgateway])
  exact ⟨(hsound.calm hcalm hsame).answer (by nofun) t false,
    .idle (hrelies.free rfl) (hrelies.unused rfl),
    (hsound.respects_calm hsame t).trans (.answer ..)⟩

theorem passes_registering (hrelies : Relies inner t (some (.registering g r)) s)
    (hnext : Threads.next inner t (.registering g r) s = some (next, s')) :
    Passes inner n k base t s next s' := by
  cases hnext
  obtain ⟨hunmarked, hlisted⟩ := hrelies.finds _ rfl
  have hplaced := hsound.placed
  have hg := (hsound.live t g ((hrelies.uses g).mpr rfl)).1
  have hgateway := (sameFrom_register hbelow g s.world).gateways g (hplaced.le_of_mem g hg)
  exact hsound.passes_inside hrelies rfl rfl (hplaced.register hbelow hg)
    (fun _ => hplaced.same_register hbelow hg) (hasCallback_of_gateway hgateway).trans
    (holders_of_gateway hgateway) rfl rfl (hplaced.listed_register hbelow hg hlisted)

theorem passes_marking (hrelies : Relies inner t (some (.marking g r)) s)
    (hnext : Threads.next inner t (.marking g r) s = some (next, s')) :
    Passes inner n k base t s next s' := by
  cases hnext
  have hlisted := hrelies.finds _ rfl
  obtain ⟨hg, hheld⟩ := hsound.live t g ((hrelies.uses g).mpr rfl)
  obtain ⟨x, hx, -⟩ := exists_of_holders hheld
  have hcalm := calm_updateGateway (f := fun x => { x with installed := true }) hbelow
    (hsound.placed.le_of_mem g hg) (fun _ => rfl) s.created s.world
  have hmarked : hasCallback g
      (World.updateGateway g (fun x => { x with installed := true }) s.world).2 = true := by
    rw [hasCallback, updateGateway_getElem?, hx]
    rfl
  refine hsound.passes_inside hrelies rfl rfl (hsound.placed.calm hcalm) (fun j hj hjg => ?_)
    (fun _ => hmarked)
    (holders_updateGateway (fun x => { x with installed := true }) (fun _ => rfl) g g s.world)
    rfl rfl ⟨hmarked, (hcalm.listed_iff hg true).mpr hlisted⟩
  have hgateway := updateGateway_getElem?_of_ne (Ne.symm hjg)
    (fun x => { x with installed := true }) s.world
  exact hcalm.same hj (hasCallback_of_gateway hgateway) (by rw [holders_of_gateway hgateway])

theorem passes_pushing (hrelies : Relies inner t (some (.pushing g r)) s)
    (hnext : Threads.next inner t (.pushing g r) s = some (next, s')) :
    Passes inner n k base t s next s' := by
  cases hnext
  have hfree := hrelies.free rfl
  have hinstalled := hrelies.finds _ rfl
  have hg := (hsound.live t g ((hrelies.uses g).mpr rfl)).1
  obtain ⟨hupdate, hrespects⟩ := hsound.update hbelow (hsound.placed.le_of_mem g hg)
    (f := (·.add r)) (fun _ => rfl) (fun _ => rfl) (by rw [holders_updateGateway (·.add r) fun _ => rfl]) t
  refine ⟨(hupdate.giveBack hfree g).answer ?_ t false,
    .idle hfree (hrelies.unused_giveBack rfl hsound.once),
    (hrespects.trans (.giveBack ..)).trans (.answer ..)⟩
  rintro _ _ ⟨⟩
  exact ⟨hg, hrespects.installed g hg hinstalled⟩

theorem passes_removing {transformer : Nat}
    (hrelies : Relies inner t (some (.removing g transformer)) s)
    (hnext : Threads.next inner t (.removing g transformer) s = some (next, s')) :
    Passes inner n k base t s next s' := by
  obtain ⟨hlive, hnext⟩ := Option.ite_none_right_eq_some.mp hnext
  cases hnext
  have hg := (isLive_iff.mp hlive).1
  let f (x : Gateway) : Gateway := { x with queue := removeRegistration transformer x.queue }
  obtain ⟨hupdate, hrespects⟩ := hsound.update hbelow (hsound.placed.le_of_mem g hg) (f := f)
    (fun _ => rfl) (fun _ => rfl) (by rw [holders_updateGateway f fun _ => rfl]) t
  exact ⟨hupdate.answer (by nofun) t _, .idle (hrelies.free rfl) (hrelies.unused rfl),
    hrespects.trans (.answer ..)⟩

omit hbelow

theorem passes_locking (hrelies : Relies inner t (some (.locking g r)) s)
    (hnext : Threads.next inner t (.locking g r) s = some (next, s')) :
    Passes inner n k base t s next s' := by
  obtain ⟨hunheld, hnext⟩ := Option.ite_none_right_eq_some.mp hnext
  cases hnext
  have huses := (hrelies.uses g).mpr rfl
  obtain ⟨hg, hheld⟩ := hsound.live t g huses
  have hsame : ∀ j ∈ s.created, j ≠ g → Same inner j s.world s.world := fun j _ _ => .refl ..
  refine ⟨hsound.work hsound.placed hsame id nofun ?_ (fun hgone => absurd hgone hheld),
    .takes (hrelies.free rfl) rfl hrelies.uses ?_,
    hsound.respects_work hsame id (by simp [hunheld]) ?_⟩
  · rintro u ⟨⟩
    exact ⟨hg, .inl huses⟩
  · have horder := hsound.order g hg hunheld
    rwa [decide_eq_true hheld, Bool.and_true] at horder
  · exact fun u hu ho => hu (Option.some.inj ho).symm

theorem passes_checkingAgain (hrelies : Relies inner t (some (.checkingAgain g r)) s)
    (hnext : Threads.next inner t (.checkingAgain g r) s = some (next, s')) :
    Passes inner n k base t s next s' := by
  cases hnext
  have hlisted : Listed inner g s.world (hasCallback g s.world) := hrelies.finds _ rfl
  have hsame : ∀ j ∈ s.created, j ≠ g → Same inner j s.world s.world := fun j _ _ => .refl ..
  cases hinstalled : hasCallback g s.world with
  | true =>
    exact hsound.passes_inside hrelies rfl rfl hsound.placed hsame id rfl rfl rfl
      ⟨hinstalled, hinstalled ▸ hlisted⟩
  | false =>
    exact hsound.passes_inside hrelies rfl rfl hsound.placed hsame id rfl rfl rfl
      ⟨hinstalled, hinstalled ▸ hlisted⟩

theorem passes_unlocking (hrelies : Relies inner t (some (.unlocking g r)) s)
    (hnext : Threads.next inner t (.unlocking g r) s = some (next, s')) :
    Passes inner n k base t s next s' := by
  cases hnext
  have hhas := hrelies.holds rfl
  have huses := (hrelies.uses g).mpr rfl
  obtain ⟨hinstalled, hlisted⟩ := hrelies.finds _ rfl
  obtain ⟨hg, hheld⟩ := hsound.live t g huses
  have hsame : ∀ j ∈ s.created, j ≠ g → Same inner j s.world s.world := fun j _ _ => .refl ..
  refine ⟨hsound.work hsound.placed hsame id (fun _ => ?_) nofun (fun hgone => absurd hgone hheld),
    .outside (hrelies.gives rfl) rfl hrelies.uses hinstalled,
    hsound.respects_work hsame id ?_ nofun⟩
  · rwa [hinstalled, decide_eq_true hheld]
  · exact fun u hu hh => hu (Option.some.inj (hh.symm.trans hhas))

theorem passes_checking (hrelies : Relies inner t (some (.checking g r)) s)
    (hnext : Threads.next inner t (.checking g r) s = some (next, s')) :
    Passes inner n k base t s next s' := by
  cases hnext
  refine ⟨hsound, ?_, .refl ..⟩
  split
  next hinstalled => exact .outside (hrelies.free rfl) rfl hrelies.uses hinstalled
  next => exact .outside (hrelies.free rfl) rfl hrelies.uses trivial

/-- A thread begins to use a gateway. -/
theorem passes_borrow (hrelies : Relies inner t (some phase) s) (hhas : phase.has = none)
    (huses : phase.uses = none) (hlive : s.isLive g = true) {p : Phase} (hp : p.has = none)
    (hpuses : p.uses = some g) (hfinds : p.Finds inner s.world) :
    Passes inner n k base t s (some p) (s.borrow t g) := by
  refine ⟨hsound.borrow hlive (hrelies.unused huses g),
    .outside (hrelies.free hhas) hp (fun j => List.mem_cons.trans ?_) hfinds, .borrow ..⟩
  rw [or_iff_left (hrelies.unused huses j), hpuses, Prod.mk.injEq, Option.some.injEq]
  exact (and_iff_right rfl).trans eq_comm

end Steps

/-- What one thread does at one place, whatever the others are doing. -/
theorem passes (hsound : Sound inner n k base s) (hbelow : inner.Below n) {next : Option Phase}
    (hrelies : Relies inner t (some phase) s)
    (hnext : Threads.next inner t phase s = some (next, s')) :
    Passes inner n k base t s next s' := by
  cases phase with
  | wrapping => exact passes_wrapping hsound hbelow hrelies hnext
  | sharing g => exact passes_sharing hsound hbelow hrelies hnext
  | dropping g => exact passes_dropping hsound hbelow hrelies hnext
  | unregistering g => exact passes_unregistering hsound hbelow hrelies hnext
  | releasing g => exact passes_releasing hsound hbelow hrelies hnext
  | adding g r =>
    obtain ⟨hlive, hnext⟩ := Option.ite_none_right_eq_some.mp hnext
    cases hnext
    exact passes_borrow hsound hrelies rfl rfl hlive rfl rfl trivial
  | checking g r => exact passes_checking hsound hrelies hnext
  | locking g r => exact passes_locking hsound hrelies hnext
  | checkingAgain g r => exact passes_checkingAgain hsound hrelies hnext
  | registering g r => exact passes_registering hsound hbelow hrelies hnext
  | marking g r => exact passes_marking hsound hbelow hrelies hnext
  | unlocking g r => exact passes_unlocking hsound hrelies hnext
  | pushing g r => exact passes_pushing hsound hbelow hrelies hnext
  | removing g transformer => exact passes_removing hsound hbelow hrelies hnext
  | entering g =>
    obtain ⟨hlive, hnext⟩ := Option.ite_none_right_eq_some.mp hnext
    cases hnext
    exact passes_borrow hsound hrelies rfl rfl hlive rfl rfl trivial
  | transforming g =>
    cases hnext
    have hfree := hrelies.free rfl
    exact ⟨(hsound.giveBack hfree g).answer (by nofun) t false,
      .idle hfree (hrelies.unused_giveBack rfl hsound.once),
      (Respects.giveBack ..).trans (.answer ..)⟩

/-- What holds between any two steps. -/
structure Safe (inner : Instrument) (n k : Nat) (base : List Registration)
    (m : Routine.State Shared Phase) : Prop where
  sound : Sound inner n k base m.shared
  relies : ∀ t, Relies inner t (m.phases t) m.shared

theorem same_of_besides {w : World} (h : besides inner w s = some s') (hg : g ∈ s.created) :
    Same inner g s.world w ∧ (gateway g inner).queue w = (gateway g inner).queue s.world := by
  rw [besides, Option.ite_none_right_eq_some] at h
  obtain ⟨⟨-, hqueue, hfields, -⟩, -⟩ := h
  have hfield := (hfields g hg).1
  have hview {α : Type} (view : List Registration × Nat × Bool × Nat → α) :
      (fields g w).map view = (fields g s.world).map view := by rw [hfield]
  simp only [fields, Option.map_map] at hview
  have hcallback : callbackOf g w = callbackOf g s.world := hview (·.2.1)
  refine ⟨⟨hcallback, congrArg (·.getD false) (hview (·.2.2.1)), ?_, ?_⟩,
    congrArg (·.getD []) (hview (·.1))⟩
  · rw [show holders g w = holders g s.world from congrArg (·.getD 0) (hview (·.2.2.2))]
  · rw [listed, listed, hqueue, hcallback]

namespace Safe

variable {m m' : Routine.State Shared Phase}

theorem start {w : World} (hthere : inner.isThere w = true)
    (hknown : ∀ r ∈ inner.queue w, r.transformer < w.transformers.size) :
    Safe inner w.gateways.size w.transformers.size (inner.queue w)
      ⟨{ world := w }, fun _ => none⟩ where
  sound := {
    placed := {
      isThere := hthere
      gateways := le_rfl
      transformers := le_rfl
      made := nofun
      callback := nofun
      action := nofun
      known := fun r hr => .inl (hknown r hr)
      others := List.filter_eq_self.mpr fun r hr => decide_eq_true (hknown r hr) }
    once := List.nodup_nil
    live := nofun
    exclusive := nofun
    order := nofun
    added := nofun }
  relies _ := .idle (fun _ => nofun) fun _ => nofun

theorem moves (hbelow : inner.Below n) (h : Safe inner n k base m)
    (hm : Routine.Moves (routine inner) m m') : Safe inner n k base m' := by
  cases hm with
  | call t q idle =>
    refine ⟨h.sound, fun u => ?_⟩
    by_cases hut : u = t
    · subst hut
      have hfree : ∀ j, m.shared.holder j ≠ some u := fun j hj => by
        have halone := ((h.relies u).alone j).mp hj
        rw [idle] at halone
        cases halone
      have huses : ∀ j, (u, j) ∈ m.shared.borrowed ↔ none = some j := by
        have huses := (h.relies u).uses
        rwa [idle] at huses
      rw [Routine.put_self]
      cases q <;> exact .outside hfree rfl huses trivial
    · rw [Routine.put_of_ne hut]
      exact h.relies u
  | go t phase next shared busy goes =>
    obtain ⟨hsound, hrelies, hrespects⟩ := passes h.sound hbelow (busy ▸ h.relies t) goes
    refine ⟨hsound, fun u => ?_⟩
    by_cases hut : u = t
    · subst hut
      rw [Routine.put_self]
      exact hrelies
    · rw [Routine.put_of_ne hut]
      exact (h.relies u).respects h.sound hut hrespects
  | besides w shared happens =>
    have hsame : ∀ j ∈ m.shared.created, Same inner j m.shared.world w :=
      fun j hj => (same_of_besides happens hj).1
    have happens' : besides inner w m.shared = some shared := happens
    rw [besides, Option.ite_none_right_eq_some] at happens'
    obtain ⟨⟨hthere, hqueue, hfields, hgateways, htransformers⟩, ⟨⟩⟩ := happens'
    have hcalm : Calm inner m.shared.created m.shared.world w := ⟨fun _ => hthere, hqueue,
      hgateways, htransformers, fun j hj => (hsame j hj).callback, fun j hj => (hfields j hj).2⟩
    refine ⟨h.sound.calm hcalm hsame, fun t => ?_⟩
    -- To the threads it is a step of another one, whichever.
    exact (h.relies t).respects h.sound (Nat.succ_ne_self t).symm
      (h.sound.respects_calm hsame (t + 1))

theorem free_of_idle (h : Safe inner n k base m) (hidle : ∀ t, m.phases t = none) (g : Nat) :
    m.shared.holder g = none := by
  refine Option.eq_none_iff_forall_ne_some.mpr fun t ht => ?_
  have halone := ((h.relies t).alone g).mp ht
  rw [hidle] at halone
  cases halone

theorem unused_of_idle (h : Safe inner n k base m) (hidle : ∀ t, m.phases t = none) :
    m.shared.borrowed = [] := by
  refine List.eq_nil_iff_forall_not_mem.mpr fun ⟨t, g⟩ hb => ?_
  have huses := ((h.relies t).uses g).mp hb
  rw [hidle] at huses
  cases huses

end Safe

end ClassRecovery.Instrument.Threads
