import Mathlib
import ClassRecovery.Proofs.Instrument.Sharing

/-!
Callbacks mirror the gateways that are in use. Each request takes effect at one moment, and what was
answered says what the queue of a gateway is and whether its callback is registered.
-/

namespace ClassRecovery.Instrument

/-- What a request does to the queue of a gateway. The first registration is the one that goes. -/
def Request.effect (g : Nat) : Request → List Registration → List Registration
  | .add j r, queue => if j = g then queue ++ [r] else queue
  | .remove j transformer, queue =>
    if j = g then queue.eraseP (·.transformer = transformer) else queue
  | _, queue => queue

namespace Threads

variable {inner : Instrument} {n k g j t : Nat} {base : List Registration}
  {s s' : Shared} {phase : Phase} {next : Option Phase} {log : List Entry}
  {m m' : Routine.State Shared Phase}

/-- What is in the queue of a gateway after requests, the latest first. -/
def contents (g : Nat) (log : List Entry) : List Registration :=
  log.foldr (fun e queue => e.request.effect g queue) []

def Entry.adds (g : Nat) (e : Entry) : Bool :=
  match e.request with
  | .add j _ => j = g
  | _ => false

/-- Whether a transformer was taken out of a gateway. -/
def Entry.takes (g : Nat) (e : Entry) : Bool :=
  match e.request with
  | .remove j _ => j = g && e.found
  | _ => false

/-- The requests of a thread that were answered, in order. -/
def answered (t : Nat) (log : List Entry) : List Request :=
  (log.reverse.filter (·.thread = t)).map (·.request)

/-- The requests of a thread, in order. -/
def asked (t : Nat) (moves : List (Routine.Move Request World)) : List Request :=
  moves.filterMap fun
    | .call u q => if u = t then some q else none
    | _ => none

/-- Every answer about a transformer says whether it was registered at that time. -/
def Truthful (log : List Entry) : Prop :=
  ∀ t g transformer found earlier, ⟨t, .remove g transformer, found⟩ :: earlier <:+ log →
    found = registered transformer (contents g earlier)

/-- The request that a thread is at. -/
def Phase.request : Phase → Request
  | wrapping => .wrap
  | sharing g => .share g
  | dropping g | unregistering g | releasing g => .drop g
  | adding g r | checking g r | locking g r | checkingAgain g r | registering g r | marking g r
  | unlocking g r | pushing g r => .add g r
  | removing g transformer => .remove g transformer
  | entering g | transforming g => .retransform g

/-- The gateway whose callback is there for what a thread is about to add. -/
def Phase.owes : Phase → Option Nat
  | unlocking g _ | pushing g _ => some g
  | _ => none

/-- A request is answered with the last step for it. -/
inductive Logs (inner : Instrument) (t : Nat) (phase : Phase) (s s' : Shared) :
    Option Phase → Prop
  | goes (p : Phase) (request : p.request = phase.request) (log : s'.log = s.log) :
      Logs inner t phase s s' (some p)
  | answers (found : Bool) (log : s'.log = ⟨t, phase.request, found⟩ :: s.log)
      (made : ∀ j, j ∉ s.created → ∀ queue, phase.request.effect j queue = queue)
      (truth : ∀ g transformer, phase.request = .remove g transformer →
        g ∈ s.created ∧ found = registered transformer ((gateway g inner).queue s.world)) :
      Logs inner t phase s s' none

theorem logs_next (hsound : Sound inner n k base s) (hrelies : Relies inner t (some phase) s)
    (hnext : Threads.next inner t phase s = some (next, s')) :
    Logs inner t phase s s' next := by
  cases phase with
  | wrapping =>
    cases hnext
    exact .answers false rfl (fun _ _ _ => rfl) nofun
  | sharing g =>
    obtain ⟨-, hnext⟩ := Option.ite_none_right_eq_some.mp hnext
    cases hnext
    exact .answers false rfl (fun _ _ _ => rfl) nofun
  | dropping g =>
    obtain ⟨-, ⟨-, rfl, rfl⟩ | ⟨-, -, rfl, rfl⟩⟩ := dropping_cases hnext
    · exact .answers false rfl (fun _ _ _ => rfl) nofun
    · exact .goes _ rfl rfl
  | unregistering g | registering g r | marking g r | unlocking g r =>
    cases hnext
    exact .goes _ rfl rfl
  | adding g r | entering g | locking g r =>
    obtain ⟨-, hnext⟩ := Option.ite_none_right_eq_some.mp hnext
    cases hnext
    exact .goes _ rfl rfl
  | checking g r | checkingAgain g r =>
    cases hnext
    refine .goes _ ?_ rfl
    split <;> rfl
  | releasing g | transforming g =>
    cases hnext
    exact .answers false rfl (fun _ _ _ => rfl) nofun
  | pushing g r =>
    cases hnext
    refine .answers false rfl (fun j hj queue => if_neg ?_) nofun
    rintro rfl
    exact hj (hsound.live t _ ((hrelies.uses _).mpr rfl)).1
  | removing g transformer =>
    obtain ⟨hlive, hnext⟩ := Option.ite_none_right_eq_some.mp hnext
    cases hnext
    have hg := (isLive_iff.mp hlive).1
    refine .answers _ rfl (fun j hj queue => if_neg ?_) ?_
    · rintro rfl
      exact hj hg
    · rintro _ _ ⟨⟩
      exact ⟨hg, removeTransformer_fst (gateway g inner) transformer s.world⟩

/-- What a step does to a gateway. -/
structure Alters (phase : Phase) (next : Option Phase) (j : Nat) (f : Gateway → Gateway) :
    Prop where
  queue : ∀ x, (f x).queue = if next.isSome then x.queue else phase.request.effect j x.queue
  installed : ∀ x, (f x).installed = true → x.installed = true ∨ next.bind Phase.owes = some j

def Altered (phase : Phase) (next : Option Phase) (j : Nat) (w w' : World) : Prop :=
  ∃ f, w'.gateways[j]? = w.gateways[j]?.map f ∧ Alters phase next j f

theorem altered_of_same {w w' : World} (h : w'.gateways[j]? = w.gateways[j]?)
    (hnext : next.isSome = true ∨ ∀ queue, phase.request.effect j queue = queue) :
    Altered phase next j w w' := by
  refine ⟨id, by rw [Option.map_id, h, id], fun x => ?_, fun x => .inl⟩
  split
  next => rfl
  next hnone => exact ((hnext.resolve_left hnone) x.queue).symm

theorem altered_update {f : Gateway → Gateway} (hself : Alters phase next g f)
    (hother : j ≠ g → next.isSome = true ∨ ∀ queue, phase.request.effect j queue = queue)
    (w : World) : Altered phase next j w (World.updateGateway g f w).2 := by
  by_cases hgj : g = j
  · subst hgj
    exact ⟨f, updateGateway_getElem? g f w, hself⟩
  · exact altered_of_same (updateGateway_getElem?_of_ne hgj f w) (hother (Ne.symm hgj))

theorem gateway_next (hsound : Sound inner n k base s) (hbelow : inner.Below n)
    (hrelies : Relies inner t (some phase) s)
    (hnext : Threads.next inner t phase s = some (next, s')) (hj : j ∈ s.created) :
    Altered phase next j s.world s'.world := by
  have hplaced := hsound.placed
  obtain ⟨hn, hlt⟩ := hplaced.made j hj
  cases phase with
  | wrapping =>
    cases hnext
    exact altered_of_same (Placed.gateways_wrap hbelow hn hlt) (.inr fun _ => rfl)
  | sharing g =>
    obtain ⟨-, hnext⟩ := Option.ite_none_right_eq_some.mp hnext
    cases hnext
    refine altered_update ?_ (fun _ => .inr ?_) s.world
    · exact ⟨fun _ => rfl, fun _ => .inl⟩
    · exact fun _ => rfl
  | dropping g =>
    obtain ⟨-, ⟨-, rfl, rfl⟩ | ⟨-, -, rfl, rfl⟩⟩ := dropping_cases hnext
    · refine altered_update ?_ (fun _ => .inr ?_) s.world
      · exact ⟨fun _ => rfl, fun _ => .inl⟩
      · exact fun _ => rfl
    · refine altered_update ?_ (fun _ => .inl ?_) s.world
      · exact ⟨fun _ => rfl, fun _ => .inl⟩
      · rfl
  | unregistering g =>
    cases hnext
    exact altered_of_same ((sameFrom_unregister hbelow g s.world).gateways j hn) (.inl rfl)
  | releasing g =>
    cases hnext
    exact altered_of_same ((release_sameFrom hbelow s.world).gateways j hn) (.inr fun _ => rfl)
  | registering g r =>
    cases hnext
    exact altered_of_same ((sameFrom_register hbelow g s.world).gateways j hn) (.inl rfl)
  | marking g r =>
    cases hnext
    refine altered_update ?_ (fun _ => .inl ?_) s.world
    · exact ⟨fun _ => rfl, fun _ _ => .inr rfl⟩
    · rfl
  | pushing g r =>
    cases hnext
    refine altered_update ?_ (fun hjg => .inr ?_) s.world
    · exact ⟨fun _ => (if_pos rfl).symm, fun _ => .inl⟩
    · exact fun _ => if_neg (Ne.symm hjg)
  | removing g transformer =>
    obtain ⟨-, hnext⟩ := Option.ite_none_right_eq_some.mp hnext
    cases hnext
    refine altered_update ?_ (fun hjg => .inr ?_) s.world
    · exact ⟨fun x => (removeRegistration_eq transformer x.queue).trans (if_pos rfl).symm,
        fun _ => .inl⟩
    · exact fun _ => if_neg (Ne.symm hjg)
  | adding g r | locking g r | entering g =>
    obtain ⟨-, hnext⟩ := Option.ite_none_right_eq_some.mp hnext
    cases hnext
    exact altered_of_same rfl (.inl rfl)
  | checking g r | checkingAgain g r | unlocking g r =>
    cases hnext
    exact altered_of_same rfl (.inl rfl)
  | transforming g =>
    cases hnext
    exact altered_of_same rfl (.inr fun _ => rfl)

theorem created_next (hbelow : inner.Below n)
    (hnext : Threads.next inner t phase s = some (next, s')) (hj : j ∈ s'.created) :
    j ∈ s.created ∨ hasCallback j s'.world = false ∧ (gateway j inner).queue s'.world = [] := by
  cases phase with
  | wrapping =>
    cases hnext
    rcases List.mem_cons.mp hj with rfl | hj
    · refine .inr ⟨Placed.hasCallback_wrap hbelow, ?_⟩
      change (gateway _ inner).queue (inner.wrap s.world).2 = []
      rw [queue_gateway, Placed.gateway_wrap hbelow]
      rfl
    · exact .inl hj
  | unregistering g | releasing g | registering g r | marking g r | pushing g r | checking g r
  | checkingAgain g r | unlocking g r | transforming g =>
    cases hnext
    exact .inl hj
  | adding g r | locking g r | entering g | sharing g | removing g transformer =>
    obtain ⟨-, hnext⟩ := Option.ite_none_right_eq_some.mp hnext
    cases hnext
    exact .inl hj
  | dropping g =>
    obtain ⟨-, ⟨-, rfl, rfl⟩ | ⟨-, -, rfl, rfl⟩⟩ := dropping_cases hnext
    · exact .inl hj
    · exact .inl hj

theorem owes_next (howes : phase.owes = some g)
    (hnext : Threads.next inner t phase s = some (next, s')) :
    next.bind Phase.owes = some g ∨ next = none ∧ ∃ r, phase.request = .add g r := by
  cases phase with
  | unlocking j r =>
    cases hnext
    exact .inl howes
  | pushing j r =>
    cases hnext
    cases howes
    exact .inr ⟨rfl, r, rfl⟩
  | _ => cases howes

/-- What was answered says what the queues are. -/
structure Recorded (inner : Instrument) (s : Shared) : Prop where
  queue : ∀ g ∈ s.created, (gateway g inner).queue s.world = contents g s.log
  empty : ∀ g, g ∉ s.created → contents g s.log = []
  truthful : Truthful s.log

theorem contents_cons (g : Nat) (e : Entry) (log : List Entry) :
    contents g (e :: log) = e.request.effect g (contents g log) := rfl

theorem truthful_cons {e : Entry} (h : Truthful log)
    (he : ∀ g transformer, e.request = .remove g transformer →
      e.found = registered transformer (contents g log)) : Truthful (e :: log) := by
  intro t g transformer found earlier hsuffix
  rcases List.suffix_cons_iff.mp hsuffix with heq | hsuffix
  · cases heq
    exact he g transformer rfl
  · exact h t g transformer found earlier hsuffix

theorem queue_altered (inner : Instrument) {w w' : World} (h : Altered phase next j w w')
    (hj : j < w.gateways.size) :
    (gateway j inner).queue w' =
      if next.isSome then (gateway j inner).queue w
      else phase.request.effect j ((gateway j inner).queue w) := by
  obtain ⟨f, hf, hqueue, -⟩ := h
  rw [queue_gateway, queue_gateway, hf, Array.getElem?_eq_getElem hj]
  exact hqueue _

theorem installed_altered {w w' : World} (h : Altered phase next j w w')
    (hinstalled : hasCallback j w' = true) :
    hasCallback j w = true ∨ next.bind Phase.owes = some j := by
  obtain ⟨f, hf, -, hmarks⟩ := h
  rw [hasCallback, hf] at hinstalled
  rw [hasCallback]
  cases hx : w.gateways[j]? with
  | none =>
    rw [hx] at hinstalled
    cases hinstalled
  | some x =>
    rw [hx] at hinstalled
    exact hmarks x hinstalled

theorem recorded_next (hsound : Sound inner n k base s) (hbelow : inner.Below n)
    (hrelies : Relies inner t (some phase) s)
    (hnext : Threads.next inner t phase s = some (next, s')) (h : Recorded inner s) :
    Recorded inner s' := by
  have hqueue : ∀ j ∈ s.created, _ := fun j hj => queue_altered inner
    (gateway_next hsound hbelow hrelies hnext hj) (hsound.placed.made j hj).2
  have hgrows := (passes hsound hbelow hrelies hnext).respects.created
  have hnew := fun j hj hold => ((created_next (j := j) hbelow hnext hj).resolve_left hold).2
  cases logs_next hsound hrelies hnext with
  | goes p hrequest hlog =>
    refine ⟨fun j hj => ?_, fun j hj => ?_, hlog ▸ h.truthful⟩ <;> rw [hlog]
    · by_cases hold : j ∈ s.created
      · exact (hqueue j hold).trans (h.queue j hold)
      · rw [hnew j hj hold, h.empty j hold]
    · exact h.empty j (mt (hgrows j) hj)
  | answers found hlog hmade htruth =>
    refine ⟨fun j hj => ?_, fun j hj => ?_, ?_⟩ <;> rw [hlog]
    · by_cases hold : j ∈ s.created
      · rw [contents_cons, ← h.queue j hold]
        exact hqueue j hold
      · rw [hnew j hj hold, contents_cons, hmade j hold, h.empty j hold]
    · have hold := mt (hgrows j) hj
      rw [contents_cons, hmade j hold, h.empty j hold]
    · refine truthful_cons h.truthful fun g transformer hrequest => ?_
      obtain ⟨hg, hfound⟩ := htruth g transformer hrequest
      rw [← h.queue g hg]
      exact hfound

/-- Where a callback is registered, something was added to the gateway, or somebody is about to do
so. -/
def Owed (m : Routine.State Shared Phase) : Prop :=
  ∀ g ∈ m.shared.created, hasCallback g m.shared.world = true →
    WasAdded g m.shared.log ∨ ∃ t phase, m.phases t = some phase ∧ phase.owes = some g

theorem owed_next (hsound : Sound inner n k base m.shared) (hbelow : inner.Below n)
    (hrelies : Relies inner t (some phase) m.shared) (hbusy : m.phases t = some phase)
    (hnext : Threads.next inner t phase m.shared = some (next, s')) (h : Owed m) :
    Owed (m.put t next s') := by
  have howner (g : Nat) (hg : next.bind Phase.owes = some g) :
      ∃ u p, (m.put t next s').phases u = some p ∧ p.owes = some g := by
    obtain ⟨p, rfl, hp⟩ := Option.bind_eq_some_iff.mp hg
    exact ⟨t, p, Routine.put_self .., hp⟩
  have hlogs := logs_next hsound hrelies hnext
  have hmore (g : Nat) (hg : WasAdded g m.shared.log) : WasAdded g s'.log := by
    obtain ⟨e, he, hr⟩ := hg
    cases hlogs with
    | goes p hrequest hlog => exact ⟨e, hlog ▸ he, hr⟩
    | answers found hlog => exact ⟨e, hlog ▸ List.mem_cons_of_mem _ he, hr⟩
  intro g hg (hinstalled : hasCallback g s'.world = true)
  have hold : g ∈ m.shared.created := (created_next hbelow hnext hg).resolve_right fun hnew => by
    rw [hnew.1] at hinstalled
    cases hinstalled
  rcases installed_altered (gateway_next hsound hbelow hrelies hnext hold) hinstalled with hi | hown
  · rcases h g hold hi with hadded | ⟨u, p, hu, hp⟩
    · exact .inl (hmore g hadded)
    · by_cases hut : u = t
      · subst hut
        obtain rfl : p = phase := Option.some.inj (hu.symm.trans hbusy)
        rcases owes_next hp hnext with hown | ⟨rfl, r, hr⟩
        · exact .inr (howner g hown)
        · cases hlogs with
          | answers found hlog => exact .inl ⟨_, hlog ▸ List.mem_cons_self, r, hr⟩
      · exact .inr ⟨u, p, (Routine.put_of_ne hut ..).trans hu, hp⟩
  · exact .inr (howner g hown)

/-- What holds between any two steps, of callbacks and of queues. -/
structure Faithful (inner : Instrument) (n k : Nat) (base : List Registration)
    (m : Routine.State Shared Phase) : Prop where
  safe : Safe inner n k base m
  recorded : Recorded inner m.shared
  owed : Owed m

namespace Faithful

theorem start {w : World} (hthere : inner.isThere w = true)
    (hknown : ∀ r ∈ inner.queue w, r.transformer < w.transformers.size) :
    Faithful inner w.gateways.size w.transformers.size (inner.queue w)
      ⟨{ world := w }, fun _ => none⟩ where
  safe := .start hthere hknown
  recorded := ⟨nofun, fun _ _ => rfl, fun _ _ _ _ _ h => by cases List.suffix_nil.mp h⟩
  owed := nofun

theorem moves (hbelow : inner.Below n) (h : Faithful inner n k base m)
    (hm : Routine.Moves (routine inner) m m') : Faithful inner n k base m' := by
  refine ⟨h.safe.moves hbelow hm, ?_, ?_⟩
  · cases hm with
    | call t q idle => exact h.recorded
    | go t phase next shared busy goes =>
      exact recorded_next h.safe.sound hbelow (busy ▸ h.safe.relies t) goes h.recorded
    | besides w shared happens =>
      have hqueue := fun j hj => (same_of_besides happens (g := j) hj).2
      obtain ⟨-, ⟨⟩⟩ := Option.ite_none_right_eq_some.mp happens
      exact { h.recorded with queue := fun j hj => (hqueue j hj).trans (h.recorded.queue j hj) }
  · cases hm with
    | call t q idle =>
      intro g hg hinstalled
      refine (h.owed g hg hinstalled).imp_right fun ⟨u, p, hu, hp⟩ => ⟨u, p, ?_, hp⟩
      rw [Routine.put_of_ne _ m, hu]
      rintro rfl
      rw [idle] at hu
      cases hu
    | go t phase next shared busy goes =>
      exact owed_next h.safe.sound hbelow (busy ▸ h.safe.relies t) busy goes h.owed
    | besides w shared happens =>
      have hsame := fun j hj => (same_of_besides happens (g := j) hj).1
      obtain ⟨-, ⟨⟩⟩ := Option.ite_none_right_eq_some.mp happens
      exact fun g hg hinstalled => h.owed g hg ((hsame g hg).installed.symm.trans hinstalled)

theorem run {w : World} {moves : List (Routine.Move Request World)}
    (hthere : inner.isThere w = true) (hbelow : inner.Below w.gateways.size)
    (hknown : ∀ r ∈ inner.queue w, r.transformer < w.transformers.size)
    (hrun : (routine inner).run ⟨{ world := w }, fun _ => none⟩ moves = some m) :
    Faithful inner w.gateways.size w.transformers.size (inner.queue w) m :=
  Routine.run_keeps (fun h hm => h.moves hbelow hm) hrun (.start hthere hknown)

end Faithful

/-- The requests of a thread that were answered, and the one that it is at. -/
def begun (t : Nat) (m : Routine.State Shared Phase) : List Request :=
  answered t m.shared.log ++ ((m.phases t).map Phase.request).toList

theorem answered_cons (t : Nat) (e : Entry) (log : List Entry) :
    answered t (e :: log) = answered t log ++ if e.thread = t then [e.request] else [] := by
  rw [answered, List.reverse_cons, List.filter_append, List.map_append, ← answered]
  congr 1
  by_cases h : e.thread = t <;> simp [h]

theorem start_request (q : Request) : (start q).request = q := by cases q <;> rfl

theorem begun_put_of_ne {u : Nat} (h : t ≠ u)
    (hlog : answered t s'.log = answered t m.shared.log) :
    begun t (m.put u next s') = begun t m := by
  rw [begun, begun, Routine.put_of_ne h]
  exact congrArg (· ++ _) hlog

theorem begun_go (hlogs : Logs inner t phase m.shared s' next) (hbusy : m.phases t = some phase)
    (u : Nat) : begun u (m.put t next s') = begun u m := by
  by_cases hut : u = t
  · subst hut
    rw [begun, begun, Routine.put_self, hbusy]
    cases hlogs with
    | goes p hrequest hlog =>
      exact congrArg₂ (fun log q => answered u log ++ [q]) hlog hrequest
    | answers found hlog =>
      refine (congrArg (answered u · ++ []) hlog).trans ?_
      rw [answered_cons, if_pos rfl, List.append_nil]
      rfl
  · refine begun_put_of_ne hut ?_
    cases hlogs with
    | goes p hrequest hlog => rw [hlog]
    | answers found hlog =>
      rw [hlog, answered_cons, if_neg (Ne.symm hut), List.append_nil]

theorem begun_step (h : Safe inner n k base m) {move : Routine.Move Request World}
    (hstep : (routine inner).step m move = some m') (t : Nat) :
    begun t m' = begun t m ++ asked t [move] := by
  cases move with
  | call u q =>
    simp only [Routine.step] at hstep
    split at hstep
    next hidle =>
      cases hstep
      by_cases htu : t = u
      · subst htu
        have hasked : asked t [.call t q] = [q] := by simp [asked]
        rw [begun, begun, Routine.put_self, hidle, hasked, Option.map_none, Option.toList_none,
          List.append_nil, Option.map_some]
        exact congrArg (_ ++ [·]) (start_request q)
      · have hasked : asked t [.call u q] = [] := by simp [asked, Ne.symm htu]
        rw [hasked, List.append_nil]
        exact begun_put_of_ne htu rfl
    next => cases hstep
  | go u =>
    obtain ⟨phase, hbusy, hstep⟩ := Option.bind_eq_some_iff.mp hstep
    obtain ⟨⟨next, shared⟩, hgoes, hstep⟩ := Option.bind_eq_some_iff.mp hstep
    cases hstep
    have hlogs := logs_next h.sound (hbusy ▸ h.relies u) hgoes
    exact (begun_go hlogs hbusy t).trans (List.append_nil _).symm
  | besides w =>
    obtain ⟨shared, hhappens, hstep⟩ := Option.bind_eq_some_iff.mp hstep
    cases hstep
    obtain ⟨-, ⟨⟩⟩ := Option.ite_none_right_eq_some.mp hhappens
    exact (List.append_nil _).symm

theorem begun_run (hbelow : inner.Below n) (h : Safe inner n k base m)
    {moves : List (Routine.Move Request World)} (hrun : (routine inner).run m moves = some m')
    (t : Nat) : begun t m' = begun t m ++ asked t moves := by
  induction moves generalizing m with
  | nil =>
    cases hrun
    exact (List.append_nil _).symm
  | cons move moves ih =>
    rw [Routine.run_cons] at hrun
    obtain ⟨m₁, hstep, hrun⟩ := Option.bind_eq_some_iff.mp hrun
    rw [ih (h.moves hbelow (Routine.moves_of_step hstep)) hrun, begun_step h hstep,
      List.append_assoc]
    exact congrArg (_ ++ ·) (List.filterMap_append (l := [move])).symm

theorem Truthful.tail {e : Entry} (h : Truthful (e :: log)) : Truthful log :=
  fun t g transformer found earlier hsuffix =>
    h t g transformer found earlier (hsuffix.trans (List.suffix_cons e log))

/-- A queue is as long as what was added and not taken out again. -/
theorem length_contents (g : Nat) (h : Truthful log) :
    (contents g log).length + log.countP (·.takes g) = log.countP (·.adds g) := by
  induction log with
  | nil => rfl
  | cons e log ih =>
    obtain ⟨t, q, found⟩ := e
    have ih := ih h.tail
    rw [contents_cons, List.countP_cons, List.countP_cons]
    cases q with
    | wrap | share j | drop j | retransform j => exact ih
    | add j r =>
      have hadds : Entry.adds g ⟨t, .add j r, found⟩ = decide (j = g) := rfl
      have htakes : Entry.takes g ⟨t, .add j r, found⟩ = false := rfl
      rw [hadds, htakes, Request.effect]
      split
      next hj =>
        rw [List.length_append, decide_eq_true hj, List.length_singleton, if_pos rfl, ← ih]
        simp only [Bool.false_eq_true, ↓reduceIte]
        omega
      next hj =>
        rw [decide_eq_false hj]
        exact ih
    | remove j transformer =>
      have hadds : Entry.adds g ⟨t, .remove j transformer, found⟩ = false := rfl
      have htakes : Entry.takes g ⟨t, .remove j transformer, found⟩ = (decide (j = g) && found) :=
        rfl
      rw [hadds, htakes, Request.effect]
      split
      next hj =>
        subst hj
        have hlength := length_removeRegistration transformer (contents j log)
        rw [h t j transformer found log List.suffix_rfl, ← removeRegistration_eq,
          decide_eq_true rfl, Bool.true_and, if_neg Bool.false_ne_true]
        omega
      next hj =>
        rw [decide_eq_false hj, Bool.false_and]
        exact ih

theorem wasAdded_iff : WasAdded g log ↔ 0 < log.countP (·.adds g) := by
  rw [List.countP_pos_iff]
  refine exists_congr fun e => and_congr_right fun _ => ?_
  obtain ⟨t, q, found⟩ := e
  cases q <;> simp [Entry.adds]

/-- What is registered with an instrument shows which of the gateways over it are in use. `w` is the
world before the first of them was made. -/
structure Mirrors (inner : Instrument) (w : World) (s : Shared) : Prop where
  /-- Each gateway has a callback of its own, which is registered, once, if the gateway is held and
  something was ever added to it. -/
  callbacks : ∀ g ∈ s.created, ∃ callback, callbackOf g s.world = some callback ∧
    callbackAction g s.world = some (.callback g) ∧
    (inner.queue s.world).filter (·.transformer = callback) =
      if s.isLive g ∧ 0 < s.log.countP (·.adds g) then [⟨callback, true⟩] else []
  others : (inner.queue s.world).filter
    (fun r => ∀ g ∈ s.created, callbackOf g s.world ≠ some r.transformer) = inner.queue w
  queues : ∀ g ∈ s.created, (gateway g inner).queue s.world = contents g s.log
  counts : ∀ g ∈ s.created, ((gateway g inner).queue s.world).length +
    s.log.countP (·.takes g) = s.log.countP (·.adds g)
  truthful : Truthful s.log

theorem Faithful.mirrors {w : World}
    (h : Faithful inner w.gateways.size w.transformers.size (inner.queue w) m)
    (hidle : ∀ t, m.phases t = none) : Mirrors inner w m.shared := by
  have hplaced := h.safe.sound.placed
  have hadded (g : Nat) (hg : g ∈ m.shared.created) :
      hasCallback g m.shared.world = true ↔ WasAdded g m.shared.log := by
    refine ⟨fun hi => (h.owed g hg hi).resolve_right ?_, fun ha => (h.safe.sound.added g ha).2⟩
    rintro ⟨t, p, ht, -⟩
    rw [hidle] at ht
    cases ht
  refine ⟨fun g hg => ?_, ?_, h.recorded.queue, fun g hg => ?_, h.recorded.truthful⟩
  · obtain ⟨callback, hcallback, -⟩ := hplaced.callback g hg
    refine ⟨callback, hcallback, hplaced.action g hg, ?_⟩
    have horder := h.safe.sound.order g hg (h.safe.free_of_idle hidle g)
    by_cases hlive : m.shared.isLive g = true ∧ WasAdded g m.shared.log
    · rw [if_pos (hlive.imp_right wasAdded_iff.mp)]
      rw [(hadded g hg).mpr hlive.2, decide_eq_true (isLive_iff.mp hlive.1).2] at horder
      exact (listed_true_iff hcallback).mp horder
    · rw [if_neg (mt (And.imp_right wasAdded_iff.mpr) hlive)]
      have hnot : (hasCallback g m.shared.world && decide (holders g m.shared.world ≠ 0)) = false :=
        Bool.eq_false_iff.mpr fun hboth => hlive <| by
          obtain ⟨hi, hheld⟩ := Bool.and_eq_true_iff.mp hboth
          exact ⟨isLive_iff.mpr ⟨hg, of_decide_eq_true hheld⟩, (hadded g hg).mp hi⟩
      rw [hnot] at horder
      exact (listed_false_iff hcallback).mp horder
  · rw [← hplaced.others]
    refine List.filter_congr fun r hr => decide_eq_decide.mpr
      ⟨fun hnone => ?_, fun hlt g hg hc => ?_⟩
    · exact (hplaced.known r hr).resolve_right fun ⟨g, hg, hc⟩ => hnone g hg hc
    · obtain ⟨callback, hcallback, hk⟩ := hplaced.callback g hg
      rw [hc] at hcallback
      cases hcallback
      omega
  · rw [h.recorded.queue g hg]
    exact length_contents g h.recorded.truthful

/-- However threads make, use and give up gateways over one instrument: whenever no call is under
way, of the gateways exactly those that are held and were ever given a transformer have their
callback registered, once, beside all that was registered before. Their queues are what the calls
say, all of which were answered, those of a thread in the order in which it made them. -/
theorem callbacks_mirror_gateways {inner : Instrument} {w : World}
    {moves : List (Routine.Move Request World)} {m : Routine.State Shared Phase}
    (hthere : inner.isThere w = true) (hbelow : inner.Below w.gateways.size)
    (hknown : ∀ r ∈ inner.queue w, r.transformer < w.transformers.size)
    (hrun : (routine inner).run ⟨{ world := w }, fun _ => none⟩ moves = some m)
    (hidle : ∀ t, m.phases t = none) :
    Mirrors inner w m.shared ∧ ∀ t, answered t m.shared.log = asked t moves := by
  refine ⟨(Faithful.run hthere hbelow hknown hrun).mirrors hidle, fun t => ?_⟩
  have hbegun := begun_run hbelow (.start hthere hknown) hrun t
  rw [begun, hidle, Option.map_none, Option.toList_none, List.append_nil] at hbegun
  exact hbegun

section Contended

/-- Something is registered with the one instrument that is there. -/
def occupied : World where
  files := ⟨#[], []⟩
  instruments := #[{ queue := [⟨0, false⟩] }]
  transformers := #[{ action := .nothing }, { action := .echo }]

/-- Two threads find the same gateway without a callback, and both want to add to it. One of them
then makes a gateway of its own, uses it and gives it up. -/
def contended : List (Routine.Move Request World) :=
  [.call 0 .wrap, .go 0, .call 0 (.add 0 ⟨1, true⟩), .call 1 (.add 0 ⟨1, false⟩),
    .go 0, .go 1, .go 0, .go 1, .go 0, .go 0, .go 0, .go 0, .go 0, .go 0,
    .go 1, .go 1, .go 1, .go 1, .call 0 (.remove 0 1), .go 0,
    .call 1 .wrap, .go 1, .call 1 (.add 1 ⟨1, true⟩), .go 1, .go 1, .go 1, .go 1,
    .go 1, .go 1, .go 1, .go 1, .call 0 (.retransform 0), .go 0, .go 0,
    .call 1 (.drop 1), .go 1, .go 1, .go 1]

theorem callbacks_mirror_gateways_contended :
    ∃ m, (routine (.given 0)).run ⟨{ world := occupied }, fun _ => none⟩ contended = some m ∧
      (given 0).queue m.shared.world = [⟨0, false⟩, ⟨2, true⟩] ∧
      (gateway 0 (.given 0)).queue m.shared.world = [⟨1, false⟩] ∧
      Mirrors (.given 0) occupied m.shared ∧
      answered 1 m.shared.log = [.add 0 ⟨1, false⟩, .wrap, .add 1 ⟨1, true⟩, .drop 1] := by
  have hchecked : ((routine (.given 0)).run ⟨{ world := occupied }, fun _ => none⟩ contended).any
      (fun m => decide ((given 0).queue m.shared.world = [⟨0, false⟩, ⟨2, true⟩] ∧
        (gateway 0 (.given 0)).queue m.shared.world = [⟨1, false⟩] ∧
        (m.phases 0).isNone ∧ (m.phases 1).isNone)) = true := by cbv
  cases hrun : (routine (.given 0)).run ⟨{ world := occupied }, fun _ => none⟩ contended with
  | none =>
    rw [hrun] at hchecked
    cases hchecked
  | some m =>
    rw [hrun] at hchecked
    obtain ⟨hregistered, hadded, hfirst, hsecond⟩ := of_decide_eq_true hchecked
    have hidle : ∀ t, m.phases t = none := by
      rintro (_ | _ | t)
      · exact Option.isNone_iff_eq_none.mp hfirst
      · exact Option.isNone_iff_eq_none.mp hsecond
      · exact Routine.idle_of_uncalled hrun rfl (by simp [contended])
    have hbelow : (given 0).Below occupied.gateways.size := trivial
    obtain ⟨hmirrors, hanswered⟩ := callbacks_mirror_gateways rfl hbelow (by decide) hrun hidle
    exact ⟨m, rfl, hregistered, hadded, hmirrors, hanswered 1⟩

end Contended

end Threads

end ClassRecovery.Instrument
