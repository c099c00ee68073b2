import ClassRecovery.Collector.Process
import ClassRecovery.Proofs.Interleaving

/-!
However many threads want the value of one slot, and however they come between each other: all are
given the value that was there first. Every other value that was made is given up once, by the call
that made it, and nothing else is.
-/

namespace ClassRecovery.Slot

variable {σ α β : Type}

namespace Event

def created? : Event α → Option α
  | created value => some value
  | _ => none

def filled? : Event α → Option α
  | filled value => some value
  | _ => none

def discarded? : Event α → Option α
  | discarded value => some value
  | _ => none

def answered? : Event α → Option (Except Error α)
  | answered answer => some answer
  | _ => none

end Event

namespace Shared

/-- What happened in a call, the latest first. -/
def events (s : Shared σ α) (call : Nat) : List (Event α) :=
  (s.log.filter (·.1 = call)).map (·.2)

/-- What happened in a call, of one kind. -/
def record (s : Shared σ α) (kind : Event α → Option β) (call : Nat) : List β :=
  (s.events call).filterMap kind

theorem events_note (s : Shared σ α) (call : Nat) (e : Event α) (k : Nat) :
    (s.note call e).events k = if k = call then e :: s.events k else s.events k := by
  by_cases hk : k = call
  · simp [events, note, hk]
  · simp [events, note, hk, Ne.symm hk]

/-- One call filled the slot, if any did. -/
def Filled (s : Shared σ α) : Prop :=
  match s.slot with
  | none => ∀ call value, .filled value ∉ s.events call
  | some value => ∃ filler, .created value ∈ s.events filler ∧
      ∀ call value', .filled value' ∈ s.events call ↔ call = filler ∧ value' = value

theorem Filled.of_other {s s' : Shared σ α} (h : s.Filled) (hslot : s'.slot = s.slot)
    (hkept : ∀ call e, e ∈ s.events call → e ∈ s'.events call)
    (hfilled : ∀ call value, .filled value ∈ s'.events call → .filled value ∈ s.events call) :
    s'.Filled := by
  unfold Filled at h ⊢
  rw [hslot]
  cases hs : s.slot with
  | none =>
    rw [hs] at h
    exact fun call value hmem => h call value (hfilled call value hmem)
  | some value =>
    rw [hs] at h
    obtain ⟨filler, hcreated, honly⟩ := h
    exact ⟨filler, hkept _ _ hcreated, fun call value' =>
      (Iff.intro (hfilled call value') (hkept call _)).trans (honly call value')⟩

end Shared

/-- What can have happened in a call that was answered. -/
inductive Answered (slot : Option α) : List (Event α) → Prop
  | found {value : α} (there : slot = some value) : Answered slot [.answered (.ok value)]
  | failed (e : Error) : Answered slot [.answered (.error e), .failed e]
  | first {value : α} (there : slot = some value) :
      Answered slot [.answered (.ok value), .filled value, .created value]
  | late {value : α} (there : slot = some value) (own : α) :
      Answered slot [.answered (.ok value), .discarded own, .created own]

namespace Phase

/-- The number of the call, once it has one. -/
def call : Phase σ α → Option Nat
  | looking _ => none
  | creating n _ | filling n _ _ | discarding n _ _ | lookingBack n => some n

/-- What has happened so far. -/
def Follows (slot : Option α) (events : List (Event α)) : Phase σ α → Prop
  | looking _ => True
  | creating _ _ => events = []
  | filling _ _ own => events = [.created own]
  | discarding _ _ own => events = [.created own] ∧ slot.isSome
  | lookingBack _ => slot.isSome ∧ ∃ own, events = [.discarded own, .created own]

end Phase

/-- What is in the slot stays there. -/
def Grows (slot slot' : Option α) : Prop := ∀ value, slot = some value → slot' = some value

namespace Grows

variable {slot slot' : Option α} {events : List (Event α)}

theorem isSome (h : Grows slot slot') (hs : slot.isSome) : slot'.isSome := by
  obtain ⟨value, hvalue⟩ := Option.isSome_iff_exists.mp hs
  rw [h value hvalue]
  rfl

theorem answered (h : Grows slot slot') (ha : Answered slot events) : Answered slot' events := by
  cases ha with
  | found there => exact .found (h _ there)
  | failed e => exact .failed e
  | first there => exact .first (h _ there)
  | late there own => exact .late (h _ there) own

theorem follows (h : Grows slot slot') {phase : Phase σ α} (hf : phase.Follows slot events) :
    phase.Follows slot' events := by
  cases phase with
  | looking m => trivial
  | creating n m => exact hf
  | filling n m own => exact hf
  | discarding n m own => exact ⟨hf.1, h.isSome hf.2⟩
  | lookingBack n => exact ⟨h.isSome hf.1, hf.2⟩

end Grows

/-- Some thread is at a call. -/
def Underway (m : State σ α) (n : Nat) : Prop :=
  ∃ t phase, m.phases t = some phase ∧ phase.call = some n

/-- What holds between any two steps. -/
structure Sound (m : State σ α) : Prop where
  apart : ∀ {t u x y n}, m.phases t = some x → m.phases u = some y → x.call = some n →
    y.call = some n → t = u
  follows : ∀ {t phase n}, m.phases t = some phase → phase.call = some n →
    n < m.shared.calls ∧ phase.Follows m.shared.slot (m.shared.events n)
  answered : ∀ n, n < m.shared.calls → Underway m n ∨ Answered m.shared.slot (m.shared.events n)
  unused : ∀ n, m.shared.calls ≤ n → m.shared.events n = []
  filled : m.shared.Filled

theorem sound_start (surroundings : σ) : Sound (start surroundings : State σ α) where
  apart h := by cases h
  follows h := by cases h
  answered n h := absurd h (Nat.not_lt_zero n)
  unused _ _ := rfl
  filled _ _ h := by cases h

variable {m m' : State σ α} {t : Nat} {phase : Phase σ α}

/-- The call that a step belongs to, and how many calls there are behind it. -/
inductive StepOf (m : State σ α) (phase : Phase σ α) : (call calls : Nat) → Prop
  | goesOn {n : Nat} (at_call : phase.call = some n) : StepOf m phase n m.shared.calls
  | begins (new : phase.call = none) : StepOf m phase m.shared.calls (m.shared.calls + 1)

namespace StepOf

variable {n k calls : Nat}

theorem lt (hstep : StepOf m phase n calls) (h : Sound m) (ht : m.phases t = some phase) :
    n < calls := by
  cases hstep with
  | goesOn at_call => exact (h.follows ht at_call).1
  | begins new => exact Nat.lt_succ_self _

theorem le (hstep : StepOf m phase n calls) : m.shared.calls ≤ calls := by
  cases hstep with
  | goesOn at_call => exact Nat.le_refl _
  | begins new => exact Nat.le_succ _

theorem lt_of_ne (hstep : StepOf m phase n calls) (hne : k ≠ n) (hk : k < calls) :
    k < m.shared.calls := by
  cases hstep with
  | goesOn at_call => exact hk
  | begins new => omega

theorem eq_of_call (hstep : StepOf m phase n calls) (hk : phase.call = some k) : k = n := by
  cases hstep with
  | goesOn at_call => exact Option.some.inj (hk.symm.trans at_call)
  | begins new =>
    rw [new] at hk
    cases hk

/-- Nobody else is at this call. -/
theorem ne_of_other (hstep : StepOf m phase n calls) (h : Sound m) (ht : m.phases t = some phase)
    {u : Nat} {x : Phase σ α} (hu : u ≠ t) (hx : m.phases u = some x) (hk : x.call = some k) :
    k ≠ n := by
  rintro rfl
  cases hstep with
  | goesOn at_call => exact hu (h.apart hx ht hk at_call)
  | begins new => exact Nat.lt_irrefl _ (h.follows hx hk).1

end StepOf

theorem Sound.put (h : Sound m) (ht : m.phases t = some phase) {n : Nat}
    {after : Option (Phase σ α)} {s : Shared σ α} (hstep : StepOf m phase n s.calls)
    (hothers : ∀ k, k ≠ n → s.events k = m.shared.events k)
    (hgrows : Grows m.shared.slot s.slot) (hfilled : s.Filled)
    (hanswered : after = none → Answered s.slot (s.events n))
    (hfollows : ∀ x, after = some x → x.call = some n ∧ x.Follows s.slot (s.events n)) :
    Sound (m.put t after s) := by
  have hlt := hstep.lt h ht
  refine ⟨?_, ?_, fun k hk => ?_, fun k hk => ?_, hfilled⟩
  · intro u v x y k hx hy hxk hyk
    rcases Routine.put_eq_some.mp hx with ⟨rfl, hx'⟩ | ⟨hu, hx'⟩ <;>
      rcases Routine.put_eq_some.mp hy with ⟨rfl, hy'⟩ | ⟨hv, hy'⟩
    · rfl
    · exact absurd (Option.some.inj (hxk.symm.trans (hfollows x hx').1))
        (hstep.ne_of_other h ht hv hy' hyk)
    · exact absurd (Option.some.inj (hyk.symm.trans (hfollows y hy').1))
        (hstep.ne_of_other h ht hu hx' hxk)
    · exact h.apart hx' hy' hxk hyk
  · intro u x k hx hk
    rcases Routine.put_eq_some.mp hx with ⟨rfl, hx'⟩ | ⟨hu, hx'⟩
    · obtain ⟨hcall, hx'⟩ := hfollows x hx'
      obtain rfl : k = n := Option.some.inj (hk.symm.trans hcall)
      exact ⟨hlt, hx'⟩
    · obtain ⟨hlt, hfollows⟩ := h.follows hx' hk
      refine ⟨Nat.lt_of_lt_of_le hlt hstep.le, ?_⟩
      change x.Follows s.slot (s.events k)
      rw [hothers k (hstep.ne_of_other h ht hu hx' hk)]
      exact hgrows.follows hfollows
  · by_cases hkn : k = n
    · subst hkn
      cases after with
      | none => exact .inr (hanswered rfl)
      | some x => exact .inl ⟨t, x, Routine.put_self _ _ _ _, (hfollows x rfl).1⟩
    · rcases h.answered k (hstep.lt_of_ne hkn hk) with ⟨u, x, hx, hxk⟩ | hdone
      · refine .inl ⟨u, x, Routine.put_eq_some.mpr (.inr ⟨?_, hx⟩), hxk⟩
        rintro rfl
        obtain rfl := Option.some.inj (hx.symm.trans ht)
        exact hkn (hstep.eq_of_call hxk)
      · refine .inr ?_
        change Answered s.slot (s.events k)
        rw [hothers k hkn]
        exact hgrows.answered hdone
  · change s.calls ≤ k at hk
    change s.events k = []
    rw [hothers k (by omega)]
    exact h.unused k (Nat.le_trans hstep.le hk)

section Steps

variable {s : Shared σ α} {n : Nat} {e : Event α}

theorem events_note_self {events : List (Event α)} (h : s.events n = events) :
    (s.note n e).events n = e :: events := by
  rw [Shared.events_note, if_pos rfl, h]

theorem events_note_of_ne {k : Nat} (h : k ≠ n) : (s.note n e).events k = s.events k := by
  rw [Shared.events_note, if_neg h]

/-- Nothing but the filling of the slot matters to who filled it. -/
theorem Shared.Filled.note (h : s.Filled) (he : ∀ value, e ≠ .filled value) :
    (s.note n e).Filled := by
  refine h.of_other rfl (fun call e' hmem => ?_) fun call value hmem => ?_
  · rw [Shared.events_note]
    split
    · exact List.mem_cons_of_mem _ hmem
    · exact hmem
  · rw [Shared.events_note] at hmem
    split at hmem
    · exact (List.mem_cons.mp hmem).resolve_left fun heq => he value heq.symm
    · exact hmem

theorem Shared.Filled.fill (h : s.Filled) (hs : s.slot = none) {value : α}
    (hcreated : .created value ∈ s.events n) :
    ((s.fill value).note n (.filled value)).Filled := by
  unfold Shared.Filled at h
  rw [hs] at h
  refine ⟨n, ?_, fun call value' => ?_⟩
  · rw [Shared.events_note, if_pos rfl]
    exact List.mem_cons_of_mem _ hcreated
  · rw [Shared.events_note]
    split
    · next hcall =>
      rw [List.mem_cons]
      constructor
      · rintro (heq | hmem)
        · exact ⟨hcall, Event.filled.inj heq⟩
        · exact absurd hmem (h call value')
      · rintro ⟨-, rfl⟩
        exact .inl rfl
    · next hcall =>
      exact ⟨fun hmem => absurd hmem (h call value'), fun heq => absurd heq.1 hcall⟩

end Steps

theorem Sound.looking (h : Sound m) {maker : Maker σ α}
    (ht : m.phases t = some (.looking maker)) :
    Sound (m.put t (next (.looking maker) m.shared).1 (next (.looking maker) m.shared).2) := by
  have hnew : m.shared.begin.events m.shared.calls = [] := h.unused _ (Nat.le_refl _)
  cases hs : m.shared.slot with
  | some value =>
    simp only [next, hs]
    refine h.put ht (.begins rfl) (fun k hk => events_note_of_ne hk) (fun _ hv => hv) ?_
      (fun _ => ?_) nofun
    · exact Shared.Filled.note h.filled nofun
    · rw [events_note_self hnew]
      exact .found hs
  | none =>
    simp only [next, hs]
    refine h.put ht (.begins rfl) (fun _ _ => rfl) (fun _ hv => hv) h.filled nofun ?_
    rintro _ ⟨⟩
    exact ⟨rfl, hnew⟩

theorem Sound.creating (h : Sound m) {n : Nat} {maker : Maker σ α}
    (ht : m.phases t = some (.creating n maker)) :
    Sound (m.put t (next (.creating n maker) m.shared).1
      (next (.creating n maker) m.shared).2) := by
  have hnone : ∀ surroundings, (m.shared.amid surroundings).events n = [] :=
    fun _ => (h.follows ht rfl).2
  rcases hrun : maker.create m.shared.surroundings with ⟨e | value, surroundings⟩
  · simp only [next, hrun]
    refine h.put ht (.goesOn rfl)
      (fun k hk => (events_note_of_ne hk).trans (events_note_of_ne hk)) (fun _ hv => hv) ?_
      (fun _ => ?_) nofun
    · exact Shared.Filled.note (Shared.Filled.note h.filled nofun) nofun
    · rw [events_note_self (events_note_self (hnone surroundings))]
      exact .failed e
  · simp only [next, hrun]
    refine h.put ht (.goesOn rfl) (fun k hk => events_note_of_ne hk) (fun _ hv => hv) ?_ nofun ?_
    · exact Shared.Filled.note h.filled nofun
    · rintro _ ⟨⟩
      exact ⟨rfl, events_note_self (hnone surroundings)⟩

theorem Sound.filling (h : Sound m) {n : Nat} {maker : Maker σ α} {own : α}
    (ht : m.phases t = some (.filling n maker own)) :
    Sound (m.put t (next (.filling n maker own) m.shared).1
      (next (.filling n maker own) m.shared).2) := by
  have hown : m.shared.events n = [.created own] := (h.follows ht rfl).2
  cases hs : m.shared.slot with
  | none =>
    simp only [next, hs]
    refine h.put ht (.goesOn rfl)
      (fun k hk => (events_note_of_ne hk).trans (events_note_of_ne hk)) ?_ ?_ (fun _ => ?_) nofun
    · intro value hv
      rw [hs] at hv
      cases hv
    · have hcreated : Event.created own ∈ m.shared.events n := hown ▸ List.mem_cons_self
      exact Shared.Filled.note (h.filled.fill hs hcreated) nofun
    · have hfill : (m.shared.fill own).events n = [.created own] := hown
      rw [events_note_self (events_note_self hfill)]
      exact .first rfl
  | some value =>
    simp only [next, hs]
    refine h.put ht (.goesOn rfl) (fun _ _ => rfl) (fun _ hv => hv) h.filled nofun ?_
    rintro _ ⟨⟩
    exact ⟨rfl, hown, by rw [hs]; rfl⟩

theorem Sound.discarding (h : Sound m) {n : Nat} {maker : Maker σ α} {own : α}
    (ht : m.phases t = some (.discarding n maker own)) :
    Sound (m.put t (next (.discarding n maker own) m.shared).1
      (next (.discarding n maker own) m.shared).2) := by
  obtain ⟨hown, hs⟩ := (h.follows ht rfl).2
  refine h.put ht (.goesOn rfl) (fun k hk => events_note_of_ne hk) (fun _ hv => hv) ?_ nofun ?_
  · exact Shared.Filled.note h.filled nofun
  · rintro _ ⟨⟩
    exact ⟨rfl, hs, own, events_note_self hown⟩

theorem Sound.lookingBack (h : Sound m) {n : Nat} (ht : m.phases t = some (.lookingBack n)) :
    Sound (m.put t (next (.lookingBack n) m.shared).1 (next (.lookingBack n) m.shared).2) := by
  obtain ⟨hs, own, hown⟩ := (h.follows ht rfl).2
  obtain ⟨value, hvalue⟩ := Option.isSome_iff_exists.mp hs
  simp only [next, hvalue]
  refine h.put ht (.goesOn rfl) (fun k hk => events_note_of_ne hk) (fun _ hv => hv) ?_
    (fun _ => ?_) nofun
  · exact Shared.Filled.note h.filled nofun
  · rw [events_note_self hown]
    exact .late hvalue own

theorem Sound.moves (h : Sound m) (hmoves : Routine.Moves (routine σ α) m m') : Sound m' := by
  cases hmoves with
  | call t maker idle =>
    -- A call has no number before its first step.
    have hplace : ∀ {u x n}, (m.put t (some (.looking maker)) m.shared).phases u = some x →
        x.call = some n → m.phases u = some x := by
      intro u x n hx hn
      rcases Routine.put_eq_some.mp hx with ⟨-, ⟨⟩⟩ | ⟨-, hx⟩
      · cases hn
      · exact hx
    refine ⟨fun hx hy hxn hyn => h.apart (hplace hx hxn) (hplace hy hyn) hxn hyn,
      fun hx hn => h.follows (hplace hx hn) hn, fun n hn => ?_, h.unused, h.filled⟩
    refine (h.answered n hn).imp_left fun ⟨u, x, hx, hxn⟩ =>
      ⟨u, x, Routine.put_eq_some.mpr (.inr ⟨?_, hx⟩), hxn⟩
    rintro rfl
    rw [idle] at hx
    cases hx
  | go t phase after shared busy goes =>
    obtain ⟨rfl, rfl⟩ := Prod.mk.inj (Option.some.inj goes.symm)
    cases phase with
    | looking maker => exact h.looking busy
    | creating n maker => exact h.creating busy
    | filling n maker own => exact h.filling busy
    | discarding n maker own => exact h.discarding busy
    | lookingBack n => exact h.lookingBack busy
  | besides surroundings shared happens =>
    obtain rfl := Option.some.inj happens
    exact ⟨h.apart, h.follows, h.answered, h.unused, h.filled⟩

theorem sound_run {surroundings : σ} {moves : List (Routine.Move (Maker σ α) σ)}
    (hrun : (routine σ α).run (start surroundings) moves = some m) : Sound m :=
  Routine.run_keeps Sound.moves hrun (sound_start surroundings)

/-- How far a call has come at most. -/
theorem Sound.events_cases (h : Sound m) (n : Nat) :
    Answered m.shared.slot (m.shared.events n) ∨ m.shared.events n = [] ∨
      ∃ own, m.shared.events n = [.created own] ∨
        m.shared.events n = [.discarded own, .created own] := by
  by_cases hn : n < m.shared.calls
  · rcases h.answered n hn with ⟨t, phase, ht, hcall⟩ | hanswered
    · have hfollows := (h.follows ht hcall).2
      cases phase with
      | looking maker => cases hcall
      | creating k maker => exact .inr (.inl hfollows)
      | filling k maker own => exact .inr (.inr ⟨own, .inl hfollows⟩)
      | discarding k maker own => exact .inr (.inr ⟨own, .inl hfollows.1⟩)
      | lookingBack k =>
        obtain ⟨-, own, hown⟩ := hfollows
        exact .inr (.inr ⟨own, .inr hown⟩)
    · exact .inl hanswered
  · exact .inr (.inl (h.unused n (Nat.le_of_not_lt hn)))

/-- The call that filled the slot did so with what it made, and no other one did. -/
theorem Sound.kept (h : Sound m) {value : α} (hvalue : m.shared.slot = some value) :
    ∃ call, m.shared.record Event.created? call = [value] ∧
      m.shared.record Event.filled? call = [value] ∧
      m.shared.record Event.discarded? call = [] ∧
      ∀ other, other ≠ call → m.shared.record Event.filled? other = [] := by
  have hfilled := h.filled
  unfold Shared.Filled at hfilled
  rw [hvalue] at hfilled
  obtain ⟨filler, -, honly⟩ := hfilled
  have hfirst : m.shared.events filler =
      [.answered (.ok value), .filled value, .created value] := by
    have hmem := (honly filler value).mpr ⟨rfl, rfl⟩
    rcases h.events_cases filler with hanswered | hnone | ⟨own, hown | hown⟩
    · generalize hevents : m.shared.events filler = events at hanswered hmem
      cases hanswered with
      | found there => simp at hmem
      | failed e => simp at hmem
      | first there =>
        cases hvalue.symm.trans there
        rfl
      | late there own => simp at hmem
    · simp [hnone] at hmem
    · simp [hown] at hmem
    · simp [hown] at hmem
  refine ⟨filler, ?_, ?_, ?_, fun other hother => ?_⟩
  · rw [Shared.record, hfirst]
    rfl
  · rw [Shared.record, hfirst]
    rfl
  · rw [Shared.record, hfirst]
    rfl
  · rw [Shared.record, List.filterMap_eq_nil_iff]
    intro e he
    cases e with
    | filled value' => exact absurd ((honly other value').mp he).1 hother
    | _ => rfl

/-- An answer is what is in the slot, or the failure of the call that it answers. -/
theorem Sound.answers (h : Sound m) {n : Nat} {answer : Except Error α}
    (hanswer : answer ∈ m.shared.record Event.answered? n) :
    (∃ value, answer = .ok value ∧ m.shared.slot = some value) ∨
      ∃ e, answer = .error e ∧ m.shared.events n = [.answered (.error e), .failed e] := by
  unfold Shared.record at hanswer
  rcases h.events_cases n with hanswered | hnone | ⟨own, hown | hown⟩
  · generalize m.shared.events n = events at hanswered hanswer
    cases hanswered with
    | found there => exact .inl ⟨_, List.mem_singleton.mp hanswer, there⟩
    | failed e => exact .inr ⟨e, List.mem_singleton.mp hanswer, rfl⟩
    | first there => exact .inl ⟨_, List.mem_singleton.mp hanswer, there⟩
    | late there own => exact .inl ⟨_, List.mem_singleton.mp hanswer, there⟩
  · rw [hnone] at hanswer
    cases hanswer
  · rw [hown] at hanswer
    cases hanswer
  · rw [hown] at hanswer
    cases hanswer

/-- A call that was begun and that nobody is at any more was answered. -/
theorem Sound.done (h : Sound m) {n : Nat} (hn : n < m.shared.calls) (hleft : ¬ Underway m n) :
    ∃ answer, m.shared.record Event.answered? n = [answer] := by
  unfold Shared.record
  have hanswered := (h.answered n hn).resolve_left hleft
  generalize m.shared.events n = events at hanswered
  cases hanswered <;> exact ⟨_, rfl⟩

section Raced

open Collector

end Raced

section Alone

open Collector

/-- What is shared as a world of one thread. -/
def Shared.world (s : Shared World Nat) : World := { s.surroundings with propertyTool := s.slot }

theorem create_apply (w : World) :
    toolMaker.create w =
      ((Jvm.Tool.obtain w.link.machine).1.mapError Jvm.Tool.unavailable,
        { w with link := { w.link with machine := (Jvm.Tool.obtain w.link.machine).2 } }) := by
  change mapFailure _ _ w = _
  unfold mapFailure World.attemptMachine World.attemptLink Jvm.Link.checked
  rcases Jvm.Tool.obtain w.link.machine with ⟨e | tool, machine⟩ <;> rfl

theorem sharedTool_of_some {w : World} {tool : Nat} (h : w.propertyTool = some tool) :
    sharedTool w = (.ok tool, w) := by
  unfold sharedTool
  rw [Attempt.get_bind, h]
  rfl

theorem sharedTool_of_none {w : World} (h : w.propertyTool = none) :
    sharedTool w = match toolMaker.create w with
      | (.ok tool, w) => (.ok tool, { w with propertyTool := some tool })
      | (.error e, w) => (.error e, w) := by
  unfold sharedTool
  rw [Attempt.get_bind, h]
  change (toolMaker.create >>= _) w = _
  rw [bind_apply]
  rcases toolMaker.create w with ⟨e | tool, w'⟩ <;> rfl

/-- An undisturbed call for the environment does what a process with one thread does. -/
theorem toolMaker_alone {m : State World Nat} {t : Nat} (hidle : m.phases t = none) :
    ∃ n m', (routine World Nat).run m (.call t toolMaker :: List.replicate n (.go t)) = some m' ∧
      m'.phases = m.phases ∧ m'.shared.world = (sharedTool m.shared.world).2 ∧
      m'.shared.log.head? =
        some (m.shared.calls, .answered (sharedTool m.shared.world).1) := by
  cases hslot : m.shared.slot with
  | some tool =>
    have hlook : (routine World Nat).next t (.looking toolMaker) m.shared =
        some (none, m.shared.begin.note m.shared.calls (.answered (.ok tool))) := by
      simp only [routine, next, hslot]
    obtain ⟨n, hn⟩ := Routine.Alone.call hidle (.done hlook)
    refine ⟨n, _, hn, rfl, ?_⟩
    rw [sharedTool_of_some hslot]
    exact ⟨rfl, rfl⟩
  | none =>
    have hlook : (routine World Nat).next t (.looking toolMaker) m.shared =
        some (some (.creating m.shared.calls toolMaker), m.shared.begin) := by
      simp only [routine, next, hslot]
    -- Making an environment is nothing to the slot.
    have halone : toolMaker.create m.shared.world =
        ((toolMaker.create m.shared.surroundings).1,
          { (toolMaker.create m.shared.surroundings).2 with propertyTool := none }) := by
      simp only [create_apply, Shared.world, hslot]
    rw [sharedTool_of_none hslot, halone]
    rcases hcreate : toolMaker.create m.shared.surroundings with ⟨e | tool, w⟩
    · obtain ⟨n, hn⟩ := Routine.Alone.call hidle (.step hlook (.done (by
        simp only [routine, next, Shared.begin, hcreate]; rfl)))
      refine ⟨n, _, hn, rfl, ?_, rfl⟩
      simp only [Shared.world, Shared.note, Shared.amid, hslot]
    · have hmade : (routine World Nat).next t (.creating m.shared.calls toolMaker) m.shared.begin =
          some (some (.filling m.shared.calls toolMaker tool),
            (m.shared.begin.amid w).note m.shared.calls (.created tool)) := by
        simp only [routine, next, Shared.begin, hcreate]
      obtain ⟨n, hn⟩ := Routine.Alone.call hidle (.step hlook (.step hmade (.done (by
        simp only [routine, next, Shared.begin, Shared.amid, Shared.note, hslot]; rfl))))
      exact ⟨n, _, hn, rfl, rfl, rfl⟩

end Alone

end ClassRecovery.Slot
