import ClassRecovery.Instrument.Threads
import ClassRecovery.Proofs.Agent.Frame
import ClassRecovery.Proofs.Collector.FirstHit
import ClassRecovery.Proofs.Interleaving

/-!
However many threads ask one handle, with whatever sources, and however they come between each
other: no source is asked again after one has given an instrument, and all are answered with that
one. A failure leaves the handle empty, so that the next one can still fill it.
-/

namespace ClassRecovery.Handle

variable {handle : Nat} {w w' : World}

theorem held_congr (h : w'.handles[handle]? = w.handles[handle]?) :
    held handle w' = held handle w := congrArg Option.join h

/-- What a request comes to where the handle holds an instrument. -/
def Request.Gives (r : Request) (i j : Instrument) : Prop :=
  if r.wraps then ∃ g, j = .gateway g i else j = i

namespace Threads

theorem publish_eq (h : w.handles[handle]? = some none) (i : Instrument) :
    ∃ w', publish handle i w = (i, w') ∧ w'.handles[handle]? = some (some i) := by
  have hretain : Keeps (·.handles) i.retain := by
    cases i <;> exact fun _ => rfl
  have hkept : (i.retain w).2.handles[handle]? = some none := by
    rw [show (i.retain w).2.handles = w.handles from hretain w, h]
  have hfilled : ((i.retain w).2.handles.modify handle fun h => some (h.getD i))[handle]? =
      some (some i) := by
    simp [Array.getElem?_modify, hkept]
  refine ⟨_, Prod.ext ?_ rfl, hfilled⟩
  change (held handle { (i.retain w).2 with
    handles := (i.retain w).2.handles.modify handle fun h => some (h.getD i) }).getD i = i
  rw [held, hfilled]
  rfl

theorem hand_ok (r : Request) (i : Instrument) (w : World) :
    ∃ j w', hand r (.ok i) w = (.ok j, w') ∧ r.Gives i j ∧ w'.handles = w.handles := by
  unfold Request.Gives hand
  cases r.wraps with
  | false => exact ⟨i, w, rfl, rfl, rfl⟩
  | true =>
    have hretain : Keeps (·.handles) i.retain := by
      cases i <;> exact fun _ => rfl
    exact ⟨_, _, rfl, ⟨_, rfl⟩, hretain w⟩

/-- Every source failed and the handle is empty. -/
structure Empty (handle : Nat) (s : Shared) : Prop where
  held : held handle s.world = none
  failed : ∀ a ∈ s.acquired, a.isOk = false

/-- The source that was asked last gave an instrument, and all before it failed. -/
structure Obtained (i : Instrument) (s : Shared) : Prop where
  latest : s.acquired.head? = some (.ok i)
  failed : ∀ a ∈ s.acquired.tail, a.isOk = false

/-- What the handle holds is all that was ever obtained. -/
def Settled (handle : Nat) (s : Shared) : Prop :=
  Empty handle s ∨ ∃ i, held handle s.world = some i ∧ Obtained i s

/-- An answer tells what the handle holds, or is a failure that a chain passes over. -/
def Tells (handle : Nat) (w : World) : Answer → Prop
  | .ok i => held handle w = some i
  | .error e => e.isBootstrapFailure = true

def Phase.inside : Phase → Bool
  | .lookingAgain _ | .acquiring _ | .publishing _ _ | .unlocking _ _ => true
  | _ => false

def Phase.Relies (handle : Nat) (s : Shared) : Phase → Prop
  | .looking _ | .locking _ => True
  | .lookingAgain _ => Settled handle s
  | .acquiring _ => Empty handle s
  | .publishing _ i => held handle s.world = none ∧ Obtained i s
  | .unlocking _ answer => Settled handle s ∧ Tells handle s.world answer
  | .handing _ answer => Tells handle s.world answer

/-- An answered request was given what it asked for. -/
def Fulfils (handle : Nat) (w : World) (x : Request × Answer) : Prop :=
  match x.2 with
  | .ok j => ∃ i, held handle w = some i ∧ x.1.Gives i j
  | .error e => e.isBootstrapFailure = true

structure Sound (handle : Nat) (s : Shared) : Prop where
  slot : ∃ slot, s.world.handles[handle]? = some slot
  answered : ∀ x ∈ s.answered, Fulfils handle s.world x

def monitor (handle : Nat) : Routine.Monitor Shared Phase where
  holder := (·.holder)
  inside := Phase.inside
  Always := Sound handle
  Free := Settled handle
  Relies phase s := phase.Relies handle s

variable {s s' : Shared}

/-- A handle does not lose what it holds. -/
structure Grows (handle : Nat) (s s' : Shared) : Prop where
  slot : ∀ slot, s.world.handles[handle]? = some slot →
    ∃ slot', s'.world.handles[handle]? = some slot'
  held : ∀ i, held handle s.world = some i → Handle.held handle s'.world = some i

namespace Grows

theorem of_slot_eq (h : s'.world.handles[handle]? = s.world.handles[handle]?) :
    Grows handle s s' :=
  ⟨fun slot hs => ⟨slot, h.trans hs⟩, fun _ hi => (held_congr h).trans hi⟩

variable (h : Grows handle s s')

include h

theorem tells {answer : Answer} (ht : Tells handle s.world answer) :
    Tells handle s'.world answer := by
  cases answer with
  | ok i => exact h.held i ht
  | error e => exact ht

theorem relies {phase : Phase} (hout : phase.inside = false) (hs : phase.Relies handle s) :
    phase.Relies handle s' := by
  cases phase with
  | looking | locking => trivial
  | handing r answer => exact h.tells hs
  | lookingAgain | acquiring | publishing | unlocking => cases hout

theorem fulfils {x : Request × Answer} (hx : Fulfils handle s.world x) :
    Fulfils handle s'.world x := by
  obtain ⟨r, e | j⟩ := x
  · exact hx
  · obtain ⟨i, hi, hj⟩ := hx
    exact ⟨i, h.held i hi, hj⟩

theorem sound (hanswered : s'.answered = s.answered) (hs : Sound handle s) : Sound handle s' where
  slot := by
    obtain ⟨slot, hslot⟩ := hs.slot
    exact h.slot slot hslot
  answered x hx := h.fulfils (hs.answered x (hanswered ▸ hx))

end Grows

/-- Whoever is inside sees no difference. -/
structure Agrees (handle : Nat) (s s' : Shared) : Prop where
  slot : s'.world.handles[handle]? = s.world.handles[handle]?
  acquired : s'.acquired = s.acquired

namespace Agrees

theorem refl (s : Shared) : Agrees handle s s := ⟨rfl, rfl⟩

variable (h : Agrees handle s s')

include h

theorem empty (hs : Empty handle s) : Empty handle s' :=
  ⟨(held_congr h.slot).trans hs.held, by rw [h.acquired]; exact hs.failed⟩

theorem obtained {i : Instrument} (hs : Obtained i s) : Obtained i s' :=
  ⟨by rw [h.acquired]; exact hs.latest, by rw [h.acquired]; exact hs.failed⟩

theorem settled (hs : Settled handle s) : Settled handle s' :=
  hs.imp h.empty fun ⟨i, hi, hobtained⟩ =>
    ⟨i, (held_congr h.slot).trans hi, h.obtained hobtained⟩

theorem relies {phase : Phase} (hs : phase.Relies handle s) : phase.Relies handle s' := by
  have hgrows : Grows handle s s' := .of_slot_eq h.slot
  cases phase with
  | looking | locking => trivial
  | lookingAgain => exact h.settled hs
  | acquiring => exact h.empty hs
  | publishing r i => exact ⟨(held_congr h.slot).trans hs.1, h.obtained hs.2⟩
  | unlocking r answer => exact ⟨h.settled hs.1, hgrows.tells hs.2⟩
  | handing r answer => exact hgrows.tells hs

theorem outside {t : Nat} (hholder : s'.holder = s.holder) :
    (monitor handle).Turn t s s' false false :=
  .outside hholder h.settled fun _ _ => h.relies

end Agrees

/-- Nothing but the place of the thread is different. -/
theorem passes_same {t : Nat} {phase next : Phase} (hs : Sound handle s)
    (hnext : next.Relies handle s) (hinside : next.inside = phase.inside) :
    (monitor handle).Passes t phase s (some next) s where
  always := hs
  relies := by
    rintro _ ⟨⟩
    exact hnext
  others _ _ h := h
  turn := by
    rw [Option.any_some, show (monitor handle).inside next = _ from hinside]
    change (monitor handle).Turn t s s phase.inside phase.inside
    cases phase.inside with
    | false => exact (Agrees.refl s).outside rfl
    | true => exact .works rfl

theorem empty_of_settled (hs : Settled handle s) (h : held handle s.world = none) :
    Empty handle s := by
  rcases hs with hs | ⟨i, hi, -⟩
  · exact hs
  · rw [h] at hi
    cases hi

/-- The source is asked by the one who found the handle empty under the lock. -/
theorem passes_acquiring {t : Nat} {r : Request} (hs : Sound handle s) (hempty : Empty handle s)
    {next : Option Phase} (h : Threads.next handle t (.acquiring r) s = some (next, s')) :
    (monitor handle).Passes t (.acquiring r) s next s' := by
  have hkeeps := r.source.acquire_keeps s.world
  simp only [Threads.next] at h
  rcases hrun : r.source.acquire s.world with ⟨e | i, world⟩ <;> simp only [hrun] at h hkeeps <;>
    cases h
  · have hslot : world.handles[handle]? = s.world.handles[handle]? := by rw [hkeeps]
    have hgrows : Grows handle s { s with world, acquired := .error e :: s.acquired } :=
      .of_slot_eq hslot
    refine ⟨hgrows.sound rfl hs, ?_, fun _ => hgrows.relies, .works rfl⟩
    rintro _ ⟨⟩
    refine ⟨.inl ⟨(held_congr hslot).trans hempty.held, ?_⟩, e.isBootstrapFailure_asBootstrapFailure⟩
    exact List.forall_mem_cons.mpr ⟨rfl, hempty.failed⟩
  · have hslot : world.handles[handle]? = s.world.handles[handle]? := by rw [hkeeps]
    have hgrows : Grows handle s { s with world, acquired := .ok i :: s.acquired } :=
      .of_slot_eq hslot
    refine ⟨hgrows.sound rfl hs, ?_, fun _ => hgrows.relies, .works rfl⟩
    rintro _ ⟨⟩
    exact ⟨(held_congr hslot).trans hempty.held, rfl, hempty.failed⟩

theorem passes_publishing {t : Nat} {r : Request} {i : Instrument} (hs : Sound handle s)
    (hnone : held handle s.world = none) (hobtained : Obtained i s)
    {next : Option Phase} (h : Threads.next handle t (.publishing r i) s = some (next, s')) :
    (monitor handle).Passes t (.publishing r i) s next s' := by
  obtain ⟨slot, hslot⟩ := hs.slot
  obtain rfl : slot = none := by
    rw [held, hslot] at hnone
    exact hnone
  obtain ⟨world, hrun, hfilled⟩ := publish_eq hslot i
  simp only [Threads.next, hrun] at h
  cases h
  have hheld : held handle world = some i := by rw [held, hfilled]; rfl
  have hgrows : Grows handle s { s with world } := by
    refine ⟨fun _ _ => ⟨_, hfilled⟩, fun j hj => ?_⟩
    rw [hnone] at hj
    cases hj
  refine ⟨hgrows.sound rfl hs, ?_, fun _ => hgrows.relies, .works rfl⟩
  rintro _ ⟨⟩
  exact ⟨.inr ⟨i, hheld, hobtained.latest, hobtained.failed⟩, hheld⟩

theorem passes_handing {t : Nat} {r : Request} {answer : Answer} (hs : Sound handle s)
    (htells : Tells handle s.world answer) {next : Option Phase}
    (h : Threads.next handle t (.handing r answer) s = some (next, s')) :
    (monitor handle).Passes t (.handing r answer) s next s' := by
  have hanswered : ∃ answer' world, hand r answer s.world = (answer', world) ∧
      world.handles = s.world.handles ∧ Fulfils handle s.world (r, answer') := by
    cases answer with
    | error e => exact ⟨.error e, s.world, rfl, rfl, htells⟩
    | ok i =>
      obtain ⟨j, world, hrun, hgives, hhandles⟩ := hand_ok r i s.world
      exact ⟨.ok j, world, hrun, hhandles, i, htells, hgives⟩
  obtain ⟨answer', world, hrun, hhandles, hfulfils⟩ := hanswered
  simp only [Threads.next, hrun] at h
  cases h
  have hslot : world.handles[handle]? = s.world.handles[handle]? := by rw [hhandles]
  have hagrees : Agrees handle s { s with world, answered := (r, answer') :: s.answered } :=
    ⟨hslot, rfl⟩
  have hgrows : Grows handle s { s with world, answered := (r, answer') :: s.answered } :=
    .of_slot_eq hslot
  refine ⟨⟨?_, ?_⟩, nofun, fun _ => hgrows.relies, hagrees.outside rfl⟩
  · obtain ⟨slot, hs⟩ := hs.slot
    exact hgrows.slot slot hs
  · exact List.forall_mem_cons.mpr ⟨hgrows.fulfils hfulfils, fun x hx =>
      hgrows.fulfils (hs.answered x hx)⟩

theorem besides_eq {world : World} (h : besides handle world s = some s') :
    Agrees handle s s' ∧ s' = { s with world } := by
  unfold besides at h
  split at h <;> cases h
  exact ⟨⟨‹_›, rfl⟩, rfl⟩

theorem guards (handle : Nat) : (monitor handle).Guards (routine handle) where
  outside _ := rfl
  start _ _ _ := trivial
  next {t phase s next s'} h hs hrelies hfree := by
    change Threads.next handle t phase s = some (next, s') at h
    have hs : Sound handle s := hs
    cases phase with
    | looking r =>
      simp only [Threads.next] at h
      split at h <;> cases h
      · exact passes_same hs ‹_› rfl
      · exact passes_same hs trivial rfl
    | locking r =>
      simp only [Threads.next] at h
      split at h <;> cases h
      have hagrees : Agrees handle s { s with holder := some t } := ⟨rfl, rfl⟩
      refine ⟨⟨hs.slot, hs.answered⟩, ?_, fun _ _ => hagrees.relies, .enters ‹_› rfl⟩
      rintro _ ⟨⟩
      exact hagrees.settled (hfree ‹_›)
    | lookingAgain r =>
      simp only [Threads.next] at h
      split at h <;> cases h
      · exact passes_same hs ⟨hrelies, ‹_›⟩ rfl
      · exact passes_same hs (empty_of_settled hrelies ‹_›) rfl
    | acquiring r => exact passes_acquiring hs hrelies h
    | publishing r i => exact passes_publishing hs hrelies.1 hrelies.2 h
    | unlocking r answer =>
      cases h
      have hagrees : Agrees handle s { s with holder := none } := ⟨rfl, rfl⟩
      refine ⟨⟨hs.slot, hs.answered⟩, ?_, fun _ _ => hagrees.relies,
        .leaves rfl (hagrees.settled hrelies.1)⟩
      rintro _ ⟨⟩
      exact hrelies.2
    | handing r answer => exact passes_handing hs hrelies h
  holder h := by
    obtain ⟨-, rfl⟩ := besides_eq h
    rfl
  always h hs := by
    obtain ⟨hagrees, rfl⟩ := besides_eq h
    exact (Grows.of_slot_eq hagrees.slot).sound rfl hs
  free h hs := (besides_eq h).1.settled hs
  relies h _ hs := (besides_eq h).1.relies hs

theorem safe_run (hnew : w.handles[handle]? = some none)
    {moves : List (Routine.Move Request World)} {m : Routine.State Shared Phase}
    (hrun : (routine handle).run (start w) moves = some m) : (monitor handle).Safe m := by
  refine (guards handle).safe_run (Routine.Monitor.safe_start ?_ rfl ?_) hrun
  · exact ⟨⟨none, hnew⟩, fun _ hx => by cases hx⟩
  · exact .inl ⟨congrArg Option.join hnew, fun _ ha => by cases ha⟩

variable {m : Routine.State Shared Phase}

theorem getOrAcquire_of_held {i : Instrument} (h : held handle w = some i)
    (source : InstrumentSource) : getOrAcquire handle source w = (.ok i, w) := by
  unfold getOrAcquire
  rw [Attempt.get_bind, h]
  rfl

theorem getOrAcquire_of_error {source : InstrumentSource} {e : Error}
    (h : held handle w = none) (hrun : source.acquire w = (.error e, w')) :
    getOrAcquire handle source w = (.error e.asBootstrapFailure, w') := by
  unfold getOrAcquire
  rw [Attempt.get_bind, h]
  simp only [bind_apply, mapFailure, hrun]

theorem getOrAcquire_of_ok {source : InstrumentSource} {i : Instrument}
    (h : held handle w = none) (hrun : source.acquire w = (.ok i, w')) :
    getOrAcquire handle source w = (.ok (publish handle i w').1, (publish handle i w').2) := by
  unfold getOrAcquire
  rw [Attempt.get_bind, h]
  simp only [bind_apply, mapFailure, hrun]
  rfl

theorem ask_eq (r : Request) (w : World) :
    r.ask handle w = hand r (getOrAcquire handle r.source w).1 (getOrAcquire handle r.source w).2 := by
  unfold Request.ask hand
  cases r.wraps with
  | false =>
    simp only [Bool.false_eq_true, ↓reduceIte]
    rcases getOrAcquire handle r.source w with ⟨e | i, w'⟩ <;> rfl
  | true =>
    simp only [↓reduceIte, gateway, bind_apply]
    rcases getOrAcquire handle r.source w with ⟨e | i, w'⟩ <;> rfl

/-- The sources that were asked, and the request that was answered, are noted; nothing else is
different from what one thread does. -/
theorem alone_ask {t : Nat} {s : Shared} (hfree : s.holder = none) (r : Request) :
    ∃ acquired, (routine handle).Alone t (.looking r) s
      ⟨(r.ask handle s.world).2, none, acquired,
        (r, (r.ask handle s.world).1) :: s.answered⟩ := by
  obtain ⟨w, holder, acquired, answered⟩ := s
  obtain rfl : holder = none := hfree
  rw [ask_eq]
  cases hheld : held handle w with
  | some i =>
    have hlooking : (routine handle).next t (.looking r) ⟨w, none, acquired, answered⟩ =
        some (some (.handing r (.ok i)), ⟨w, none, acquired, answered⟩) := by
      simp only [routine, Threads.next, hheld]
    rw [getOrAcquire_of_held hheld]
    exact ⟨acquired, .step hlooking (.done rfl)⟩
  | none =>
    have hlooking : (routine handle).next t (.looking r) ⟨w, none, acquired, answered⟩ =
        some (some (.locking r), ⟨w, none, acquired, answered⟩) := by
      simp only [routine, Threads.next, hheld]
    have hagain : (routine handle).next t (.lookingAgain r) ⟨w, some t, acquired, answered⟩ =
        some (some (.acquiring r), ⟨w, some t, acquired, answered⟩) := by
      simp only [routine, Threads.next, hheld]
    rcases hrun : r.source.acquire w with ⟨e | i, w'⟩
    · have hacquiring : (routine handle).next t (.acquiring r) ⟨w, some t, acquired, answered⟩ =
          some (some (.unlocking r (.error e.asBootstrapFailure)),
            ⟨w', some t, .error e :: acquired, answered⟩) := by
        simp only [routine, Threads.next, hrun]
      rw [getOrAcquire_of_error hheld hrun]
      exact ⟨.error e :: acquired, .step hlooking (.step rfl (.step hagain (.step hacquiring
        (.step rfl (.done rfl)))))⟩
    · have hacquiring : (routine handle).next t (.acquiring r) ⟨w, some t, acquired, answered⟩ =
          some (some (.publishing r i), ⟨w', some t, .ok i :: acquired, answered⟩) := by
        simp only [routine, Threads.next, hrun]
      rw [getOrAcquire_of_ok hheld hrun]
      exact ⟨.ok i :: acquired, .step hlooking (.step rfl (.step hagain (.step hacquiring
        (.step rfl (.step rfl (.done rfl))))))⟩

/-- A call that nobody comes between is a call of one thread. -/
theorem call_alone {t : Nat} (hidle : m.phases t = none)
    (hfree : m.shared.holder = none) (r : Request) :
    ∃ n m', (routine handle).run m (.call t r :: List.replicate n (.go t)) = some m' ∧
      m'.shared.world = (r.ask handle m.shared.world).2 ∧
      m'.shared.answered = (r, (r.ask handle m.shared.world).1) :: m.shared.answered := by
  obtain ⟨acquired, halone⟩ := alone_ask (t := t) hfree r
  obtain ⟨n, hn⟩ := Routine.Alone.call (r := r) hidle halone
  exact ⟨n, _, hn, rfl, rfl⟩

section Contended

/-- A process in which nobody asked for an instrument. -/
def quiet : World := { files := ⟨#[], []⟩ }

/-- Two threads find the handle empty. The first one's source fails; the second one, which waited
for the lock meanwhile, fills the handle; the first one then gets a gateway. -/
def contended : List (Routine.Move Request World) :=
  let failing : Request := ⟨.unavailable "", false⟩
  let giving : Request := ⟨.fixed (.given 0), false⟩
  [.call 0 failing, .call 1 giving, .go 0, .go 1, .go 0, .go 0, .go 0, .go 0, .go 1, .go 1, .go 1,
    .go 1, .go 1, .go 1, .go 0, .call 0 ⟨.unavailable "", true⟩, .go 0, .go 0]

end Contended

end Threads

end ClassRecovery.Handle
