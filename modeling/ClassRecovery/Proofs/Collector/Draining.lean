import ClassRecovery.Proofs.Collector.Capability
import ClassRecovery.Proofs.Collector.Exactness

/-!
What is captured and when it goes. A collector is asked about classes one after the other, of an
instrument that may show it any class files while it is asked. A class file stays until its class is
asked for with success; a call gives away what was shown last for the name, be it of another loader.
-/

namespace ClassRecovery.Collector

/-- A collector at a point was asked about classes, the latest exchange first; what happens besides
leaves alone what the point has. -/
inductive Dialogue (n handle : Nat) (source : InstrumentSource) :
    List Exchange → World → World → Prop
  | start (w : World) : Dialogue n handle source [] w w
  | besides {xs : List Exchange} {w w₁ w₂ : World} (d : Dialogue n handle source xs w w₁)
      (h : Untouched n w₁ w₂) : Dialogue n handle source xs w w₂
  | asks {xs : List Exchange} {w w₁ : World} (d : Dialogue n handle source xs w w₁) (c : ClassRef)
      (r : Reaction) :
      Dialogue n handle source
        (⟨c, (pointGateway n handle source w₁).1.toBool, r,
          (readOver r.gateway n handle source c w₁).1⟩ :: xs)
        w (readOver r.gateway n handle source c w₁).2

/-- An exchange that takes away what was captured under the name. -/
def Exchange.takes (x : Exchange) (name : String) : Bool := x.fetches && name == x.cls.name

/-- What was shown since an exchange took away what was captured under the name. -/
def untaken (name : String) (xs : List Exchange) : List ClassFileEvent :=
  (xs.takeWhile fun x => !x.takes name).reverse.flatMap (·.shown)

/-- The bytes that a point keeps under a name. -/
def captured (n : Nat) (name : String) (w : World) : Option Bytes :=
  w.points[n]?.bind fun p => w.cached p.cache name

/-- How many names a point keeps bytes for. -/
def pending (n : Nat) (w : World) : Nat :=
  (w.points[n]?.map fun p => ((w.caches[p.cache]?).getD {}).size).getD 0

variable {n handle : Nat} {source : InstrumentSource} {xs : List Exchange} {p : CapturePoint}
  {w₀ w w' : World}

theorem untaken_cons (name : String) (x : Exchange) (xs : List Exchange) :
    untaken name (x :: xs) = if x.takes name then [] else untaken name xs ++ x.shown := by
  unfold untaken
  rw [List.takeWhile_cons]
  cases x.takes name <;> simp

theorem lastShown_eq_none_iff {name : String} {events : List ClassFileEvent} :
    lastShown name events = none ↔ ∀ e ∈ events, e.changes name = false := by
  simp [lastShown, List.findSome?_eq_none_iff, ClassFileEvent.bytesFor]

theorem exists_of_lastShown_eq_some {name : String} {events : List ClassFileEvent} {bytes : Bytes}
    (h : lastShown name events = some bytes) :
    ∃ before e after, events = before ++ e :: after ∧ e.changes name = true ∧ e.bytes = bytes ∧
      ∀ e' ∈ after, e'.changes name = false := by
  obtain ⟨after, e, before, hsplit, he, habsent⟩ := List.findSome?_eq_some_iff.mp h
  refine ⟨before.reverse, e, after.reverse, ?_, ?_⟩
  · rw [← List.reverse_inj, hsplit]
    simp
  · unfold ClassFileEvent.bytesFor at he habsent
    split at he
    next hc => exact ⟨hc, Option.some.inj he, by simpa using habsent⟩
    next => cases he

/-- A shown class file is there until an exchange takes it away, which none of these does. -/
theorem mem_untaken {name : String} {e : ClassFileEvent} :
    e ∈ untaken name xs ↔ ∃ later x earlier, xs = later ++ x :: earlier ∧ e ∈ x.shown ∧
      ∀ y ∈ later ++ [x], y.takes name = false := by
  induction xs with
  | nil => simp [untaken]
  | cons x xs ih =>
    rw [untaken_cons]
    constructor
    · intro he
      split at he
      next => cases he
      next hx =>
        rw [Bool.not_eq_true] at hx
        rcases List.mem_append.mp he with he | he
        · obtain ⟨later, y, earlier, rfl, hy, htakes⟩ := ih.mp he
          refine ⟨x :: later, y, earlier, rfl, hy, ?_⟩
          rw [List.cons_append]
          exact List.forall_mem_cons.mpr ⟨hx, htakes⟩
        · exact ⟨[], x, xs, rfl, he, by simpa using hx⟩
    · rintro ⟨later, y, earlier, hsplit, he, htakes⟩
      cases later with
      | nil =>
        cases hsplit
        rw [if_neg (by simpa using htakes)]
        exact List.mem_append_right _ he
      | cons _ later =>
        cases hsplit
        rw [List.cons_append] at htakes
        obtain ⟨hx, hrest⟩ := List.forall_mem_cons.mp htakes
        rw [if_neg (by simp [hx])]
        exact List.mem_append_left _ (ih.mpr ⟨later, y, earlier, rfl, he, hrest⟩)

theorem Serves.captured (h : Serves n p w) (name : String) :
    captured n name w = w.cached p.cache name := by
  simp [Collector.captured, h.point]

theorem Serves.pending_eq_zero_iff (h : Serves n p w) :
    pending n w = 0 ↔ ∀ name, w.cached p.cache name = none := by
  have hroom := h.room
  have hget : w.caches[p.cache]? = some w.caches[p.cache] := Array.getElem?_eq_getElem hroom
  have hpending : pending n w = w.caches[p.cache].size := by
    simp [pending, h.point, hget]
  have hcached : ∀ name, w.cached p.cache name = w.caches[p.cache].get? name := by
    intro name
    simp [World.cached, hget]
  simp only [hpending, hcached]
  constructor
  · intro hsize name
    have hempty : w.caches[p.cache] = ⟨[]⟩ :=
      congrArg Table.mk (List.eq_nil_of_length_eq_zero hsize)
    rw [hempty]
    rfl
  · intro hnone
    rw [Table.eq_empty_of_get? _ hnone]
    rfl

theorem newPoint_serves (w : World) :
    Serves w.points.size { cache := w.caches.size } (newPoint w).2 where
  point := Array.getElem?_push_size
  room := by
    change w.caches.size < (w.caches.push {}).size
    simp
  stage := .closed rfl rfl

theorem newPoint_cached (w : World) (name : String) :
    (newPoint w).2.cached w.caches.size name = none := by
  have hempty : (newPoint w).2.caches[w.caches.size]? = some {} := Array.getElem?_push_size
  unfold World.cached
  rw [hempty]
  rfl

/-- What holds while a collector is asked: what is there are the class files that were shown last
and not taken yet, and a call that takes something gives that away. -/
structure Told (n : Nat) (xs : List Exchange) (w : World) : Prop where
  serves : ∃ p, Serves n p w ∧ ∀ name, w.cached p.cache name = lastShown name (untaken name xs)
  fetched : ∀ later x earlier, xs = later ++ x :: earlier → x.fetches = true →
    x.answer = .ok (lastShown x.cls.name (untaken x.cls.name earlier ++ x.shown))
  unfetched : ∀ later x earlier, xs = later ++ x :: earlier → x.fetches = false →
    ∀ bytes, x.answer ≠ .ok (some bytes)

theorem Told.asks {x : Exchange} (h : Told n xs w)
    (hserves : Serves n p w') (hsettles : Settles x (fun name => lastShown name (untaken name xs))
      (w'.cached p.cache)) : Told n (x :: xs) w' where
  serves := by
    refine ⟨p, hserves, fun name => ?_⟩
    rw [hsettles.left, untaken_cons, Exchange.takes]
    by_cases hx : x.fetches = true ∧ name = x.cls.name
    · rw [if_pos hx, if_pos (by simpa using hx)]
      rfl
    · rw [if_neg hx, if_neg (by simpa using hx), lastShown_append]
  fetched := by
    intro later y earlier hsplit hy
    cases later with
    | nil =>
      cases hsplit
      rw [hsettles.fetched hy, lastShown_append]
    | cons _ later =>
      cases hsplit
      exact h.fetched later y earlier rfl hy
  unfetched := by
    intro later y earlier hsplit hy
    cases later with
    | nil =>
      cases hsplit
      exact hsettles.unfetched hy
    | cons _ later =>
      cases hsplit
      exact h.unfetched later y earlier rfl hy

/-- By induction on what happens, from a collector that was just made. -/
theorem Dialogue.told (hsource : ∀ w, Untouched n w (source.acquire w).2)
    (d : Dialogue n handle source xs w w') (h : Told n [] w) : Told n xs w' := by
  induction d with
  | start w => exact h
  | besides _ hu ih =>
    obtain ⟨⟨p, hp, hcached⟩, hfetched, hunfetched⟩ := ih h
    obtain ⟨hp', hsame⟩ := hp.untouched hu
    exact ⟨⟨p, hp', fun name => (hsame name).trans (hcached name)⟩, hfetched, hunfetched⟩
  | asks _ c r ih =>
    have ht := ih h
    obtain ⟨p, hp, hcached⟩ := ht.serves
    obtain ⟨p', answer, w₂, hrun, hp', hcache, hsettles⟩ := readOver_settles hp hsource c r
    rw [hrun]
    rw [funext hcached, ← hcache] at hsettles
    exact ht.asks hp' hsettles

theorem told_newPoint (hnew : newPoint w₀ = (n, w)) : Told n [] w := by
  cases hnew
  exact ⟨⟨_, newPoint_serves w₀, newPoint_cached w₀⟩, by simp, by simp⟩

theorem changes_iff {e : ClassFileEvent} {name : String} :
    e.changes name = true ↔ ∃ c, e.redefined = some c ∧ c.name = name := by
  simp [ClassFileEvent.changes, Option.any_eq_true]

theorem takes_iff {x : Exchange} {name : String} :
    x.takes name = true ↔ x.fetches = true ∧ x.cls.name = name := by
  unfold Exchange.takes
  rw [Bool.and_eq_true, beq_iff_eq]
  exact and_congr_right fun _ => eq_comm

/-- Whatever a collector was asked and the instrument did, there is kept what was shown last for each
name and not taken since. So nothing is pending if and only if each class file that was shown was
followed by an exchange about its class, its own or a later one, that was let to the end. -/
theorem pending_until_taken (hsource : ∀ w, Untouched n w (source.acquire w).2)
    (hnew : newPoint w₀ = (n, w)) (d : Dialogue n handle source xs w w') :
    (∀ name, captured n name w' = lastShown name (untaken name xs)) ∧
      (pending n w' = 0 ↔ ∀ later x earlier, xs = later ++ x :: earlier → ∀ e ∈ x.shown,
        ∀ c, e.redefined = some c → ∃ y ∈ later ++ [x], y.fetches = true ∧ y.cls.name = c.name) := by
  obtain ⟨p, hp, hcached⟩ := (d.told hsource (told_newPoint hnew)).serves
  refine ⟨fun name => (hp.captured name).trans (hcached name), ?_⟩
  rw [hp.pending_eq_zero_iff]
  constructor
  · intro hnone later x earlier hsplit e he c hc
    -- If nobody took it, its bytes would still be there.
    by_contra htaken
    have hmem : e ∈ untaken c.name xs := by
      refine mem_untaken.mpr ⟨later, x, earlier, hsplit, he, fun y hy => ?_⟩
      rw [← Bool.not_eq_true, takes_iff]
      exact fun hy' => htaken ⟨y, hy, hy'⟩
    have hshown := lastShown_eq_none_iff.mp ((hcached c.name).symm.trans (hnone c.name)) e hmem
    rw [changes_iff.mpr ⟨c, hc, rfl⟩] at hshown
    cases hshown
  · intro htaken name
    rw [hcached, lastShown_eq_none_iff]
    intro e he
    obtain ⟨later, x, earlier, hsplit, hx, hleft⟩ := mem_untaken.mp he
    rw [← Bool.not_eq_true, changes_iff]
    rintro ⟨c, hc, rfl⟩
    obtain ⟨y, hy, hy'⟩ := htaken later x earlier hsplit e hx c hc
    have htakes := hleft y hy
    rw [takes_iff.mpr hy'] at htakes
    cases htakes

/-- One who shows the class and then fails. -/
def failing : Reaction where
  supported := true
  modifiable := .ok true
  shown := [⟨none, some "a/B", some (Instrument.namedClass "a.B"), [1]⟩]
  result := .error (.attach "")

/-- What was shown before a failure stays. -/
theorem pending_until_taken_failing :
    pending 0 (readOver failing.gateway 0 0 (.fixed (.given 0)) (Instrument.namedClass "a.B")
      (newPoint occupied).2).2 ≠ 0 := by
  have start : Dialogue 0 0 (.fixed (.given 0)) [] (newPoint occupied).2 (newPoint occupied).2 :=
    .start _
  have d := start.asks (Instrument.namedClass "a.B") failing
  have hnew : newPoint occupied = (0, (newPoint occupied).2) := rfl
  rw [Ne, (pending_until_taken (fun w => .refl 0 w) hnew d).2]
  intro htaken
  obtain ⟨y, hy, hfetches, -⟩ := htaken [] _ [] rfl
    ⟨none, some "a/B", some (Instrument.namedClass "a.B"), [1]⟩ (List.mem_singleton_self _) _ rfl
  cases List.mem_singleton.mp hy
  cases hfetches

/-- Nor does a call that succeeds take what else was shown: one class was asked for, the other is
kept. -/
theorem shown_besides_stays_pending :
    (readLive 0 0 (.fixed (.given 0)) (Instrument.namedClass "a.B") (newPoint occupied).2).1 =
        .ok (some [1]) ∧
      pending 0 (readLive 0 0 (.fixed (.given 0)) (Instrument.namedClass "a.B")
        (newPoint occupied).2).2 = 1 := by
  constructor <;> cbv

/-- A call that gives bytes away, and meanwhile class files of changing classes of that name were
shown, gives the bytes of the last of them. -/
theorem answer_was_shown_last (hsource : ∀ w, Untouched n w (source.acquire w).2)
    (hnew : newPoint w₀ = (n, w)) (d : Dialogue n handle source xs w w')
    {later earlier : List Exchange} {x : Exchange} (hx : xs = later ++ x :: earlier) {bytes : Bytes}
    (hanswer : x.answer = .ok (some bytes)) (hshown : ∃ e ∈ x.shown, e.changes x.cls.name = true) :
    ∃ before e after, x.shown = before ++ e :: after ∧ e.changes x.cls.name = true ∧
      e.bytes = bytes ∧ ∀ e' ∈ after, e'.changes x.cls.name = false := by
  have ht := d.told hsource (told_newPoint hnew)
  cases hf : x.fetches with
  | false => exact absurd hanswer (ht.unfetched later x earlier hx hf bytes)
  | true =>
    apply exists_of_lastShown_eq_some
    have hlast := hanswer.symm.trans (ht.fetched later x earlier hx hf)
    rw [lastShown_append, Except.ok.injEq] at hlast
    cases hs : lastShown x.cls.name x.shown with
    | some last =>
      rw [hs, Option.some_or] at hlast
      exact hlast.symm
    | none =>
      obtain ⟨e, he, hchanges⟩ := hshown
      rw [lastShown_eq_none_iff.mp hs e he] at hchanges
      cases hchanges

/-- A class of one loader, and another of the same name. -/
def ofLoader (id : Nat) : ClassRef := ⟨"p.A", .topLevel, some (.given 0 id), .named⟩

/-- One who shows the class that was asked for and then its namesake. -/
def namesakes : Reaction where
  supported := true
  modifiable := .ok true
  shown := [⟨some (.given 0 1), some "p/A", some (ofLoader 1), [1]⟩,
    ⟨some (.given 0 2), some "p/A", some (ofLoader 2), [2]⟩]
  result := .ok ()

/-- The exchange with it. -/
def namesakeExchange : Exchange := ⟨ofLoader 1, true, namesakes, .ok (some [2])⟩

theorem dialogue_namesakes : ∃ w, Dialogue 0 0 (.fixed (.given 0)) [namesakeExchange]
    (newPoint occupied).2 w := by
  have hopened : (pointGateway 0 0 (.fixed (.given 0)) (newPoint occupied).2).1.toBool = true := by
    cbv
  have hanswer : (readOver namesakes.gateway 0 0 (.fixed (.given 0)) (ofLoader 1)
      (newPoint occupied).2).1 = .ok (some [2]) := by cbv
  have start : Dialogue 0 0 (.fixed (.given 0)) [] (newPoint occupied).2 (newPoint occupied).2 :=
    .start _
  have d := start.asks (ofLoader 1) namesakes
  rw [hopened, hanswer] at d
  exact ⟨_, d⟩

theorem answer_was_shown_last_namesakes :
    ∃ before e after, namesakeExchange.shown = before ++ e :: after ∧
      e.changes "p.A" = true ∧ e.bytes = [2] ∧ ∀ e' ∈ after, e'.changes "p.A" = false := by
  obtain ⟨w, d⟩ := dialogue_namesakes
  have hnew : newPoint occupied = (0, (newPoint occupied).2) := rfl
  have hsplit : [namesakeExchange] = [] ++ namesakeExchange :: [] := rfl
  exact answer_was_shown_last (fun w => .refl 0 w) hnew d hsplit rfl
    ⟨_, List.mem_cons_self, by decide⟩

/-- The bytes were shown for a class of another loader, and not for the class that was asked for. -/
theorem answer_of_namesake :
    ∃ x w, Dialogue 0 0 (.fixed (.given 0)) [x] (newPoint occupied).2 w ∧
      x.answer = .ok (some [2]) ∧
      ∀ e ∈ x.shown, ∀ c, e.redefined = some c → c.same x.cls = true → e.bytes ≠ [2] := by
  obtain ⟨w, d⟩ := dialogue_namesakes
  refine ⟨namesakeExchange, w, d, rfl, fun e he c hc hsame => ?_⟩
  rcases List.mem_cons.mp he with rfl | he
  · decide
  · cases List.mem_singleton.mp he
    cases hc
    exact absurd hsame (by decide)

end ClassRecovery.Collector
