import ClassRecovery.Jvm.Threads
import ClassRecovery.Proofs.Interleaving
import ClassRecovery.Proofs.Jvm.Numbering

/-!
However threads come between each other that ask one connection for loaders: each loader object gets
one number, no number is given to two, and no number is lost to a request that failed.
-/

namespace ClassRecovery.Jvm.Link.Threads

variable {i t id : Nat} {s s' : Shared} {r p : Reference} {l : Link}
  {m : Routine.State Shared Phase}

/-- The loaders that are known, in the order of their numbers. -/
def entries (i : Nat) (l : Link) : List (Nat × Reference) := ((table i l).map (·.1)).getD []

/-- The number that is given next. -/
def upcoming (i : Nat) (l : Link) : Nat := ((table i l).map (·.2)).getD 0

/-- An answer says what the table says. -/
def Tells (i : Nat) (es : List (Nat × Reference)) (o : Option Reference) (a : Answer) : Prop :=
  match o, a with
  | none, a => a = .ok none
  | some r, .ok x => ∃ e ∈ es, e.2.object = r.object ∧ x = some (.object i e.1)
  | some _, .error _ => True

/-- Somebody was given the number. -/
def Told (i : Nat) (s : Shared) (id : Nat) : Prop :=
  ∃ r, (some r, .ok (some (.object i id))) ∈ s.answered

/-- No number is given but to those who were told. -/
structure Settled (i : Nat) (s : Shared) : Prop where
  upcoming : upcoming i s.link = Loader.bootId + 1 + (entries i s.link).length
  told : ∀ e ∈ entries i s.link, Told i s e.1

def Misses (i : Nat) (l : Link) (r : Reference) : Prop :=
  ∀ e ∈ entries i l, e.2.object ≠ r.object

def Phase.inside : Phase → Bool
  | .asking _ | .locking _ => false
  | _ => true

def Phase.Relies (i : Nat) (s : Shared) : Phase → Prop
  | .asking _ | .locking _ => True
  | .comparing r n =>
    Settled i s ∧ ∀ e ∈ (entries i s.link).take n, e.2.object ≠ r.object
  | .pinning r => Settled i s ∧ Misses i s.link r
  | .numbering r p => Settled i s ∧ Misses i s.link r ∧ p.object = r.object
  | .adding r p id =>
    (∀ e ∈ entries i s.link, Told i s e.1) ∧ Misses i s.link r ∧ p.object = r.object ∧
      id = Loader.bootId + 1 + (entries i s.link).length ∧ upcoming i s.link = id + 1
  | .unlocking r a =>
    upcoming i s.link = Loader.bootId + 1 + (entries i s.link).length ∧
      Tells i (entries i s.link) (some r) a ∧
      ∀ e ∈ entries i s.link, a = .ok (some (.object i e.1)) ∨ Told i s e.1

/-- The numbers are given without a gap, each to an object of its own, and all answers are right. -/
structure Sound (i : Nat) (s : Shared) : Prop where
  there : (table i s.link).isSome
  numbers : (entries i s.link).map (·.1) =
    List.range' (Loader.bootId + 1) (entries i s.link).length
  objects : ((entries i s.link).map (·.2.object)).Nodup
  answered : ∀ x ∈ s.answered, Tells i (entries i s.link) x.1 x.2

def monitor (i : Nat) : Routine.Monitor Shared Phase where
  holder := (·.holder)
  inside := Phase.inside
  Always := Sound i
  Free := Settled i
  Relies phase s := phase.Relies i s

/-! ### What does not touch the table -/

/-- The table is the same, and nothing that was answered is taken back. -/
structure Grows (i : Nat) (s s' : Shared) : Prop where
  table : table i s'.link = table i s.link
  answered : s.answered ⊆ s'.answered

namespace Grows

variable (h : Grows i s s')

include h

theorem entries : entries i s'.link = entries i s.link := by
  unfold Threads.entries
  rw [h.table]

theorem upcoming : upcoming i s'.link = upcoming i s.link := by
  unfold Threads.upcoming
  rw [h.table]

theorem told {id : Nat} (ht : Told i s id) : Told i s' id :=
  ht.imp fun _ hr => h.answered hr

theorem settled (hs : Settled i s) : Settled i s' where
  upcoming := by rw [h.upcoming, h.entries, hs.upcoming]
  told e he := h.told (hs.told e (h.entries ▸ he))

theorem misses (hs : Misses i s.link r) : Misses i s'.link r := by
  unfold Misses
  rw [h.entries]
  exact hs

theorem relies {phase : Phase} (hs : phase.Relies i s) : phase.Relies i s' := by
  cases phase with
  | asking | locking => trivial
  | comparing r n => exact ⟨h.settled hs.1, by rw [h.entries]; exact hs.2⟩
  | pinning r => exact ⟨h.settled hs.1, h.misses hs.2⟩
  | numbering r p => exact ⟨h.settled hs.1, h.misses hs.2.1, hs.2.2⟩
  | adding r p id =>
    obtain ⟨htold, hmisses, hp, hid, hnext⟩ := hs
    refine ⟨fun e he => h.told (htold e (h.entries ▸ he)), h.misses hmisses, hp, ?_, ?_⟩
    · rw [h.entries, hid]
    · rw [h.upcoming, hnext]
  | unlocking r a =>
    obtain ⟨hnext, htells, htold⟩ := hs
    refine ⟨by rw [h.upcoming, h.entries, hnext], by rw [h.entries]; exact htells, fun e he => ?_⟩
    exact (htold e (h.entries ▸ he)).imp_right h.told

theorem sound (hanswered : ∀ x ∈ s'.answered, Tells i (Threads.entries i s.link) x.1 x.2)
    (hs : Sound i s) : Sound i s' where
  there := by rw [h.table]; exact hs.there
  numbers := by rw [h.entries]; exact hs.numbers
  objects := by rw [h.entries]; exact hs.objects
  answered := by rw [h.entries]; exact hanswered

end Grows

/-- Outside nobody relies on anything. -/
theorem relies_outside {phase : Phase} (hout : phase.inside = false) : phase.Relies i s := by
  cases phase with
  | asking | locking => trivial
  | comparing | pinning | numbering | adding | unlocking => cases hout

/-- A step inside. -/
theorem passes_inside {phase next : Phase} (hs : Sound i s') (hnext : next.Relies i s')
    (hinside : phase.inside = true) (hinside' : next.inside = true)
    (hholder : s'.holder = s.holder) : (monitor i).Passes t phase s (some next) s' where
  always := hs
  relies := by
    rintro _ ⟨⟩
    exact hnext
  others _ hout _ := relies_outside hout
  turn := by
    rw [Option.any_some, show (monitor i).inside next = true from hinside',
      show (monitor i).inside phase = true from hinside]
    exact .works hholder

/-! ### What is done with the table -/

theorem knownLoaders_entries (i : Nat) (l : Link) :
    (knownLoaders i l).map (fun k => (k.id, k.reference)) = entries i l := by
  unfold knownLoaders entries table
  cases l.connections[i]? <;> rfl

theorem passes_comparing {n : Nat} (hs : Sound i s) (hsettled : Settled i s)
    (hfirst : ∀ e ∈ (entries i s.link).take n, e.2.object ≠ r.object) {next : Option Phase}
    (h : Threads.next i t (.comparing r n) s = some (next, s')) :
    (monitor i).Passes t (.comparing r n) s next s' := by
  have hentry : (entries i s.link)[n]? =
      (knownLoaders i s.link)[n]?.map fun k => (k.id, k.reference) := by
    rw [← knownLoaders_entries, List.getElem?_map]
  simp only [Threads.next] at h
  split at h
  · next k hk =>
    rw [hk] at hentry
    split at h <;> cases h
    · next hsame =>
      refine passes_inside hs ⟨hsettled.upcoming, ⟨_, List.mem_of_getElem? hentry, hsame, rfl⟩,
        fun e he => .inr (hsettled.told e he)⟩ rfl rfl rfl
    · next hother =>
      refine passes_inside hs ⟨hsettled, fun e he => ?_⟩ rfl rfl rfl
      rw [List.take_add_one, hentry] at he
      rcases List.mem_append.mp he with he | he
      · exact hfirst e he
      · obtain rfl := List.mem_singleton.mp he
        exact hother
  · next hnone =>
    cases h
    refine passes_inside hs ⟨hsettled, fun e he => hfirst e ?_⟩ rfl rfl rfl
    rw [hnone] at hentry
    rwa [List.take_of_length_le (List.getElem?_eq_none_iff.mp hentry)]

theorem passes_pinning (hs : Sound i s) (hsettled : Settled i s) (hmisses : Misses i s.link r)
    {next : Option Phase} (h : Threads.next i t (.pinning r) s = some (next, s')) :
    (monitor i).Passes t (.pinning r) s next s' := by
  simp only [Threads.next, native] at h
  rcases hpin : pin r.object s.link.machine with ⟨_ | p, machine⟩ <;> simp only [hpin] at h <;>
    cases h
  · have hgrows : Grows i s { s with link := { s.link with machine } } := ⟨rfl, List.Subset.refl _⟩
    refine passes_inside (hgrows.sound hs.answered hs) ?_ rfl rfl rfl
    exact ⟨(hgrows.settled hsettled).upcoming, trivial, fun e he =>
      .inr ((hgrows.settled hsettled).told e he)⟩
  · have hgrows : Grows i s { s with link := { s.link with machine } } := ⟨rfl, List.Subset.refl _⟩
    refine passes_inside (hgrows.sound hs.answered hs) ?_ rfl rfl rfl
    exact ⟨hgrows.settled hsettled, hgrows.misses hmisses,
      pin_object (m := s.link.machine) (congrArg Prod.fst hpin)⟩

theorem table_update {f : Connection → Connection} {c : Connection}
    (hc : s.link.connections[i]? = some c) :
    table i (s.update i f).link =
      some ((f c).loaders.map (fun k => (k.id, k.reference)), (f c).nextId) := by
  unfold table Shared.update
  rw [updateConnection_apply]
  simp [Array.getElem?_modify, hc]

theorem exists_connection (hs : Sound i s) : ∃ c, s.link.connections[i]? = some c ∧
    entries i s.link = c.loaders.map (fun k => (k.id, k.reference)) ∧
      upcoming i s.link = c.nextId := by
  have hthere := hs.there
  unfold table at hthere
  obtain ⟨c, hc⟩ := Option.isSome_iff_exists.mp (by simpa using hthere :
    (s.link.connections[i]?).isSome)
  refine ⟨c, hc, ?_, ?_⟩
  · unfold entries table
    rw [hc]
    rfl
  · unfold upcoming table
    rw [hc]
    rfl

theorem passes_numbering (hs : Sound i s) (hsettled : Settled i s) (hmisses : Misses i s.link r)
    (hp : p.object = r.object) {next : Option Phase}
    (h : Threads.next i t (.numbering r p) s = some (next, s')) :
    (monitor i).Passes t (.numbering r p) s next s' := by
  obtain ⟨c, hc, hentries, hnext⟩ := exists_connection hs
  simp only [Threads.next, hc, Option.map_some, Option.getD_some] at h
  cases h
  have htable := table_update (f := fun c => { c with nextId := c.nextId + 1 }) hc
  have hentries' : entries i (s.update i fun c => { c with nextId := c.nextId + 1 }).link =
      entries i s.link := by
    rw [entries, htable, hentries]
    rfl
  refine passes_inside ⟨by rw [htable]; rfl, ?_, ?_, ?_⟩ ⟨?_, ?_, hp, ?_, ?_⟩ rfl rfl rfl
  · rw [hentries']
    exact hs.numbers
  · rw [hentries']
    exact hs.objects
  · rw [hentries']
    exact hs.answered
  · rw [hentries']
    exact hsettled.told
  · unfold Misses
    rw [hentries']
    exact hmisses
  · rw [hentries', ← hsettled.upcoming, hnext]
  · rw [upcoming, htable]
    rfl

theorem Tells.mono {es es' : List (Nat × Reference)} (hes : es ⊆ es') {o : Option Reference}
    {a : Answer} (h : Tells i es o a) : Tells i es' o a := by
  match o, a with
  | none, a => exact h
  | some r, .ok x =>
    obtain ⟨e, he, hx⟩ := h
    exact ⟨e, hes he, hx⟩
  | some _, .error _ => trivial

theorem passes_adding (hs : Sound i s) (htold : ∀ e ∈ entries i s.link, Told i s e.1)
    (hmisses : Misses i s.link r) (hp : p.object = r.object)
    (hid : id = Loader.bootId + 1 + (entries i s.link).length)
    (hnext : upcoming i s.link = id + 1) {next : Option Phase}
    (h : Threads.next i t (.adding r p id) s = some (next, s')) :
    (monitor i).Passes t (.adding r p id) s next s' := by
  obtain ⟨c, hc, hentries, hupcoming⟩ := exists_connection hs
  cases h
  have htable := table_update
    (f := fun c => { c with loaders := c.loaders ++ [{ id, reference := p }] }) hc
  have hentries' : entries i (s.update i
      fun c => { c with loaders := c.loaders ++ [{ id, reference := p }] }).link =
        entries i s.link ++ [(id, p)] := by
    rw [entries, htable, hentries]
    simp
  refine passes_inside ⟨by rw [htable]; rfl, ?_, ?_, fun x hx => ?_⟩ ⟨?_, ?_, fun e he => ?_⟩
    rfl rfl rfl
  · rw [hentries', List.map_append, hs.numbers, List.length_append, List.length_singleton,
      List.range'_1_concat, hid]
    rfl
  · rw [hentries', List.map_append, List.nodup_append]
    refine ⟨hs.objects, by simp, fun o ho o' ho' => ?_⟩
    obtain ⟨e, he, rfl⟩ := List.mem_map.mp ho
    obtain rfl : o' = p.object := by simpa using ho'
    exact hp ▸ hmisses e he
  · rw [hentries']
    exact (hs.answered x hx).mono (List.subset_append_left _ _)
  · rw [upcoming, htable, hentries', List.length_append]
    change c.nextId = _ + (_ + 1)
    rw [← hupcoming, hnext, hid]
    rfl
  · rw [hentries']
    exact ⟨(id, p), List.mem_append_right _ List.mem_cons_self, hp, rfl⟩
  · rw [hentries'] at he
    rcases List.mem_append.mp he with he | he
    · exact .inr (htold e he)
    · obtain rfl := List.mem_singleton.mp he
      exact .inl rfl

theorem passes_unlocking {a : Answer} (hs : Sound i s)
    (hupcoming : upcoming i s.link = Loader.bootId + 1 + (entries i s.link).length)
    (htells : Tells i (entries i s.link) (some r) a)
    (htold : ∀ e ∈ entries i s.link, a = .ok (some (.object i e.1)) ∨ Told i s e.1)
    {next : Option Phase} (h : Threads.next i t (.unlocking r a) s = some (next, s')) :
    (monitor i).Passes t (.unlocking r a) s next s' := by
  cases h
  have hgrows : Grows i s ({ s with holder := none }.answer (some r) a) :=
    ⟨rfl, List.subset_cons_self _ _⟩
  refine ⟨hgrows.sound (List.forall_mem_cons.mpr ⟨htells, hs.answered⟩) hs, nofun,
    fun _ hout _ => relies_outside hout, .leaves rfl ⟨hupcoming, fun e he => ?_⟩⟩
  rcases htold e he with rfl | htold
  · exact ⟨r, List.mem_cons_self⟩
  · exact hgrows.told htold

theorem besides_eq {link : Link} (h : besides i link s = some s') :
    Grows i s s' ∧ s' = { s with link } := by
  unfold besides at h
  split at h <;> cases h
  exact ⟨⟨‹_›, List.Subset.refl _⟩, rfl⟩

theorem guards (i : Nat) : (monitor i).Guards (routine i) where
  outside _ := rfl
  start _ _ _ := trivial
  next {t phase s next s'} h hs hrelies hfree := by
    change Threads.next i t phase s = some (next, s') at h
    have hs : Sound i s := hs
    cases phase with
    | asking o =>
      cases o with
      | none =>
        cases h
        have hgrows : Grows i s (s.answer none (.ok none)) := ⟨rfl, List.subset_cons_self _ _⟩
        exact ⟨hgrows.sound (List.forall_mem_cons.mpr ⟨rfl, hs.answered⟩) hs, nofun,
          fun _ hout _ => relies_outside hout,
          .outside rfl hgrows.settled fun _ _ => hgrows.relies⟩
      | some r =>
        cases h
        refine ⟨hs, ?_, fun _ _ h => h, .outside rfl id fun _ _ => id⟩
        rintro _ ⟨⟩
        trivial
    | locking r =>
      simp only [Threads.next] at h
      split at h <;> cases h
      have hgrows : Grows i s { s with holder := some t } := ⟨rfl, List.Subset.refl _⟩
      refine ⟨hgrows.sound hs.answered hs, ?_, fun _ hout _ => relies_outside hout,
        .enters ‹_› rfl⟩
      rintro _ ⟨⟩
      exact ⟨hgrows.settled (hfree ‹_›), fun e he => nomatch he⟩
    | comparing r n => exact passes_comparing hs hrelies.1 hrelies.2 h
    | pinning r => exact passes_pinning hs hrelies.1 hrelies.2 h
    | numbering r p => exact passes_numbering hs hrelies.1 hrelies.2.1 hrelies.2.2 h
    | adding r p id =>
      obtain ⟨htold, hmisses, hp, hid, hnext⟩ := hrelies
      exact passes_adding hs htold hmisses hp hid hnext h
    | unlocking r a => exact passes_unlocking hs hrelies.1 hrelies.2.1 hrelies.2.2 h
  holder h := by
    obtain ⟨-, rfl⟩ := besides_eq h
    rfl
  always h hs := by
    obtain ⟨hgrows, rfl⟩ := besides_eq h
    exact hgrows.sound hs.answered hs
  free h hs := (besides_eq h).1.settled hs
  relies h _ hs := (besides_eq h).1.relies hs

theorem table_connect (l : Link) :
    table l.connections.size (connect l).2 = some ([], Loader.bootId + 1) := by
  change (l.connections.push {})[l.connections.size]?.map _ = _
  rw [Array.getElem?_push_size]
  rfl

theorem safe_run {moves : List (Routine.Move (Option Reference) Link)}
    (hrun : (routine l.connections.size).run (start l) moves = some m) :
    (monitor l.connections.size).Safe m := by
  have hentries : entries l.connections.size (connect l).2 = [] := by
    rw [entries, table_connect]
    rfl
  refine (guards l.connections.size).safe_run (Routine.Monitor.safe_start ?_ rfl ?_) hrun
  · refine ⟨?_, ?_, ?_, nofun⟩
    · change (table l.connections.size (connect l).2).isSome
      rw [table_connect]
      rfl
    · rw [hentries]
      rfl
    · rw [hentries]
      exact List.nodup_nil
  · refine ⟨?_, ?_⟩
    · rw [hentries, upcoming, table_connect]
      rfl
    · rw [hentries]
      exact nofun

/-! ### Numbers and objects -/

/-- A thread is about to answer with a number. -/
def Answering (i : Nat) (m : Routine.State Shared Phase) (id : Nat) : Prop :=
  ∃ t r, (∃ p, m.phases t = some (.adding r p id)) ∨
    m.phases t = some (.unlocking r (.ok (some (.object i id))))

/-- Numbers stand for loader objects, one for one, and all that were given went to somebody who
asked. No object is the built-in loader, which is never numbered. -/
structure OneToOne (i : Nat) (m : Routine.State Shared Phase) : Prop where
  null : ∀ a, (none, a) ∈ m.shared.answered → a = .ok none
  agree : ∀ {r r' x x'}, (some r, .ok x) ∈ m.shared.answered →
    (some r', .ok x') ∈ m.shared.answered → ∃ id id', x = some (.object i id) ∧
      x' = some (.object i id') ∧ id ≠ Loader.bootId ∧ (id = id' ↔ r.object = r'.object)
  objects : ((entries i m.shared.link).map (·.2.object)).Nodup
  registered : ∀ e ∈ entries i m.shared.link, Told i m.shared e.1 ∨ Answering i m e.1
  used : ∀ id, Loader.bootId < id → id < upcoming i m.shared.link →
    Told i m.shared id ∨ Answering i m id

theorem Sound.lt_of_mem (hs : Sound i s) {e : Nat × Reference} (he : e ∈ entries i s.link) :
    Loader.bootId < e.1 := by
  have hmem := List.mem_map_of_mem (f := (·.1)) he
  rw [hs.numbers, List.mem_range'_1] at hmem
  exact hmem.1

theorem Sound.exists_entry (hs : Sound i s) (hid : Loader.bootId < id)
    (hlt : id < Loader.bootId + 1 + (entries i s.link).length) :
    ∃ e ∈ entries i s.link, e.1 = id := by
  have hmem : id ∈ (entries i s.link).map (·.1) := by
    rw [hs.numbers, List.mem_range'_1]
    exact ⟨hid, hlt⟩
  simpa using hmem

theorem Sound.agree (hs : Sound i s) {e e' : Nat × Reference} (he : e ∈ entries i s.link)
    (he' : e' ∈ entries i s.link) : e.1 = e'.1 ↔ e.2.object = e'.2.object := by
  have hnumbers : ((entries i s.link).map (·.1)).Nodup := hs.numbers ▸ List.nodup_range'
  constructor
  · intro heq
    rw [List.inj_on_of_nodup_map hnumbers he he' heq]
  · intro heq
    rw [List.inj_on_of_nodup_map hs.objects he he' heq]

/-- Who has the lock has at most one number in hand, and is going to answer with it. -/
theorem told_or_answering (h : (monitor i).Safe m) :
    (∀ e ∈ entries i m.shared.link, Told i m.shared e.1 ∨ Answering i m e.1) ∧
      ∀ id, Loader.bootId < id → id < upcoming i m.shared.link →
        Told i m.shared id ∨ Answering i m id := by
  have hsound : Sound i m.shared := h.always
  have hsettled : Settled i m.shared →
      (∀ e ∈ entries i m.shared.link, Told i m.shared e.1 ∨ Answering i m e.1) ∧
        ∀ id, Loader.bootId < id → id < upcoming i m.shared.link →
          Told i m.shared id ∨ Answering i m id := by
    refine fun hs => ⟨fun e he => .inl (hs.told e he), fun id hid hlt => ?_⟩
    obtain ⟨e, he, rfl⟩ := hsound.exists_entry hid (hs.upcoming ▸ hlt)
    exact .inl (hs.told e he)
  cases hholder : m.shared.holder with
  | none => exact hsettled (h.free hholder)
  | some t =>
    obtain ⟨phase, hphase, hinside⟩ := (Option.any_eq_true _ _).mp ((h.lock t).mp hholder)
    have hrelies : phase.Relies i m.shared := h.relies t phase hphase
    cases phase with
    | asking | locking => cases hinside
    | comparing | pinning | numbering => exact hsettled hrelies.1
    | adding r p id =>
      obtain ⟨htold, -, -, hid, hnext⟩ := hrelies
      refine ⟨fun e he => .inl (htold e he), fun id' hid' hlt => ?_⟩
      rcases Nat.lt_succ_iff_lt_or_eq.mp (hnext ▸ hlt) with hlt | rfl
      · obtain ⟨e, he, rfl⟩ := hsound.exists_entry hid' (hid ▸ hlt)
        exact .inl (htold e he)
      · exact .inr ⟨t, r, .inl ⟨p, hphase⟩⟩
    | unlocking r a =>
      obtain ⟨hnext, -, htold⟩ := hrelies
      have hentry : ∀ e ∈ entries i m.shared.link, Told i m.shared e.1 ∨ Answering i m e.1 := by
        intro e he
        rcases htold e he with rfl | htold
        · exact .inr ⟨t, r, .inr hphase⟩
        · exact .inl htold
      refine ⟨hentry, fun id hid hlt => ?_⟩
      obtain ⟨e, he, rfl⟩ := hsound.exists_entry hid (hnext ▸ hlt)
      exact hentry e he

/-- However the requests come between each other, and whatever fails. -/
theorem loaders_one_to_one {moves : List (Routine.Move (Option Reference) Link)}
    (hrun : (routine l.connections.size).run (start l) moves = some m) :
    OneToOne l.connections.size m := by
  have hsafe := safe_run hrun
  have hsound : Sound l.connections.size m.shared := hsafe.always
  obtain ⟨hregistered, hused⟩ := told_or_answering hsafe
  refine ⟨fun a ha => hsound.answered _ ha, fun {r r' x x'} hx hx' => ?_, hsound.objects,
    hregistered, hused⟩
  obtain ⟨e, he, hr, rfl⟩ := hsound.answered _ hx
  obtain ⟨e', he', hr', rfl⟩ := hsound.answered _ hx'
  refine ⟨e.1, e'.1, rfl, rfl, (hsound.lt_of_mem he).ne', ?_⟩
  rw [hsound.agree he he', hr, hr']

/-- Two threads ask for one loader, the second one while the first has the lock. -/
def together : List (Routine.Move (Option Reference) Link) :=
  [.call 1 (some ⟨1, .loader "a"⟩), .call 2 (some ⟨2, .loader "a"⟩), .go 1, .go 2, .go 1, .go 1, .go 1,
    .go 1, .go 1, .go 1, .go 2, .go 2, .go 2]

theorem loaders_one_to_one_together : ∃ m, (routine 0).run (start {}) together = some m ∧
    m.shared.answered = [(some ⟨2, .loader "a"⟩, .ok (some (.object 0 1))),
      (some ⟨1, .loader "a"⟩, .ok (some (.object 0 1)))] ∧ OneToOne 0 m := by
  have hanswered : ((routine 0).run (start {}) together).map (·.shared.answered) =
      some [(some ⟨2, .loader "a"⟩, .ok (some (.object 0 1))),
        (some ⟨1, .loader "a"⟩, .ok (some (.object 0 1)))] := rfl
  obtain ⟨m, hm, hanswered⟩ := Option.map_eq_some_iff.mp hanswered
  exact ⟨m, hm, hanswered, loaders_one_to_one (l := {}) hm⟩

/-! ### A thread that nobody comes between -/

theorem update_update (f g : Connection → Connection) (s : Shared) :
    (s.update i f).update i g = s.update i (g ∘ f) := by
  unfold Shared.update
  simp only [updateConnection_apply, modify_modify]

/-- An object that is not there is pinned and gets the next number. -/
theorem alone_pinning {c : Connection} (hc : s.link.connections[i]? = some c)
    (hmisses : ∀ k ∈ c.loaders, k.reference.object ≠ r.object) :
    (routine i).Alone t (.pinning r) s
      ⟨(loaderFor i (some r) s.link).2, none,
        (some r, (loaderFor i (some r) s.link).1) :: s.answered⟩ := by
  have hfind : (knownLoaders i s.link).find? (fun k => k.reference.object = r.object) = none := by
    rw [knownLoaders_eq hc, List.find?_eq_none]
    simpa using hmisses
  rcases hpin : pin r.object s.link.machine with ⟨_ | p, machine⟩
  · have hpinning : (routine i).next t (.pinning r) s =
        some (some (.unlocking r (.error (.jni "cannot pin class loader"))),
          { s with link := { s.link with machine } }) := by
      simp only [routine, Threads.next, native, hpin]
    rw [loaderFor_unpinned hfind hpin]
    exact .step hpinning (.done rfl)
  · have hpinning : (routine i).next t (.pinning r) s =
        some (some (.numbering r p), { s with link := { s.link with machine } }) := by
      simp only [routine, Threads.next, native, hpin]
    have hnumbering : (routine i).next t (.numbering r p)
        { s with link := { s.link with machine } } = some (some (.adding r p c.nextId),
          { s with link := { s.link with machine } }.update i
            fun c => { c with nextId := c.nextId + 1 }) := by
      simp only [routine, Threads.next, hc, Option.map_some, Option.getD_some]
    rw [loaderFor_new hc hfind hpin]
    refine .step hpinning (.step hnumbering (.step rfl (.done ?_)))
    rw [update_update]
    rfl

/-- What is left to do once the object is none of the first loaders. -/
theorem alone_comparing {c : Connection} (hc : s.link.connections[i]? = some c)
    (rest : List KnownLoader) : ∀ first, c.loaders = first ++ rest →
      (∀ k ∈ first, k.reference.object ≠ r.object) →
      (routine i).Alone t (.comparing r first.length) s
        ⟨(loaderFor i (some r) s.link).2, none,
          (some r, (loaderFor i (some r) s.link).1) :: s.answered⟩ := by
  induction rest with
  | nil =>
    intro first hfirst hmisses
    rw [List.append_nil] at hfirst
    subst hfirst
    have hcomparing : (routine i).next t (.comparing r c.loaders.length) s =
        some (some (.pinning r), s) := by
      simp only [routine, Threads.next, knownLoaders_eq hc, List.getElem?_length]
    exact .step hcomparing (alone_pinning hc hmisses)
  | cons k rest ih =>
    intro first hfirst hmisses
    have hk : (knownLoaders i s.link)[first.length]? = some k := by
      rw [knownLoaders_eq hc, hfirst]
      simp
    by_cases hsame : k.reference.object = r.object
    · have hcomparing : (routine i).next t (.comparing r first.length) s =
          some (some (.unlocking r (.ok (some (.object i k.id)))), s) := by
        simp only [routine, Threads.next, hk, if_pos hsame]
      have hfind : (knownLoaders i s.link).find? (fun k => k.reference.object = r.object) =
          some k := by
        rw [knownLoaders_eq hc, hfirst, List.find?_append,
          List.find?_eq_none.mpr (by simpa using hmisses)]
        simp [hsame]
      rw [loaderFor_known hfind]
      exact .step hcomparing (.done rfl)
    · have hcomparing : (routine i).next t (.comparing r first.length) s =
          some (some (.comparing r (first ++ [k]).length), s) := by
        simp only [routine, Threads.next, hk, if_neg hsame, List.length_append,
          List.length_singleton]
      refine .step hcomparing (ih (first ++ [k]) (by rw [hfirst]; simp) fun k' hk' => ?_)
      rcases List.mem_append.mp hk' with hk' | hk'
      · exact hmisses k' hk'
      · exact List.mem_singleton.mp hk' ▸ hsame

/-- A request that nobody comes between is answered as one thread is. -/
theorem call_alone (hidle : m.phases t = none) (hfree : m.shared.holder = none)
    (hthere : (table i m.shared.link).isSome) (o : Option Reference) :
    ∃ n, (routine i).run m (.call t o :: List.replicate n (.go t)) =
      some ⟨⟨(loaderFor i o m.shared.link).2, none,
        (o, (loaderFor i o m.shared.link).1) :: m.shared.answered⟩, m.phases⟩ := by
  refine Routine.Alone.call hidle ?_
  obtain ⟨⟨link, holder, answered⟩, phases⟩ := m
  obtain rfl : holder = none := hfree
  cases o with
  | none => exact .done rfl
  | some r =>
    unfold table at hthere
    obtain ⟨c, hc⟩ := Option.isSome_iff_exists.mp (by simpa using hthere :
      (link.connections[i]?).isSome)
    have hlocking : (routine i).next t (.locking r) ⟨link, none, answered⟩ =
        some (some (.comparing r 0), ⟨link, some t, answered⟩) := rfl
    exact .step rfl (.step hlocking (alone_comparing (s := ⟨link, some t, answered⟩) hc c.loaders []
      rfl fun _ hk => nomatch hk))

end ClassRecovery.Jvm.Link.Threads
