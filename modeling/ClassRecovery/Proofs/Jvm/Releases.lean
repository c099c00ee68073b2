import ClassRecovery.Proofs.Jvm.Holdings

/-!
Letting go of what is held. A pin is given up with the last that it was there for, and what an
operation met before it failed is let go again.
-/

namespace ClassRecovery.Jvm

/-- The same is held, in whatever order it is listed. -/
structure Holdings.Same (K J : Holdings) : Prop where
  connections : K.connections.Perm J.connections
  classes : K.classes.Perm J.classes
  loaders : K.loaders.Perm J.loaders
  streams : K.streams.Perm J.streams

namespace Link

variable {b : Machine} {reliable : Prop} {A B : Throwable → Prop} {owed : List Reference}
  {K J : Holdings} {idle idle' : List (Nat × KnownLoader)} {l : Link} {c : Connection}
  {i id : Nat} {α ε : Type}

theorem Since.same (h : Since b reliable A owed K l) (hsame : K.Same J) :
    Since b reliable A owed J l where
  machine := h.machine.repin fun _ =>
    (hsame.classes.map _).append (hsame.streams.append_left _)
  books hr := by
    have hbooks := h.books hr
    refine ⟨fun e he => hbooks.classes e (hsame.classes.mem_iff.mpr he), fun i => ?_,
      fun hc => ?_, fun e he => hbooks.known e (hsame.loaders.mem_iff.mpr he)⟩
    · rw [hbooks.holders]
      exact (hsame.connections.append (hsame.classes.map _)).count_eq i
    · have htidy := hbooks.tidy hc
      exact ⟨htidy.ids, htidy.used, fun k hk => hsame.loaders.count_eq _ ▸ htidy.counted k hk,
        htidy.kept, htidy.next⟩

/-- A loader that has holders need not be let go. -/
theorem Books.idle_mono (h : l.Books K idle)
    (hidle : ∀ e ∈ idle, e.2.holders = 0 → e ∈ idle') : l.Books K idle' where
  classes := h.classes
  holders := h.holders
  tidy hc := by
    have htidy := h.tidy hc
    exact ⟨htidy.ids, htidy.used, htidy.counted, fun hnone k hk hheld =>
      hidle _ (htidy.kept hnone k hk hheld) hheld, htidy.next⟩
  known := h.known

/-! ### Loaders -/

/-- One element and those that are told from it. -/
theorem others_perm {α β : Type} [DecidableEq β] {f : α → β} {xs : List α} {a : α}
    (hnodup : (xs.map f).Nodup) (ha : a ∈ xs) :
    xs.Perm (a :: xs.filter fun x => f x ≠ f a) := by
  obtain ⟨front, back, rfl⟩ := List.append_of_mem ha
  have hmiddle : (front ++ a :: back).Perm (a :: (front ++ back)) := List.perm_middle
  have hothers := (List.nodup_cons.mp ((hmiddle.map f).nodup_iff.mp hnodup)).1
  have hfilter := hmiddle.filter fun x => f x ≠ f a
  have hkept : (front ++ back).filter (fun x => f x ≠ f a) = front ++ back :=
    List.filter_eq_self.mpr fun x hx => by
      simpa using fun heq : f x = f a => hothers (heq ▸ List.mem_map_of_mem hx)
  rw [List.filter_cons_of_neg (by simp), hkept] at hfilter
  exact hmiddle.trans (hfilter.symm.cons a)

theorem mem_knownLoaders {k : KnownLoader} :
    k ∈ knownLoaders i l ↔ ∃ c, l.connections[i]? = some c ∧ k ∈ c.loaders := by
  unfold knownLoaders
  cases l.connections[i]? <;> simp

theorem Books.forget {k : KnownLoader} {ks : List KnownLoader}
    (h : l.Books K ((k :: ks).map (i, ·))) (hc : l.connections[i]? = some c)
    (hk : k ∈ c.loaders) :
    (updateConnection i (fun c => { c with loaders := c.loaders.filter (·.id ≠ k.id) }) l).2.Books K
      (ks.map (i, ·)) := by
  have htidy := h.tidy hc
  have hsub : c.loaders.filter (·.id ≠ k.id) ⊆ c.loaders := List.filter_subset_self _
  refine h.update hc (fun _ => le_rfl) (List.Subset.refl _) (fun j => ?_) h.known
    ⟨htidy.ids.sublist (List.filter_sublist.map _), fun k' hk' => htidy.used k' (hsub hk'),
      fun k' hk' => htidy.counted k' (hsub hk'), fun hnone k' hk' hidle => ?_, htidy.next⟩
    fun j c' hij htidy' => ⟨htidy'.ids, htidy'.used, htidy'.counted, fun hnone k' hk' hidle => ?_,
      htidy'.next⟩
  · split
    · next hij =>
      subst hij
      exact h.count_eq (c := c) hc
    · rfl
  · rcases List.mem_cons.mp (htidy.kept hnone k' (hsub hk') hidle) with heq | hmem
    · obtain rfl := congrArg Prod.snd heq
      simp at hk'
    · exact hmem
  · have hmem := htidy'.kept hnone k' hk' hidle
    obtain ⟨k'', -, heq⟩ := List.mem_map.mp hmem
    exact absurd (congrArg Prod.fst heq) hij

/-- All loaders that nobody holds are let go. -/
theorem dropLoaders_since (ks : List KnownLoader) :
    Ensures (fun l => b.Since reliable A owed (l.pins K) l.machine ∧
      (reliable → l.Books K (ks.map (i, ·)) ∧ ks ⊆ knownLoaders i l ∧ (ks.map (·.id)).Nodup))
      (dropLoaders i ks) fun _ => Since b reliable A owed K := by
  induction ks with
  | nil => exact .pure fun _ h => ⟨h.1, fun hr => (h.2 hr).1⟩
  | cons k ks ih =>
    rintro l ⟨hm, hbooks⟩
    unfold dropLoaders
    split
    · refine ih _ ⟨unpin_since k.reference l.machine (hm.repin fun hr => ?_), fun hr => ?_⟩
      all_goals
        obtain ⟨hl, hks, hnodup⟩ := hbooks hr
        obtain ⟨c, hc, hk⟩ := mem_knownLoaders.mp (hks List.mem_cons_self)
      · exact pins_update_drop [k.reference] hc
          ((others_perm (f := KnownLoader.id) (hl.tidy hc).ids hk).map _)
      · obtain ⟨hfirst, hnodup⟩ := List.nodup_cons.mp hnodup
        refine ⟨(hl.forget hc hk).of_machine _, fun k' hk' => mem_knownLoaders.mpr ?_, hnodup⟩
        obtain ⟨c', hc', hmem⟩ := mem_knownLoaders.mp (hks (List.mem_cons_of_mem _ hk'))
        obtain rfl := Option.some.inj (hc.symm.trans hc')
        refine ⟨_, getElem?_update_self hc, ?_⟩
        refine List.mem_filter.mpr ⟨hmem, ?_⟩
        simpa using fun heq : k'.id = k.id => hfirst (List.mem_map.mpr ⟨k', hk', heq⟩)
    · next hheld =>
      refine ih l ⟨hm, fun hr => ?_⟩
      obtain ⟨hl, hks, hnodup⟩ := hbooks hr
      refine ⟨hl.idle_mono fun e he hnone => ?_, fun k hk => hks (List.mem_cons_of_mem _ hk),
        (List.nodup_cons.mp hnodup).2⟩
      rcases List.mem_cons.mp he with rfl | he
      · exact absurd hnone hheld
      · exact he

/-! ### Connections and class objects -/

/-- A holder less. Without holders all loaders are idle that nobody else holds. -/
theorem Books.leave (h : l.Books { K with connections := i :: K.connections } [])
    (hc : l.connections[i]? = some c) :
    (updateConnection i (fun c => { c with holders := c.holders - 1 }) l).2.Books K
      (if c.holders = 1 then c.loaders.map (i, ·) else []) := by
  have htidy := h.tidy hc
  have hcount : K.holders.count i + 1 = c.holders := by
    rw [← h.count_eq hc]
    exact List.count_cons_self.symm
  refine h.update hc (fun _ => le_rfl) (List.Subset.refl _) (fun j => ?_) h.known
    ⟨htidy.ids, htidy.used, htidy.counted, fun hnone k hk _ => ?_, htidy.next⟩
    fun j c' _ htidy' => ⟨htidy'.ids, htidy'.used, htidy'.counted, fun hnone k hk hidle => ?_,
      htidy'.next⟩
  · change _ = if i = j then c.holders - 1 else (i :: K.holders).count j
    split
    · next hij =>
      subst hij
      omega
    · next hij => exact (List.count_cons_of_ne hij).symm
  · have hlast : c.holders = 1 := by
      change c.holders - 1 = 0 at hnone
      omega
    rw [if_pos hlast]
    exact List.mem_map_of_mem hk
  · cases htidy'.kept hnone k hk hidle

theorem releaseConnection_since :
    Ensures (Since b reliable A owed { K with connections := i :: K.connections })
      (releaseConnection i) fun _ => Since b reliable A owed K := by
  intro l hl
  unfold releaseConnection
  rw [state_get_bind]
  cases hc : l.connections[i]? with
  | none =>
    refine ⟨hl.machine, fun hr => ?_⟩
    obtain ⟨c, hc', -⟩ := (hl.books hr).held (i := i) (List.mem_append_left _ List.mem_cons_self)
    rw [hc] at hc'
    cases hc'
  | some c =>
    dsimp only
    rw [state_bind_apply]
    have hpins : (l.pins K).Perm ((updateConnection i
        (fun c => { c with holders := c.holders - 1 }) l).2.pins K) :=
      pins_update_add [] hc (.refl _)
    split
    · next hlast =>
      refine dropLoaders_since c.loaders _ ⟨hl.machine.repin fun _ => hpins, fun hr => ?_⟩
      have hbooks := (hl.books hr).leave hc
      rw [if_pos hlast] at hbooks
      refine ⟨hbooks, fun k hk => mem_knownLoaders.mpr ?_, ((hl.books hr).tidy hc).ids⟩
      exact ⟨_, getElem?_update_self hc, hk⟩
    · next hlast =>
      refine ⟨hl.machine.repin fun _ => hpins, fun hr => ?_⟩
      have hbooks := (hl.books hr).leave hc
      rwa [if_neg hlast] at hbooks

/-- What a class held of its connection outlasts its pin. -/
theorem Books.outlast {e : ClassRef × HeldClass}
    (h : l.Books { K with classes := e :: K.classes } idle) :
    l.Books { K with connections := e.2.connection :: K.connections } idle where
  classes e' he' := h.classes e' (List.mem_cons_of_mem _ he')
  holders j := by
    rw [h.holders]
    exact (@List.perm_middle _ _ K.connections _).count_eq j
  tidy := h.tidy
  known := h.known

theorem releaseClass_since {d : ClassRef} {h : HeldClass} {index : Nat}
    (horigin : d.origin = .object index) :
    Ensures (Since b reliable A owed { K with classes := (d, h) :: K.classes })
      (releaseClass index) fun _ => Since b reliable A owed K := by
  intro l hl
  have hheld : reliable → l.held[index]? = some h := fun hr => by
    obtain ⟨⟨index', hindex, hheld⟩, -⟩ := (hl.books hr).classes _ List.mem_cons_self
    obtain rfl := Origin.object.inj (horigin.symm.trans hindex)
    exact hheld
  unfold releaseClass
  rw [state_get_bind]
  cases hfound : l.held[index]? with
  | none =>
    have hthere : ¬ reliable := fun hr => by simp [hheld hr] at hfound
    exact ⟨hl.machine.repin fun hr => absurd hr hthere, fun hr => absurd hr hthere⟩
  | some h' =>
    have hsame : reliable → h' = h := fun hr => Option.some.inj (hfound.symm.trans (hheld hr))
    refine releaseConnection_since (K := K) _ ⟨unpin_since h'.reference l.machine
      (hl.machine.repin fun hr => ?_), fun hr => ?_⟩
    · rw [hsame hr]
      exact .refl _
    · rw [hsame hr]
      exact (hl.books hr).outlast.of_machine _

theorem releaseAll_since (cs : List ClassRef) :
    Ensures (Met b reliable A owed K cs) (releaseAll cs) fun _ => Since b reliable A owed K := by
  induction cs with
  | nil =>
    rintro l ⟨es, hes, -, hl⟩
    obtain rfl := List.map_eq_nil_iff.mp hes
    exact hl
  | cons c cs ih =>
    rintro l ⟨es, hes, horigin, hl⟩
    obtain ⟨e, es, rfl, rfl, hrest⟩ := List.map_eq_cons_iff.mp hes
    obtain ⟨hfirst, horigins⟩ := List.forall_mem_cons.mp horigin
    obtain ⟨index, hindex⟩ := hfirst
    unfold releaseAll
    rw [hindex]
    exact ih _ ⟨es, hrest, horigins, releaseClass_since (K := { K with classes := es ++ K.classes })
      hindex l hl⟩

/-! ### Handles -/

/-- One loader of a connection has another number of holders. -/
def recount (id : Nat) (f : Nat → Nat) (c : Connection) : Connection :=
  { c with loaders := c.loaders.map fun k =>
      if k.id = id then { k with holders := f k.holders } else k }

theorem mem_recount {k : KnownLoader} {f : Nat → Nat} (hk : k ∈ (recount id f c).loaders) :
    ∃ k' ∈ c.loaders, k.id = k'.id ∧ k.holders = if k'.id = id then f k'.holders else k'.holders := by
  obtain ⟨k', hk', rfl⟩ := List.mem_map.mp hk
  refine ⟨k', hk', ?_⟩
  split <;> exact ⟨rfl, rfl⟩

theorem recount_ids (id : Nat) (f : Nat → Nat) (c : Connection) :
    (recount id f c).loaders.map (·.id) = c.loaders.map (·.id) := by
  rw [recount, List.map_map]
  refine List.map_congr_left fun k _ => ?_
  simp only [Function.comp_apply]
  split <;> rfl

theorem recount_references (id : Nat) (f : Nat → Nat) (c : Connection) :
    (recount id f c).loaders.map (·.reference) = c.loaders.map (·.reference) := by
  rw [recount, List.map_map]
  refine List.map_congr_left fun k _ => ?_
  simp only [Function.comp_apply]
  split <;> rfl

theorem pins_recount (hc : l.connections[i]? = some c) (f : Nat → Nat) :
    (l.pins K).Perm ((updateConnection i (recount id f) l).2.pins K) :=
  pins_update_add [] hc (by rw [recount_references]; exact .refl _)

/-- The books after a loader got another number of holders, with that loader if need be idle. -/
theorem Books.recount {f : Nat → Nat} {held : List (Nat × Nat)} (h : l.Books K [])
    (hc : l.connections[i]? = some c) (hknown : ∀ e ∈ held, l.Knows e.1 e.2)
    (hcount : held.count (i, id) = f (K.loaders.count (i, id)))
    (hothers : ∀ e, e ≠ (i, id) → held.count e = K.loaders.count e) :
    (updateConnection i (recount id f) l).2.Books { K with loaders := held }
      (((recount id f c).loaders.filter (·.id = id)).map (i, ·)) := by
  have htidy := h.tidy hc
  refine h.update hc (fun _ => le_rfl) (List.Subset.refl _) (fun j => ?_) hknown
    ⟨recount_ids id f c ▸ htidy.ids, fun k hk => ?_, fun k hk => ?_, fun hnone k hk hidle => ?_,
      htidy.next⟩ fun j c' hij htidy' => ⟨htidy'.ids, htidy'.used, fun k hk => ?_,
      (fun hnone k hk hidle => nomatch htidy'.kept hnone k hk hidle), htidy'.next⟩
  · split
    · next hij =>
      subst hij
      exact h.count_eq (c := c) hc
    · rfl
  · obtain ⟨k', hk', hid, -⟩ := mem_recount hk
    exact hid ▸ htidy.used k' hk'
  · obtain ⟨k', hk', hid, hholders⟩ := mem_recount hk
    rw [hholders, hid, htidy.counted k' hk']
    split
    · next hsame => rw [hsame, hcount]
    · next hother => exact (hothers _ fun heq => hother (congrArg Prod.snd heq)).symm
  · obtain ⟨k', hk', hid, hholders⟩ := mem_recount hk
    by_cases hsame : k'.id = id
    · exact List.mem_map_of_mem (List.mem_filter.mpr ⟨hk, by simpa using hid.trans hsame⟩)
    · rw [if_neg hsame, hidle] at hholders
      exact nomatch htidy.kept hnone k' hk' hholders.symm
  · rw [htidy'.counted k hk]
    exact (hothers _ fun heq => hij (congrArg Prod.fst heq).symm).symm

theorem retainLoader_since :
    Ensures (fun l => Since b reliable A owed K l ∧ (reliable → l.Knows i id)) (retainLoader i id)
      fun _ => Since b reliable A owed { K with loaders := (i, id) :: K.loaders } := by
  rintro l ⟨hl, hknows⟩
  refine .update (f := recount id (· + 1)) (P := l.pins K) hl.machine fun hr => ?_
  obtain ⟨c, hc, hid⟩ := hknows hr
  have hbooks := (hl.books hr).recount (f := (· + 1)) hc
    (List.forall_mem_cons.mpr ⟨hknows hr, (hl.books hr).known⟩) List.count_cons_self
    fun e he => List.count_cons_of_ne (Ne.symm he)
  refine ⟨hbooks.idle_mono fun e he hidle => ?_, pins_recount hc _⟩
  obtain ⟨k, hk, rfl⟩ := List.mem_map.mp he
  obtain ⟨hk, hsame⟩ := List.mem_filter.mp hk
  obtain ⟨k', -, hid', hholders⟩ := mem_recount hk
  rw [if_pos (hid' ▸ of_decide_eq_true hsame)] at hholders
  exact absurd (hholders.symm.trans hidle) (Nat.succ_ne_zero _)

/-- While somebody holds a connection, its loaders need no other holder. -/
theorem Books.busy {ks : List KnownLoader} (h : l.Books K (ks.map (i, ·))) (hi : l.Held i) :
    l.Books K [] where
  classes := h.classes
  holders := h.holders
  tidy {j c'} hc' := by
    have htidy := h.tidy hc'
    refine ⟨htidy.ids, htidy.used, htidy.counted, fun hnone k hk hidle => ?_, htidy.next⟩
    obtain ⟨k', -, heq⟩ := List.mem_map.mp (htidy.kept hnone k hk hidle)
    obtain rfl := congrArg Prod.fst heq
    obtain ⟨c, hc, hheld⟩ := hi
    obtain rfl := Option.some.inj (hc.symm.trans hc')
    exact absurd hnone hheld
  known := h.known

theorem releaseLoader_since :
    Ensures (Since b reliable A owed { K with loaders := (i, id) :: K.loaders })
      (releaseLoader i id) fun _ => Since b reliable A owed K := by
  intro l hl
  unfold releaseLoader
  rw [state_bind_apply, state_get_bind]
  change Since b reliable A owed K ((if isReleased i (updateConnection i (recount id (· - 1)) l).2
    then dropLoaders i ((knownLoaders i (updateConnection i (recount id (· - 1)) l).2).filter
      (·.id = id)) else pure ()) (updateConnection i (recount id (· - 1)) l).2).2
  have hknown : reliable → ∃ c, l.connections[i]? = some c ∧
      (updateConnection i (recount id (· - 1)) l).2.Books K
        (((recount id (· - 1) c).loaders.filter (·.id = id)).map (i, ·)) := fun hr => by
    obtain ⟨c, hc, -⟩ := (hl.books hr).known _ List.mem_cons_self
    refine ⟨c, hc, (hl.books hr).recount (f := (· - 1)) hc
      (fun e (he : e ∈ K.loaders) => (hl.books hr).known e (List.mem_cons_of_mem _ he)) ?_ fun e he => ?_⟩
    · simp
    · exact (List.count_cons_of_ne (Ne.symm he)).symm
  have hmachine : b.Since reliable A owed ((updateConnection i (recount id (· - 1)) l).2.pins K)
      (updateConnection i (recount id (· - 1)) l).2.machine := hl.machine.repin fun hr => by
    obtain ⟨c, hc, -⟩ := hknown hr
    exact pins_recount hc _
  split
  · refine dropLoaders_since _ _ ⟨hmachine, fun hr => ?_⟩
    obtain ⟨c, hc, hbooks⟩ := hknown hr
    rw [knownLoaders_eq (getElem?_update_self hc)]
    refine ⟨hbooks, List.filter_subset_self _, ?_⟩
    exact (hbooks.tidy (getElem?_update_self hc)).ids.sublist (List.filter_sublist.map _)
  · next hreleased =>
    refine ⟨hmachine, fun hr => ?_⟩
    obtain ⟨c, hc, hbooks⟩ := hknown hr
    refine hbooks.busy ⟨_, getElem?_update_self hc, fun hnone => hreleased ?_⟩
    simp [isReleased, getElem?_update_self hc, hnone]

/-! ### New connections -/

theorem connect_since :
    Ensures (Since b reliable A owed K) connect fun i =>
      Since b reliable A owed { K with connections := i :: K.connections } := by
  refine .modifyGet fun l hl => ⟨hl.machine.repin fun _ => ?_, fun hr => ?_⟩
  · unfold pins loaderPins
    simp
  have hbooks := hl.books hr
  have hnew : ∀ {j : Nat} {c : Connection}, l.connections[j]? = some c →
      (l.connections.push {})[j]? = some c := fun {j c} hc => by
    have hlt := (Array.getElem?_eq_some_iff.mp hc).1
    rw [Array.getElem?_push_lt hlt, ← hc, Array.getElem?_eq_getElem hlt]
  have hnobody : K.holders.count l.connections.size = 0 := by
    rw [← hbooks.holders]
    simp
  refine ⟨fun e he => (hbooks.classes e he).imp_right fun htells y hy => ?_, fun j => ?_,
    fun {j c} hc => ?_, fun e he => ?_⟩
  · obtain ⟨id, hid, c, hc, hlt⟩ := htells y hy
    exact ⟨id, hid, c, hnew hc, hlt⟩
  · change _ = (l.connections.size :: K.holders).count j
    rw [Array.getElem?_push]
    split
    · next hj =>
      subst hj
      rw [List.count_cons_self, hnobody]
      rfl
    · next hj => rw [List.count_cons_of_ne (Ne.symm hj), ← hbooks.holders]
  · rw [Array.getElem?_push] at hc
    split at hc
    · obtain rfl := Option.some.inj hc
      exact ⟨List.nodup_nil, (fun _ hk => nomatch hk), (fun _ hk => nomatch hk),
        (fun hnone => nomatch hnone), Nat.lt_succ_self _⟩
    · exact hbooks.tidy hc
  · obtain ⟨c, hc, hlt⟩ := hbooks.known e he
    exact ⟨c, hnew hc, hlt⟩

end Link

end ClassRecovery.Jvm
