import ClassRecovery.Proofs.Jvm.Answers

/-!
How a connection numbers loaders. While it is held it gives each loader one number and no number to
two, and takes none back; so what its classes say about their loaders is what the machine says.
-/

namespace ClassRecovery.Jvm

variable {α β ε : Type}

/-- The name of a class, as the machine knows it, and the loader that defined it. -/
def Machine.identities (m : Machine) (key : String) : Option MachineText × Option String :=
  (m.description.nameOf key, (m.description.classOf key).loader)

theorem Machine.identities_eq {a : StateM Machine α} (h : Keeps Machine.classes a) (m : Machine) :
    (a m).2.identities = m.identities := by
  have hdescription : (a m).2.description = m.description := congrArg Prod.fst (h m)
  funext key
  rw [Machine.identities, Machine.identities, hdescription]

namespace Connection

/-- The loaders that have a number, and their numbers. -/
def numbers (c : Connection) : List (Nat × Object) :=
  c.loaders.map fun k => (k.id, k.reference.object)

/-- No number stands for two loaders, nor a loader for two numbers, and new numbers are unused. -/
structure Orderly (c : Connection) : Prop where
  ids : (c.numbers.map (·.1)).Nodup
  objects : (c.numbers.map (·.2)).Nodup
  used : ∀ n ∈ c.numbers, Loader.bootId < n.1 ∧ n.1 < c.nextId
  next : Loader.bootId < c.nextId

/-- A connection that is still held was held all the time, and has taken no number back. -/
structure Later (c c' : Connection) : Prop where
  held : c'.holders ≠ 0 → c.holders ≠ 0
  numbers : c'.holders ≠ 0 → c.numbers <+: c'.numbers
  orderly : c'.holders ≠ 0 → c.Orderly → c'.Orderly

variable {c c' c'' : Connection}

theorem Later.refl (c : Connection) : c.Later c :=
  ⟨id, fun _ => List.prefix_refl _, fun _ => id⟩

theorem Later.trans (h : c.Later c') (h' : c'.Later c'') : c.Later c'' where
  held hc := h.held (h'.held hc)
  numbers hc := (h.numbers (h'.held hc)).trans (h'.numbers hc)
  orderly hc horderly := h'.orderly hc (h.orderly (h'.held hc) horderly)

/-- Nothing is said of a connection that is released. -/
theorem Later.of_released (h : c'.holders = 0) : c.Later c' :=
  ⟨fun hc => absurd h hc, fun hc => absurd h hc, fun hc => absurd h hc⟩

theorem Later.of_numbers (hheld : c'.holders ≠ 0 → c.holders ≠ 0)
    (hnumbers : c'.numbers = c.numbers) (hnext : c'.nextId = c.nextId) : c.Later c' where
  held := hheld
  numbers _ := hnumbers ▸ List.prefix_refl _
  orderly _ h := ⟨hnumbers ▸ h.ids, hnumbers ▸ h.objects, hnumbers ▸ hnext ▸ h.used,
    hnext ▸ h.next⟩

theorem orderly_new : ({} : Connection).Orderly where
  ids := List.nodup_nil
  objects := List.nodup_nil
  used _ h := by cases h
  next := Nat.zero_lt_one

/-- The connection after it gave a loader a number. -/
def number (id : Nat) (r : Reference) (c : Connection) : Connection :=
  { c with loaders := c.loaders ++ [{ id, reference := r }], nextId := c.nextId + 1 }

theorem numbers_number (id : Nat) (r : Reference) (c : Connection) :
    (c.number id r).numbers = c.numbers ++ [(id, r.object)] := by
  simp [number, numbers]

/-- A loader that is met for the first time gets the next number. -/
theorem Later.number {r : Reference} (hnew : ∀ n ∈ c.numbers, n.2 ≠ r.object) :
    c.Later (c.number c.nextId r) := by
  refine ⟨id, fun _ => numbers_number _ _ c ▸ List.prefix_append _ _, fun _ h => ⟨?_, ?_, ?_, ?_⟩⟩
  · rw [numbers_number, List.map_append, List.nodup_append]
    refine ⟨h.ids, by simp, fun n hn n' hn' => ?_⟩
    obtain ⟨e, he, rfl⟩ := List.mem_map.mp hn
    obtain rfl : n' = c.nextId := by simpa using hn'
    exact Nat.ne_of_lt (h.used e he).2
  · rw [numbers_number, List.map_append, List.nodup_append]
    refine ⟨h.objects, by simp, fun o ho o' ho' => ?_⟩
    obtain ⟨e, he, rfl⟩ := List.mem_map.mp ho
    obtain rfl : o' = r.object := by simpa using ho'
    exact hnew e he
  · intro n hn
    rw [numbers_number, List.mem_append, List.mem_singleton] at hn
    rcases hn with hn | rfl
    · exact ⟨(h.used n hn).1, Nat.lt_succ_of_lt (h.used n hn).2⟩
    · exact ⟨h.next, Nat.lt_succ_self _⟩
  · exact Nat.lt_succ_of_lt h.next

/-- A number stands for one loader. -/
theorem Orderly.object_eq_iff (h : c.Orderly) {id id' : Nat} {o o' : Object}
    (ho : (id, o) ∈ c.numbers) (ho' : (id', o') ∈ c.numbers) : id = id' ↔ o = o' := by
  constructor
  · rintro rfl
    exact congrArg Prod.snd (List.inj_on_of_nodup_map h.ids ho ho' rfl)
  · rintro rfl
    exact congrArg Prod.fst (List.inj_on_of_nodup_map h.objects ho ho' rfl)

end Connection

namespace Link

/-- A connection that somebody holds. -/
def Held (l : Link) (i : Nat) : Prop := ∃ c, l.connections[i]? = some c ∧ c.holders ≠ 0

def Orderly (l : Link) : Prop :=
  ∀ {i : Nat} {c : Connection}, l.connections[i]? = some c → c.holders ≠ 0 → c.Orderly

/-- What the machine says of its classes stands, class objects stay where they are, and the
numbering goes on. -/
structure Later (l l' : Link) : Prop where
  identities : l'.machine.identities = l.machine.identities
  objects : ∀ {index : Nat} {h : HeldClass}, l.held[index]? = some h → l'.held[index]? = some h
  connection : ∀ {i : Nat} {c : Connection}, l.connections[i]? = some c →
    ∃ c', l'.connections[i]? = some c' ∧ c.Later c'
  new : ∀ {i : Nat} {c' : Connection}, l.connections[i]? = none → l'.connections[i]? = some c' →
    c'.holders ≠ 0 → c'.Orderly

/-- Who held a connection still does. -/
def Stays (l l' : Link) : Prop := ∀ i, l.Held i → l'.Held i

variable {l l' l'' : Link} {i : Nat}

theorem Later.refl (l : Link) : l.Later l :=
  ⟨rfl, id, fun h => ⟨_, h, .refl _⟩, fun h h' => by rw [h] at h'; cases h'⟩

theorem Later.trans (h : l.Later l') (h' : l'.Later l'') : l.Later l'' where
  identities := h'.identities.trans h.identities
  objects hh := h'.objects (h.objects hh)
  connection hc := by
    obtain ⟨c', hc', hlater⟩ := h.connection hc
    obtain ⟨c'', hc'', hlater'⟩ := h'.connection hc'
    exact ⟨c'', hc'', hlater.trans hlater'⟩
  new {i c''} hnone hc'' hheld := by
    cases hc' : l'.connections[i]? with
    | none => exact h'.new hc' hc'' hheld
    | some c' =>
      obtain ⟨_, hsome, hlater⟩ := h'.connection hc'
      obtain rfl := Option.some.inj (hc''.symm.trans hsome)
      exact hlater.orderly hheld (h.new hnone hc' (hlater.held hheld))

theorem Orderly.later (h : l.Orderly) (hlater : l.Later l') : l'.Orderly := by
  intro i c' hc' hheld
  cases hc : l.connections[i]? with
  | none => exact hlater.new hc hc' hheld
  | some c =>
    obtain ⟨_, hsome, hstep⟩ := hlater.connection hc
    obtain rfl := Option.some.inj (hc'.symm.trans hsome)
    exact hstep.orderly hheld (h hc (hstep.held hheld))

theorem Stays.refl (l : Link) : l.Stays l := fun _ => id

theorem Stays.trans (h : l.Stays l') (h' : l'.Stays l'') : l.Stays l'' := fun i hi => h' i (h i hi)

/-- Only what the connections, the class objects and the identities are matters. -/
theorem Later.of_same (hconnections : l'.connections = l.connections) (hheld : l'.held = l.held)
    (hidentities : l'.machine.identities = l.machine.identities) : l.Later l' where
  identities := hidentities
  objects h := hheld ▸ h
  connection h := ⟨_, hconnections ▸ h, .refl _⟩
  new h h' := by rw [hconnections, h] at h'; cases h'

theorem Later.of_machine {m : Machine} (h : m.identities = l.machine.identities) :
    l.Later { l with machine := m } :=
  .of_same rfl rfl h

theorem Stays.of_same (hconnections : l'.connections = l.connections) : l.Stays l' := by
  intro i hi
  unfold Held
  rwa [hconnections]

theorem isReleased_eq_false : isReleased i l = false ↔ l.Held i := by
  unfold isReleased Held
  cases l.connections[i]? <;> simp

/-! ### Connections that change -/

theorem updateConnection_apply (i : Nat) (f : Connection → Connection) (l : Link) :
    (updateConnection i f l).2 = { l with connections := l.connections.modify i f } := rfl

theorem Later.update (f : Connection → Connection)
    (h : ∀ c, l.connections[i]? = some c → c.Later (f c)) : l.Later (updateConnection i f l).2 where
  identities := rfl
  objects := id
  connection {j c} hc := by
    rw [updateConnection_apply]
    simp only [Array.getElem?_modify]
    split
    · next hij =>
      subst hij
      exact ⟨f c, by rw [hc]; rfl, h c hc⟩
    · exact ⟨c, hc, .refl c⟩
  new {j c'} hnone hc' := by
    rw [updateConnection_apply] at hc'
    simp only [Array.getElem?_modify, hnone] at hc'
    split at hc' <;> cases hc'

theorem Stays.update (f : Connection → Connection)
    (h : ∀ c, l.connections[i]? = some c → c.holders ≠ 0 → (f c).holders ≠ 0) :
    l.Stays (updateConnection i f l).2 := by
  rintro j ⟨c, hc, hheld⟩
  rw [updateConnection_apply]
  unfold Held
  simp only [Array.getElem?_modify]
  split
  · next hij =>
    subst hij
    exact ⟨f c, by rw [hc]; rfl, h c hc hheld⟩
  · exact ⟨c, hc, hheld⟩

/-- How a connection knows a loader object of the machine; no object stands for the built-in
loader. -/
def KnownAs (l : Link) (i : Nat) : Option Object → Option Loader → Prop
  | none, x => x = none
  | some o, x => ∃ id c, x = some (.object i id) ∧ Loader.bootId < id ∧
      l.connections[i]? = some c ∧ (c.holders ≠ 0 → (id, o) ∈ c.numbers)

theorem KnownAs.later {o : Option Object} {x : Option Loader} (h : l.KnownAs i o x)
    (hlater : l.Later l') : l'.KnownAs i o x := by
  cases o with
  | none => exact h
  | some o =>
    obtain ⟨id, c, hx, hid, hc, hmem⟩ := h
    obtain ⟨c', hc', hstep⟩ := hlater.connection hc
    exact ⟨id, c', hx, hid, hc', fun hheld =>
      (hstep.numbers hheld).subset (hmem (hstep.held hheld))⟩

/-- What a fact says stays true. -/
def Lasting (P : Link → Prop) : Prop := ∀ ⦃l l' : Link⦄, l.Later l' → P l → P l'

/-- Through a connection that is held: the numbering goes on, and if something comes out then
nobody has let go and it is as said. -/
def Continues (i : Nat) (pre : Link → Prop) (a : ExceptT ε (StateM Link) α)
    (post : α → Link → Prop) : Prop :=
  ∀ l : Link, l.Orderly → l.Held i → pre l →
    l.Later (a l).2 ∧ ∀ x, (a l).1 = .ok x → l.Stays (a l).2 ∧ post x (a l).2

namespace Continues

variable {pre : Link → Prop} {post : α → Link → Prop} {a : ExceptT ε (StateM Link) α}

theorem ok {x : α} (h : ∀ l, pre l → post x l) :
    Continues i pre (pure x : ExceptT ε (StateM Link) α) post := by
  refine fun l _ _ hpre => ⟨.refl l, fun y hy => ?_⟩
  cases hy
  exact ⟨.refl l, h l hpre⟩

theorem throw (e : ε) : Continues i pre (throw e : ExceptT ε (StateM Link) α) post :=
  fun l _ _ _ => ⟨.refl l, fun _ hy => by cases hy⟩

theorem bind {f : α → ExceptT ε (StateM Link) β} {P : α → Link → Prop} {post : β → Link → Prop}
    (ha : Continues i pre a P) (hf : ∀ x, Continues i (P x) (f x) post) :
    Continues i pre (a >>= f) post := by
  intro l horderly hheld hpre
  obtain ⟨hlater, hok⟩ := ha l horderly hheld hpre
  rw [bind_apply]
  rcases hrun : a l with ⟨e | x, l₁⟩ <;> rw [hrun] at hlater hok
  · exact ⟨hlater, fun _ hy => by cases hy⟩
  · obtain ⟨hstays, hmid⟩ := hok x rfl
    obtain ⟨hlater', hok'⟩ := hf x l₁ (horderly.later hlater) (hstays i hheld) hmid
    refine ⟨hlater.trans hlater', fun y hy => ?_⟩
    exact ⟨hstays.trans (hok' y hy).1, (hok' y hy).2⟩

theorem imp {post' : α → Link → Prop} (h : Continues i pre a post)
    (himp : ∀ x l, post x l → post' x l) : Continues i pre a post' := by
  intro l horderly hheld hpre
  obtain ⟨hlater, hok⟩ := h l horderly hheld hpre
  exact ⟨hlater, fun x hx => ⟨(hok x hx).1, himp x _ (hok x hx).2⟩⟩

/-- What only asks the machine. -/
theorem checked {a : ExceptT ε (StateM Machine) α} (ha : Keeps Machine.classes a)
    (h : ∀ (l : Link) x, pre l → (a l.machine).1 = .ok x →
      post x { l with machine := (a l.machine).2 }) :
    Continues i pre (Link.checked a) post := by
  intro l _ _ hpre
  have hidentities := Machine.identities_eq ha l.machine
  have hl := h l
  unfold Link.checked
  rcases hrun : a l.machine with ⟨r, m⟩
  rw [hrun] at hidentities hl
  exact ⟨.of_same rfl rfl hidentities, fun x hx => ⟨.of_same rfl, hl x hpre hx⟩⟩

theorem call {a : Native α} (ha : Keeps Machine.classes a)
    (h : ∀ l : Link, pre l → post (a l.machine).1 { l with machine := (a l.machine).2 }) :
    Continues i pre (Link.call a : ExceptT ε (StateM Link) α) post := by
  refine fun l _ _ hpre => ⟨.of_same rfl rfl (Machine.identities_eq ha l.machine), fun x hx => ?_⟩
  cases hx
  exact ⟨.of_same rfl, h l hpre⟩

theorem get {f : Link → ExceptT ε (StateM Link) α}
    (h : ∀ l, pre l → Continues i pre (f l) post) : Continues i pre (get >>= f) post :=
  fun l horderly hheld hl => h l hl l horderly hheld hl

theorem checked_any {a : ExceptT ε (StateM Machine) α} (ha : Keeps Machine.classes a) :
    Continues i pre (Link.checked a) fun _ _ => True :=
  checked ha fun _ _ _ _ => trivial

theorem call_any {a : Native α} (ha : Keeps Machine.classes a) :
    Continues i pre (Link.call a : ExceptT ε (StateM Link) α) fun _ _ => True :=
  call ha fun _ _ => trivial

/-- A lasting fact is not touched by asking the machine. -/
theorem checked_lasting {a : ExceptT ε (StateM Machine) α} (ha : Keeps Machine.classes a)
    (hpre : Lasting pre) : Continues i pre (Link.checked a) fun _ => pre :=
  checked ha fun l _ h _ => hpre (.of_machine (Machine.identities_eq ha l.machine)) h

theorem call_lasting {a : Native α} (ha : Keeps Machine.classes a) (hpre : Lasting pre) :
    Continues i pre (Link.call a : ExceptT ε (StateM Link) α) fun _ => pre :=
  call ha fun l h => hpre (.of_machine (Machine.identities_eq ha l.machine)) h

theorem holding {use : Linked α} (r : Option Reference) (h : Continues i pre use post)
    (hpost : ∀ x, Lasting (post x)) : Continues i pre (Link.holding r use) post := by
  intro l horderly hheld hpre
  obtain ⟨hlater, hok⟩ := h l horderly hheld hpre
  have hdelete := Machine.identities_eq (Machine.deleteLocal_keeps r) (use l).2.machine
  have hafter : (use l).2.Later (native (Machine.deleteLocal r) (use l).2).2 :=
    .of_same rfl rfl hdelete
  refine ⟨hlater.trans hafter, fun x hx => ?_⟩
  exact ⟨(hok x hx).1.trans (.of_same rfl), hpost x hafter (hok x hx).2⟩

theorem map {f : α → β} {Q : β → Link → Prop} (h : Continues i pre a fun x => Q (f x)) :
    Continues i pre (f <$> a) Q :=
  bind h fun _ => ok fun _ hl => hl

theorem onFailure {cleanup : StateM Link Unit} (h : Continues i pre a post)
    (hcleanup : ∀ l : Link, l.Later (cleanup l).2) :
    Continues i pre (onFailure cleanup a) post := by
  intro l horderly hheld hpre
  obtain ⟨hlater, hok⟩ := h l horderly hheld hpre
  unfold ClassRecovery.onFailure
  rcases hrun : a l with ⟨e | x, l₁⟩ <;> rw [hrun] at hlater hok
  · exact ⟨hlater.trans (hcleanup l₁), fun _ hy => by cases hy⟩
  · exact ⟨hlater, hok⟩

/-- A lasting fact may be used later on. -/
theorem frame {Q : α → Link → Prop} (h : Continues i pre a Q) (hpre : Lasting pre) :
    Continues i pre a fun x l => pre l ∧ Q x l := by
  intro l horderly hheld hl
  obtain ⟨hlater, hok⟩ := h l horderly hheld hl
  exact ⟨hlater, fun x hx => ⟨(hok x hx).1, hpre hlater hl, (hok x hx).2⟩⟩

theorem of_exists {κ : Type} {p : κ → Prop} {pre : κ → Link → Prop}
    (h : ∀ k, p k → Continues i (pre k) a post) :
    Continues i (fun l => ∃ k, p k ∧ pre k l) a post := by
  rintro l horderly hheld ⟨k, hk, hl⟩
  exact h k hk l horderly hheld hl

end Continues

theorem Lasting.and {P Q : Link → Prop} (hP : Lasting P) (hQ : Lasting Q) :
    Lasting fun l => P l ∧ Q l :=
  fun _ _ hlater h => ⟨hP hlater h.1, hQ hlater h.2⟩

/-- What is said of the identities of classes alone. -/
theorem lasting_identities (P : (String → Option MachineText × Option String) → Prop) :
    Lasting fun l => P l.machine.identities := by
  intro l l' hlater h
  rwa [hlater.identities]

theorem lasting_knownAs (i : Nat) (key : String) (x : Option Loader) :
    Lasting fun l => l.KnownAs i ((l.machine.identities key).2.map .loader) x := by
  intro l l' hlater h
  rw [hlater.identities]
  exact h.later hlater

/-! ### Meeting loaders -/

theorem knownLoaders_eq {c : Connection} (h : l.connections[i]? = some c) :
    knownLoaders i l = c.loaders := by
  rw [knownLoaders, h]
  rfl

theorem get_bind (f : Link → ExceptT ε (StateM Link) α) (l : Link) : (get >>= f) l = f l l := rfl

theorem call_bind (a : Native β) (f : β → ExceptT ε (StateM Link) α) (l : Link) :
    ((Link.call a : ExceptT ε (StateM Link) β) >>= f) l =
      f (a l.machine).1 { l with machine := (a l.machine).2 } := rfl

theorem loaderFor_known {r : Reference} {k : KnownLoader}
    (h : (knownLoaders i l).find? (fun k => k.reference.object = r.object) = some k) :
    loaderFor i (some r) l = (.ok (some (.object i k.id)), l) := by
  simp only [loaderFor]
  rw [get_bind]
  simp only [h]
  rfl

theorem loaderFor_new {r p : Reference} {m : Machine} {c : Connection}
    (hc : l.connections[i]? = some c)
    (h : (knownLoaders i l).find? (fun k => k.reference.object = r.object) = none)
    (hpin : pin r.object l.machine = (some p, m)) :
    loaderFor i (some r) l = (.ok (some (.object i c.nextId)),
      (updateConnection i (Connection.number c.nextId p) { l with machine := m }).2) := by
  simp only [loaderFor]
  rw [get_bind]
  simp only [h]
  rw [call_bind, hpin]
  simp only
  rw [get_bind, lift_bind_apply]
  simp only [hc, Option.map_some, Option.getD_some]
  rfl

theorem loaderFor_unpinned {r : Reference} {m : Machine}
    (h : (knownLoaders i l).find? (fun k => k.reference.object = r.object) = none)
    (hpin : pin r.object l.machine = (none, m)) :
    loaderFor i (some r) l =
      (.error (.jni "cannot pin class loader"), { l with machine := m }) := by
  simp only [loaderFor]
  rw [get_bind]
  simp only [h]
  rw [call_bind, hpin]
  rfl

/-- A loader that has a number keeps it. -/
theorem knownAs_of_find {c : Connection} {r : Reference} {k : KnownLoader} (horderly : c.Orderly)
    (hc : l.connections[i]? = some c)
    (h : (knownLoaders i l).find? (fun k => k.reference.object = r.object) = some k) :
    l.KnownAs i (some r.object) (some (.object i k.id)) := by
  rw [knownLoaders_eq hc] at h
  have hobject : k.reference.object = r.object := by simpa using List.find?_some h
  have hmem : (k.id, r.object) ∈ c.numbers :=
    List.mem_map.mpr ⟨k, List.mem_of_find?_eq_some h, by rw [hobject]⟩
  exact ⟨k.id, c, rfl, (horderly.used _ hmem).1, hc, fun _ => hmem⟩

theorem connection_number {c : Connection} (hc : l.connections[i]? = some c) (id : Nat)
    (p : Reference) :
    (updateConnection i (Connection.number id p) l).2.connections[i]? = some (c.number id p) := by
  rw [updateConnection_apply]
  simp only [Array.getElem?_modify, ↓reduceIte, hc, Option.map_some]

/-- A loader that is met for the first time is known by the number that it gets. -/
theorem knownAs_number {c : Connection} {p : Reference} (horderly : c.Orderly)
    (hc : l.connections[i]? = some c) :
    (updateConnection i (Connection.number c.nextId p) l).2.KnownAs i (some p.object)
      (some (.object i c.nextId)) := by
  refine ⟨c.nextId, c.number c.nextId p, rfl, horderly.next, connection_number hc _ _, fun _ => ?_⟩
  rw [Connection.numbers_number]
  exact List.mem_append_right _ List.mem_cons_self

theorem Later.number {c : Connection} {p : Reference} (hc : l.connections[i]? = some c)
    (h : (knownLoaders i l).find? (fun k => k.reference.object = p.object) = none) :
    l.Later (updateConnection i (Connection.number c.nextId p) l).2 := by
  refine .update _ fun c' hc' => ?_
  obtain rfl := Option.some.inj (hc.symm.trans hc')
  refine .number fun n hn => ?_
  rw [knownLoaders_eq hc] at h
  obtain ⟨k, hk, rfl⟩ := List.mem_map.mp hn
  simpa using List.find?_eq_none.mp h k hk

/-- A loader object gets to be known, and always in the same way. -/
theorem loaderFor_continues (pre : Link → Prop) (o : Option Reference) :
    Continues i pre (loaderFor i o) fun x l => l.KnownAs i (o.map (·.object)) x := by
  rintro l horderly ⟨c, hc, hheld⟩ -
  have hnumbering : c.Orderly := horderly hc hheld
  cases o with
  | none =>
    refine ⟨.refl l, fun x hx => ?_⟩
    cases hx
    exact ⟨.refl l, rfl⟩
  | some r =>
    cases hfind : (knownLoaders i l).find? fun k => k.reference.object = r.object with
    | some k =>
      rw [loaderFor_known hfind]
      refine ⟨.refl l, fun x hx => ⟨.refl l, ?_⟩⟩
      cases hx
      exact knownAs_of_find hnumbering hc hfind
    | none =>
      have hkept := Machine.identities_eq (pin_keeps r.object) l.machine
      rcases hpin : pin r.object l.machine with ⟨_ | p, m⟩ <;> rw [hpin] at hkept
      · rw [loaderFor_unpinned hfind hpin]
        exact ⟨.of_machine hkept, fun _ hx => by cases hx⟩
      · rw [loaderFor_new hc hfind hpin]
        have hobject : p.object = r.object := pin_object (congrArg Prod.fst hpin)
        rw [← hobject] at hfind
        let met : Link := { l with machine := m }
        have hmet : l.Later met := .of_machine hkept
        refine ⟨hmet.trans (.number (l := met) hc hfind), fun x hx => ?_⟩
        cases hx
        refine ⟨Stays.trans (.of_same rfl) (.update _ fun _ _ hheld => hheld), ?_⟩
        rw [Option.map_some, ← hobject]
        exact knownAs_number (l := met) hnumbering hc

/-! ### Holding on and letting go -/

theorem Later.retain (hheld : l.Held i) : l.Later (retain i l).2 := by
  refine .update _ fun c hc => .of_numbers (fun _ => ?_) rfl rfl
  obtain ⟨c', hc', hheld⟩ := hheld
  obtain rfl := Option.some.inj (hc.symm.trans hc')
  exact hheld

theorem Stays.retain : l.Stays (retain i l).2 := .update _ fun _ _ _ => Nat.succ_ne_zero _

theorem Later.push (l : Link) (h : HeldClass) : l.Later { l with held := l.held.push h } where
  identities := rfl
  objects {index h'} hh := by
    have hindex := (Array.getElem?_eq_some_iff.mp hh).1
    rw [Array.getElem?_push_lt hindex, ← hh, Array.getElem?_eq_getElem hindex]
  connection h := ⟨_, h, .refl _⟩
  new h h' := by rw [h] at h'; cases h'

theorem not_held_iff : ¬ l.Held i ↔ isReleased i l = true := by
  rw [← isReleased_eq_false, Bool.not_eq_false]

theorem native_later {a : Native α} (h : Keeps Machine.classes a) (l : Link) :
    l.Later (native a l).2 :=
  .of_machine (Machine.identities_eq h l.machine)

/-- Of a connection that is released anything may be dropped. -/
theorem Later.dropLoaders (ks : List KnownLoader) (h : ¬ l.Held i) :
    l.Later (dropLoaders i ks l).2 := by
  induction ks generalizing l with
  | nil => exact .refl l
  | cons k rest ih =>
    simp only [Link.dropLoaders]
    split
    · have hunpin := native_later (unpin_keeps k.reference) l
      have hdrop : (native (unpin k.reference) l).2.Later (updateConnection i
          (fun c => { c with loaders := c.loaders.filter (·.id ≠ k.id) })
          (native (unpin k.reference) l).2).2 :=
        .update _ fun c hc => .of_released (by_contra fun hheld => h ⟨c, hc, hheld⟩)
      refine (hunpin.trans hdrop).trans (ih fun hheld => h ?_)
      obtain ⟨c', hc', hheld⟩ := hheld
      rw [updateConnection_apply] at hc'
      simp only [Array.getElem?_modify, ↓reduceIte] at hc'
      obtain ⟨c, hc, rfl⟩ := Option.map_eq_some_iff.mp hc'
      exact ⟨c, hc, hheld⟩
    · exact ih h

theorem Later.releaseConnection (l : Link) (i : Nat) : l.Later (releaseConnection i l).2 := by
  have hless : l.Later (updateConnection i (fun c => { c with holders := c.holders - 1 }) l).2 :=
    .update _ fun c _ => .of_numbers (fun hheld hnone => hheld (by simp [hnone])) rfl rfl
  unfold Link.releaseConnection
  rw [state_get_bind]
  cases hc : l.connections[i]? with
  | none => exact .refl l
  | some c =>
    simp only
    rw [state_bind_apply]
    split
    · next hlast =>
      refine hless.trans (.dropLoaders _ ?_)
      rintro ⟨c', hc', hheld⟩
      rw [updateConnection_apply] at hc'
      simp only [Array.getElem?_modify, ↓reduceIte, hc] at hc'
      cases hc'
      exact hheld (by simp [hlast])
    · exact hless

theorem Later.releaseClass (l : Link) (index : Nat) : l.Later (releaseClass index l).2 := by
  unfold Link.releaseClass
  rw [state_get_bind]
  cases l.held[index]? with
  | none => exact .refl l
  | some h => exact (native_later (unpin_keeps _) l).trans (.releaseConnection _ _)

theorem Later.releaseAll (cs : List ClassRef) (l : Link) : l.Later (releaseAll cs l).2 := by
  induction cs generalizing l with
  | nil => exact .refl l
  | cons c rest ih =>
    unfold Link.releaseAll
    split
    · exact (Later.releaseClass l _).trans (ih _)
    · exact ih l

theorem Later.updateLoader (i id : Nat) (f : KnownLoader → KnownLoader)
    (hf : ∀ k, (f k).id = k.id ∧ (f k).reference = k.reference) (l : Link) :
    l.Later (updateLoader i id f l).2 := by
  refine .update _ fun c _ => .of_numbers (fun hheld => hheld) ?_ rfl
  simp only [Connection.numbers, List.map_map, List.map_inj_left, Function.comp_apply]
  intro k _
  split
  · rw [(hf k).1, (hf k).2]
  · rfl

theorem Later.retainLoader (i id : Nat) (l : Link) : l.Later (retainLoader i id l).2 :=
  .updateLoader i id (fun k => { k with holders := k.holders + 1 }) (fun _ => ⟨rfl, rfl⟩) l

theorem Later.releaseLoader (i id : Nat) (l : Link) : l.Later (releaseLoader i id l).2 := by
  have hless := Later.updateLoader i id (fun k => { k with holders := k.holders - 1 })
    (fun _ => ⟨rfl, rfl⟩) l
  unfold Link.releaseLoader
  rw [state_bind_apply, state_get_bind]
  split
  · next hreleased => exact hless.trans (.dropLoaders _ (not_held_iff.mpr hreleased))
  · exact hless

theorem Later.connect (l : Link) : l.Later (connect l).2 where
  identities := rfl
  objects := id
  connection {j c} hc := by
    have hj := (Array.getElem?_eq_some_iff.mp hc).1
    refine ⟨c, ?_, .refl c⟩
    rw [show (Link.connect l).2.connections = l.connections.push {} from rfl,
      Array.getElem?_push_lt hj, ← hc, Array.getElem?_eq_getElem hj]
  new {j c'} hnone hc' _ := by
    rw [show (Link.connect l).2.connections = l.connections.push {} from rfl,
      Array.getElem?_push] at hc'
    split at hc'
    · cases hc'
      exact Connection.orderly_new
    · rw [hnone] at hc'
      cases hc'

end Link

end ClassRecovery.Jvm
