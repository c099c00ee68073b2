import ClassRecovery.Proofs.Jvm.Numbering
import ClassRecovery.Proofs.Jvm.Resources

/-!
What is pinned in a machine, and for whom: each class object that is held, each loader that a
connection knows, and each open stream. A connection without holders knows only the loaders that
somebody holds beside it.
-/

namespace ClassRecovery.Jvm

/-- Who holds what: connections, classes with what is pinned for them, loaders by their connection
and number, and open streams. -/
structure Holdings where
  connections : List Nat := []
  classes : List (ClassRef × HeldClass) := []
  loaders : List (Nat × Nat) := []
  streams : List Reference := []

/-- A class holds its connection too. -/
def Holdings.holders (K : Holdings) : List Nat :=
  K.connections ++ K.classes.map (·.2.connection)

section Modify

variable {α β : Type} {f : α → α} {g : α → List β} {xs : List α} {i : Nat} {a : α}

/-- What a list is made of, at one place and at all others. -/
theorem flatMap_modify (h : xs[i]? = some a) : ∃ rest, (xs.flatMap g).Perm (g a ++ rest) ∧
    ((xs.modify i f).flatMap g).Perm (g (f a) ++ rest) := by
  obtain ⟨hi, rfl⟩ := List.getElem?_eq_some_iff.mp h
  have hmove : ∀ ys : List β, ((xs.take i).flatMap g ++ (ys ++ (xs.drop (i + 1)).flatMap g)).Perm
      (ys ++ ((xs.take i).flatMap g ++ (xs.drop (i + 1)).flatMap g)) := by
    intro ys
    rw [← List.append_assoc, ← List.append_assoc]
    exact List.perm_append_comm.append_right _
  refine ⟨(xs.take i).flatMap g ++ (xs.drop (i + 1)).flatMap g, ?_, ?_⟩
  · have hsplit : xs = xs.take i ++ xs[i] :: xs.drop (i + 1) := by simp
    conv_lhs => rw [hsplit, List.flatMap_append, List.flatMap_cons]
    exact hmove _
  · rw [List.modify_eq_take_cons_drop hi, List.flatMap_append, List.flatMap_cons]
    exact hmove _

end Modify

namespace Link

variable {b : Machine} {reliable : Prop} {A B : Throwable → Prop} {owed : List Reference}
  {K J : Holdings} {idle idle' : List (Nat × KnownLoader)} {l : Link} {c : Connection}
  {i id : Nat} {α ε : Type}

/-- The references to the loaders that are known. -/
def loaderPins (l : Link) : List Reference :=
  l.connections.toList.flatMap fun c => c.loaders.map (·.reference)

def pins (K : Holdings) (l : Link) : List Reference :=
  K.classes.map (·.2.reference) ++ (l.loaderPins ++ K.streams)

/-- Whether a connection has given out a number. -/
def Knows (l : Link) (i id : Nat) : Prop := ∃ c, l.connections[i]? = some c ∧ id < c.nextId

/-- The loader of a class is one of the connection that it was met through. -/
def Tells (l : Link) (i : Nat) (x : Option Loader) : Prop :=
  ∀ y, x = some y → ∃ id, y = .object i id ∧ l.Knows i id

/-- What is right of a connection: a loader that it knows has a number of its own and, if nobody
holds the connection, a holder, unless it is `idle`. -/
structure Tidy (held : List (Nat × Nat)) (idle : List (Nat × KnownLoader)) (i : Nat)
    (c : Connection) : Prop where
  ids : (c.loaders.map (·.id)).Nodup
  used : ∀ k ∈ c.loaders, k.id < c.nextId
  counted : ∀ k ∈ c.loaders, k.holders = held.count (i, k.id)
  kept : c.holders = 0 → ∀ k ∈ c.loaders, k.holders = 0 → (i, k) ∈ idle
  next : Loader.bootId < c.nextId

/-- A class that is held, as the link has it. -/
def Holds (l : Link) (e : ClassRef × HeldClass) : Prop :=
  (∃ index, e.1.origin = .object index ∧ l.held[index]? = some e.2) ∧
    l.Tells e.2.connection e.1.loader

/-- The books are right: what is held is there, holders are counted, and connections are tidy. -/
structure Books (K : Holdings) (idle : List (Nat × KnownLoader)) (l : Link) : Prop where
  classes : ∀ e ∈ K.classes, l.Holds e
  holders : ∀ i, ((l.connections[i]?).map (·.holders)).getD 0 = K.holders.count i
  tidy : ∀ {i : Nat} {c : Connection}, l.connections[i]? = some c → Tidy K.loaders idle i c
  known : ∀ e ∈ K.loaders, l.Knows e.1 e.2

/-- Since `b`, beside what the machine is like, what is pinned is what is held or known. -/
structure Since (b : Machine) (reliable : Prop) (A : Throwable → Prop) (owed : List Reference)
    (K : Holdings) (l : Link) : Prop where
  machine : b.Since reliable A owed (l.pins K) l.machine
  books : reliable → l.Books K []

theorem Since.mono (h : Since b reliable A owed K l) (hA : ∀ t, A t → B t) :
    Since b reliable B owed K l :=
  ⟨h.machine.mono hA, h.books⟩

/-- Whoever is held is there, and counted. -/
theorem Books.held (h : l.Books K idle) (hi : i ∈ K.holders) : l.Held i := by
  have hcount := List.count_pos_iff.mpr hi
  rw [← h.holders i] at hcount
  cases hc : l.connections[i]? with
  | none => simp [hc] at hcount
  | some c => exact ⟨c, hc, by simpa [hc] using Nat.ne_of_gt hcount⟩

theorem Books.count_eq (h : l.Books K idle) (hc : l.connections[i]? = some c) :
    K.holders.count i = c.holders := by
  rw [← h.holders, hc]
  rfl

theorem Books.of_machine (h : l.Books K idle) (m : Machine) :
    { l with machine := m }.Books K idle :=
  ⟨h.classes, h.holders, h.tidy, h.known⟩

theorem Since.of_machine {m : Machine} {P : List Reference} (h : Since b reliable A owed K l)
    (hm : b.Since reliable B P (l.pins K) m) : Since b reliable B P K { l with machine := m } :=
  ⟨hm, fun hr => (h.books hr).of_machine m⟩

/-! ### Asking the machine -/

theorem checked_since {a : ExceptT ε (StateM Machine) α} {O : α → List Reference}
    {Q : α → Throwable → Prop} {F : Throwable → Prop} {P : List Reference}
    (h : ∀ pins, Attains (b.Since reliable A owed pins) a
      (fun x => b.Since reliable (Q x) (O x) pins) (b.Since reliable F P pins)) :
    Attains (Since b reliable A owed K) (checked a) (fun x => Since b reliable (Q x) (O x) K)
      (Since b reliable F P K) := by
  intro l hl
  have hl' := h _ _ hl.machine
  unfold checked
  rcases hrun : a l.machine with ⟨e | x, m⟩ <;> rw [hrun] at hl' <;>
    exact hl.of_machine hl'

theorem native_since {a : Native α} {O : α → List Reference} {Q : α → Throwable → Prop}
    (h : ∀ pins, Ensures (b.Since reliable A owed pins) a
      fun x => b.Since reliable (Q x) (O x) pins) :
    Ensures (Since b reliable A owed K) (native a) fun x => Since b reliable (Q x) (O x) K :=
  fun _ hl => hl.of_machine (h _ _ hl.machine)

theorem call_since {a : Native α} {O : α → List Reference} {Q : α → Throwable → Prop}
    {E : Link → Prop} (h : ∀ pins, Ensures (b.Since reliable A owed pins) a
      fun x => b.Since reliable (Q x) (O x) pins) :
    Attains (Since b reliable A owed K) (call a : ExceptT ε (StateM Link) α)
      (fun x => Since b reliable (Q x) (O x) K) E :=
  fun _ hl => hl.of_machine (h _ _ hl.machine)

theorem holding_since {r : Option Reference} {use : Linked α} {Q : α → Throwable → Prop}
    {H : α → Holdings} {F : Throwable → Prop} {P : Holdings}
    (h : Attains (Since b reliable A (r.toList ++ owed) K) use
      (fun x => Since b reliable (Q x) (r.toList ++ owed) (H x))
      (Since b reliable F (r.toList ++ owed) P)) :
    Attains (Since b reliable A (r.toList ++ owed) K) (holding r use)
      (fun x => Since b reliable (Q x) owed (H x)) (Since b reliable F owed P) :=
  .andAlways h (fun _ => native_since fun _ => Machine.deleteLocal_since r)
    (native_since fun _ => Machine.deleteLocal_since r)

/-! ### Connections that change -/

theorem getElem?_update (f : Connection → Connection) (j : Nat) :
    (updateConnection i f l).2.connections[j]? =
      if i = j then (l.connections[j]?).map f else l.connections[j]? :=
  Array.getElem?_modify

theorem getElem?_update_self {f : Connection → Connection} (hc : l.connections[i]? = some c) :
    (updateConnection i f l).2.connections[i]? = some (f c) := by
  rw [getElem?_update, if_pos rfl, hc]
  rfl

theorem Knows.update {f : Connection → Connection} {j : Nat} (h : l.Knows j id)
    (hnext : ∀ c, c.nextId ≤ (f c).nextId) : (updateConnection i f l).2.Knows j id := by
  obtain ⟨c, hc, hid⟩ := h
  unfold Knows
  rw [getElem?_update, hc]
  split
  · exact ⟨f c, rfl, hid.trans_le (hnext c)⟩
  · exact ⟨c, rfl, hid⟩

theorem Tells.update {f : Connection → Connection} {j : Nat} {x : Option Loader}
    (h : l.Tells j x) (hnext : ∀ c, c.nextId ≤ (f c).nextId) :
    (updateConnection i f l).2.Tells j x := by
  intro y hy
  obtain ⟨id, hid, hknows⟩ := h y hy
  exact ⟨id, hid, hknows.update hnext⟩

/-- One connection changes, and what is held may change with it. -/
theorem Books.update {f : Connection → Connection} (h : l.Books K idle)
    (hc : l.connections[i]? = some c) (hnext : ∀ c, c.nextId ≤ (f c).nextId)
    (hclasses : J.classes ⊆ K.classes)
    (hcount : ∀ j, J.holders.count j = if i = j then (f c).holders else K.holders.count j)
    (hloaders : ∀ e ∈ J.loaders, l.Knows e.1 e.2) (htidy : Tidy J.loaders idle' i (f c))
    (hothers : ∀ j c', i ≠ j → Tidy K.loaders idle j c' → Tidy J.loaders idle' j c') :
    (updateConnection i f l).2.Books J idle' where
  classes e he := (h.classes e (hclasses he)).imp_right (·.update hnext)
  holders j := by
    rw [getElem?_update, hcount]
    split
    · next hij =>
      rw [← hij, hc]
      rfl
    · exact h.holders j
  tidy {j c'} hc' := by
    rw [getElem?_update] at hc'
    split at hc'
    · next hij =>
      subst hij
      rw [hc] at hc'
      cases hc'
      exact htidy
    · next hij => exact hothers j c' hij (h.tidy hc')
  known e he := (hloaders e he).update hnext

/-- The loaders that one connection knew are exchanged for those that it knows then. -/
theorem pins_update {f : Connection → Connection} (hc : l.connections[i]? = some c) :
    ((f c).loaders.map (·.reference) ++ l.pins K).Perm
      (c.loaders.map (·.reference) ++ (updateConnection i f l).2.pins K) := by
  obtain ⟨rest, hold, hnew⟩ := flatMap_modify (f := f)
    (g := fun c => c.loaders.map (·.reference)) (by rwa [Array.getElem?_toList] :
      l.connections.toList[i]? = some c)
  have hpins : (updateConnection i f l).2.loaderPins = (l.connections.toList.modify i f).flatMap
      fun c => c.loaders.map (·.reference) := by
    rw [updateConnection_apply, loaderPins, Array.toList_modify]
  unfold pins
  rw [hpins, loaderPins]
  rw [← Multiset.coe_eq_coe] at hold hnew ⊢
  simp only [← Multiset.coe_add] at hold hnew ⊢
  rw [hold, hnew]
  abel

theorem pins_update_add {f : Connection → Connection} (new : List Reference)
    (hc : l.connections[i]? = some c)
    (hf : ((f c).loaders.map (·.reference)).Perm (new ++ c.loaders.map (·.reference))) :
    (new ++ l.pins K).Perm ((updateConnection i f l).2.pins K) := by
  have hexchange := pins_update (K := K) (f := f) hc
  rw [← Multiset.coe_eq_coe] at hexchange hf ⊢
  simp only [← Multiset.coe_add] at hexchange hf ⊢
  rw [hf, add_comm (new : Multiset Reference), add_assoc] at hexchange
  exact add_left_cancel hexchange

theorem pins_update_drop {f : Connection → Connection} (gone : List Reference)
    (hc : l.connections[i]? = some c)
    (hf : (c.loaders.map (·.reference)).Perm (gone ++ (f c).loaders.map (·.reference))) :
    (l.pins K).Perm (gone ++ (updateConnection i f l).2.pins K) := by
  have hexchange := pins_update (K := K) (f := f) hc
  rw [← Multiset.coe_eq_coe] at hexchange hf ⊢
  simp only [← Multiset.coe_add] at hexchange hf ⊢
  rw [hf, add_comm (gone : Multiset Reference), add_assoc] at hexchange
  exact add_left_cancel hexchange

/-- A connection changes; what is pinned goes with it. -/
theorem Since.update {f : Connection → Connection} {P : List Reference}
    (h : b.Since reliable A owed P l.machine)
    (hf : reliable → (updateConnection i f l).2.Books K [] ∧
      P.Perm ((updateConnection i f l).2.pins K)) :
    Since b reliable A owed K (updateConnection i f l).2 :=
  ⟨h.repin fun hr => (hf hr).2, fun hr => (hf hr).1⟩

/-! ### Meeting loaders -/

theorem Tidy.number (h : Tidy K.loaders idle i c) (hheld : c.holders ≠ 0)
    (hknown : ∀ id, (i, id) ∈ K.loaders → id < c.nextId) (p : Reference) :
    Tidy K.loaders idle i (c.number c.nextId p) where
  ids := by
    change ((c.loaders ++ [_]).map KnownLoader.id).Nodup
    rw [List.map_append, List.nodup_append]
    refine ⟨h.ids, by simp, fun id hid id' hid' => ?_⟩
    obtain ⟨k, hk, rfl⟩ := List.mem_map.mp hid
    obtain rfl : id' = c.nextId := by simpa using hid'
    exact Nat.ne_of_lt (h.used k hk)
  used k hk := by
    rcases List.mem_append.mp hk with hk | hk
    · exact Nat.lt_succ_of_lt (h.used k hk)
    · obtain rfl := List.mem_singleton.mp hk
      exact Nat.lt_succ_self _
  counted k hk := by
    rcases List.mem_append.mp hk with hk | hk
    · exact h.counted k hk
    · obtain rfl := List.mem_singleton.mp hk
      exact (List.count_eq_zero.mpr fun hid => absurd (hknown _ hid) (Nat.lt_irrefl _)).symm
  kept hnone := absurd hnone hheld
  next := Nat.lt_succ_of_lt h.next

theorem Books.known_lt (h : l.Books K idle) (hc : l.connections[i]? = some c)
    (hid : (i, id) ∈ K.loaders) : id < c.nextId := by
  obtain ⟨c', hc', hlt⟩ := h.known _ hid
  obtain rfl := Option.some.inj (hc.symm.trans hc')
  exact hlt

/-- A loader that is met for the first time is pinned for the connection and numbered. -/
theorem Since.number {p : Reference} (h : b.Since reliable A owed (p :: l.pins K) l.machine)
    (hbooks : reliable → l.Books K []) (hi : reliable → i ∈ K.holders) :
    let id := ((l.connections[i]?).map (·.nextId)).getD 0
    let l' := (updateConnection i (Connection.number id p) l).2
    Since b reliable A owed K l' ∧ (reliable → l'.Knows i id) := by
  refine ⟨.update h fun hr => ?_, fun hr => ?_⟩
  all_goals
    obtain ⟨c, hc, hheld⟩ := (hbooks hr).held (hi hr)
    rw [hc]
  · have htidy := ((hbooks hr).tidy hc).number hheld (fun id => (hbooks hr).known_lt hc) p
    refine ⟨(hbooks hr).update hc (fun _ => Nat.le_succ _) (List.Subset.refl _) (fun j => ?_)
      (hbooks hr).known htidy fun j c' _ => id, pins_update_add [p] hc ?_⟩
    · split
      · next hij =>
        subst hij
        exact (hbooks hr).count_eq (c := c) hc
      · rfl
    · change ((c.loaders ++ [_]).map KnownLoader.reference).Perm _
      rw [List.map_append]
      exact List.perm_append_comm
  · exact ⟨_, getElem?_update_self hc, Nat.lt_succ_self _⟩

/-- A pin that nobody holds yet, if there is one. -/
def Pinned (b : Machine) (reliable : Prop) (A : Throwable → Prop) (owed : List Reference)
    (K : Holdings) : Option Reference → Link → Prop
  | some p, l => b.Since reliable A owed (p :: l.pins K) l.machine ∧ (reliable → l.Books K [])
  | none, l => Since b reliable (fun t => A t ∨ b.PinThrows t) owed K l

theorem pin_pinned (o : Object) {E : Link → Prop} :
    Attains (Since b reliable A owed K) (call (pin o) : ExceptT ε (StateM Link) _)
      (Pinned b reliable A owed K) E := by
  intro l hl
  have hpin := pin_since o l.machine hl.machine
  change Pinned b reliable A owed K (pin o l.machine).1 { l with machine := (pin o l.machine).2 }
  rcases hrun : pin o l.machine with ⟨_ | p, m⟩ <;> rw [hrun] at hpin
  · exact hl.of_machine hpin
  · exact ⟨hpin, fun hr => (hl.books hr).of_machine m⟩

/-- What depends on the connections alone. -/
theorem Tells.of_machine {x : Option Loader} (h : l.Tells i x) (m : Machine) :
    { l with machine := m }.Tells i x := h

/-- A loader object that is met comes to be known, and stays pinned. -/
theorem loaderFor_since (hi : reliable → i ∈ K.holders) (o : Option Reference) :
    Attains (Since b reliable A owed K) (loaderFor i o)
      (fun x l => Since b reliable A owed K l ∧ (reliable → l.Tells i x))
      (Since b reliable (fun t => A t ∨ b.PinThrows t) owed K) := by
  cases o with
  | none => exact .ok fun _ h => ⟨h, fun _ _ hy => nomatch hy⟩
  | some r =>
    refine .get_bind fun l hl => ?_
    split
    · next k hfind =>
      refine .ok ?_
      rintro _ ⟨rfl, h⟩
      refine ⟨h, fun hr y hy => ⟨k.id, (Option.some.inj hy).symm, ?_⟩⟩
      obtain ⟨c, hc, -⟩ := (hl.books hr).held (hi hr)
      rw [knownLoaders_eq hc] at hfind
      exact ⟨c, hc, ((hl.books hr).tidy hc).used k (List.mem_of_find?_eq_some hfind)⟩
    refine .of_imp (fun _ h => h.2) (.bind (pin_pinned r.object) fun p => ?_)
    cases p with
    | none => exact .throw fun _ h => h
    | some p =>
      refine .get_bind fun l hl => ?_
      rintro _ ⟨rfl, hl⟩
      have hnumber := Since.number hl.1 hl.2 hi
      exact ⟨hnumber.1, fun hr y hy => ⟨_, (Option.some.inj hy).symm, hnumber.2 hr⟩⟩

/-! ### Meeting classes -/

theorem className_since (cls : Object) {pins : List Reference} :
    Attains (b.Since reliable A owed pins) (className cls)
      (fun _ => b.Since reliable (fun _ => False) owed pins)
      (b.Since reliable b.CharsThrow owed pins) := by
  refine .bind (Checked.requireMethod_since _ _ _) fun _ =>
    .lift_bind (Machine.callObject_since _ _) fun r => ?_
  refine Checked.holding_since (O := fun _ => []) (.bind (Checked.check_calms
    (B := fun _ => False) _) fun _ => .lift_bind (Checked.stringText_since r) fun text => ?_)
  cases text with
  | some name => exact .ok fun _ h => h.mono fun _ ht => ht.elim id fun hnone => nomatch hnone.1
  | none => exact .throw fun _ h => h.mono fun _ ht => ht.elim False.elim And.right

theorem classKind_since (cls : Object) (questions : List (String × ClassKind))
    {pins : List Reference} :
    Attains (b.Since reliable A owed pins) (classKind cls questions)
      (fun _ => b.Since reliable A owed pins) (b.Since reliable B owed pins) := by
  induction questions with
  | nil => exact .ok fun _ h => h
  | cons question rest ih =>
    refine .bind (Checked.callFlag_since (B := A) _ _) fun holds => ?_
    split
    · exact .ok fun _ h => h
    · exact ih

theorem loaderOf_since (hi : reliable → i ∈ K.holders) (cls : Object) :
    Attains (Since b reliable A owed K) (loaderOf i cls)
      (fun x l => Since b reliable (fun _ => False) owed K l ∧ (reliable → l.Tells i x))
      (Since b reliable b.PinThrows owed K) := by
  refine .bind (checked_since (Q := fun _ _ => False) (O := fun _ => owed) fun _ =>
    Checked.requireMethod_since _ _ _) fun _ => ?_
  refine .bind (call_since fun _ => Machine.callObject_since _ _) fun r => ?_
  refine .andAlways (R := fun x l => Since b reliable (fun _ => False) (r.toList ++ owed) K l ∧
      (reliable → l.Tells i x)) (F := Since b reliable b.PinThrows (r.toList ++ owed) K) ?_
    (fun x l hl => ⟨native_since (Q := fun _ _ => False) (O := fun _ => owed)
      (fun _ => Machine.deleteLocal_since r) l hl.1, fun hr => (hl.2 hr).of_machine _⟩)
    (native_since fun _ => Machine.deleteLocal_since r)
  refine .bind (checked_since (Q := fun _ _ => False) (O := fun _ => r.toList ++ owed) fun _ =>
    Checked.check_calms _) fun _ => ?_
  exact (loaderFor_since hi r).imp (fun _ _ h => h) fun _ h => h.mono fun _ => (·.elim False.elim id)

theorem Books.retain (h : l.Books K idle) (hi : i ∈ K.holders) :
    (retain i l).2.Books { K with connections := i :: K.connections } idle := by
  obtain ⟨c, hc, hheld⟩ := h.held hi
  have htidy := h.tidy hc
  refine h.update hc (fun _ => le_rfl) (List.Subset.refl _) (fun j => ?_) h.known
    ⟨htidy.ids, htidy.used, htidy.counted, (fun hnone => nomatch hnone), htidy.next⟩ fun _ _ _ => id
  change (i :: K.holders).count j = _
  simp only [List.count_cons, beq_iff_eq]
  split
  · next hij => rw [← hij, h.count_eq hc]
  · rfl

/-- Who held a connection holds a class through it. -/
theorem Books.push {p : Reference} {d : ClassRef}
    (h : l.Books { K with connections := i :: K.connections } idle)
    (horigin : d.origin = .object l.held.size) (htells : l.Tells i d.loader) :
    { l with held := l.held.push ⟨i, p⟩ }.Books
      { K with classes := (d, ⟨i, p⟩) :: K.classes } idle where
  classes e he := by
    rcases List.mem_cons.mp he with rfl | he
    · exact ⟨⟨_, horigin, Array.getElem?_push_size⟩, htells⟩
    · obtain ⟨⟨index, hindex, hheld⟩, htells'⟩ := h.classes e he
      refine ⟨⟨index, hindex, ?_⟩, htells'⟩
      have hlt := (Array.getElem?_eq_some_iff.mp hheld).1
      rw [Array.getElem?_push_lt hlt, ← hheld, Array.getElem?_eq_getElem hlt]
  holders j := by
    rw [h.holders]
    exact (@List.perm_middle _ _ K.connections _).symm.count_eq j
  tidy := h.tidy
  known := h.known

theorem pins_retain (hc : l.connections[i]? = some c) :
    (l.pins K).Perm ((retain i l).2.pins K) :=
  pins_update_add [] hc (.refl _)

theorem retain_since (hi : reliable → i ∈ K.holders) :
    Ensures (Since b reliable A owed K) (retain i) fun _ =>
      Since b reliable A owed { K with connections := i :: K.connections } := by
  refine fun l hl => ⟨hl.machine.repin fun hr => ?_, fun hr => (hl.books hr).retain (hi hr)⟩
  obtain ⟨c, hc, -⟩ := (hl.books hr).held (hi hr)
  exact pins_retain hc

theorem Since.meet {p : Reference} {d : ClassRef}
    (h : b.Since reliable A owed (p :: l.pins K) l.machine) (hbooks : reliable → l.Books K [])
    (hi : reliable → i ∈ K.holders) (horigin : d.origin = .object l.held.size)
    (htells : reliable → l.Tells i d.loader) :
    Since b reliable A owed { K with classes := (d, ⟨i, p⟩) :: K.classes }
      { (retain i l).2 with held := l.held.push ⟨i, p⟩ } where
  machine := by
    refine h.repin fun hr => ?_
    obtain ⟨c, hc, -⟩ := (hbooks hr).held (hi hr)
    exact (pins_retain hc).cons p
  books hr := ((hbooks hr).retain (hi hr)).push horigin ((htells hr).update fun _ => le_rfl)

/-- Classes that were met are held beside what was held before. -/
def Met (b : Machine) (reliable : Prop) (A : Throwable → Prop) (owed : List Reference)
    (K : Holdings) (cs : List ClassRef) (l : Link) : Prop :=
  ∃ es : List (ClassRef × HeldClass), es.map (·.1) = cs ∧
    (∀ c ∈ cs, ∃ index, c.origin = .object index) ∧
    Since b reliable A owed { K with classes := es ++ K.classes } l

theorem Met.mono {cs : List ClassRef} (h : Met b reliable A owed K cs l) (hA : ∀ t, A t → B t) :
    Met b reliable B owed K cs l := by
  obtain ⟨es, hes, horigin, hl⟩ := h
  exact ⟨es, hes, horigin, hl.mono hA⟩

theorem Since.met (h : Since b reliable A owed K l) : Met b reliable A owed K [] l :=
  ⟨[], rfl, (fun _ hc => nomatch hc), h⟩

theorem deleteLocal_met {cs : List ClassRef} (r : Option Reference) :
    Ensures (Met b reliable A (r.toList ++ owed) K cs) (native (Machine.deleteLocal r)) fun _ =>
      Met b reliable A owed K cs := by
  rintro l ⟨es, hes, horigin, hl⟩
  exact ⟨es, hes, horigin, native_since (Q := fun _ => A) (O := fun _ => owed)
    (fun _ => Machine.deleteLocal_since r) l hl⟩

theorem holding_met {r : Option Reference} {use : Linked α} {f : α → List ClassRef}
    {F : Throwable → Prop} (h : Attains (Since b reliable A (r.toList ++ owed) K) use
      (fun x => Met b reliable B (r.toList ++ owed) K (f x))
      (Since b reliable F (r.toList ++ owed) K)) :
    Attains (Since b reliable A (r.toList ++ owed) K) (holding r use)
      (fun x => Met b reliable B owed K (f x)) (Since b reliable F owed K) :=
  .andAlways h (fun _ => deleteLocal_met r) (native_since fun _ => Machine.deleteLocal_since r)

/-- A class that is met is held, and nothing else is. -/
theorem classOf_since (hi : reliable → i ∈ K.holders) (cls : Option Reference) :
    Attains (Since b reliable A owed K) (classOf i cls)
      (fun c => Met b reliable (fun _ => False) owed K [c])
      (Since b reliable (fun t => A t ∨ b.MeetThrows t) owed K) := by
  cases cls with
  | none => exact .throw fun _ h => h.mono fun _ => .inl
  | some cls =>
    refine .bind (.imp (checked_since (Q := fun _ _ => False) (O := fun _ => owed) fun _ =>
      className_since cls.object) (fun _ _ h => h) fun _ h => h.mono fun _ => .inr ∘ .inl)
      fun name => ?_
    refine .bind (checked_since (Q := fun _ _ => False) (O := fun _ => owed) fun _ =>
      classKind_since _ _) fun kind => ?_
    refine .bind (.imp (loaderOf_since hi _) (fun _ _ h => h) fun _ h =>
      h.mono fun _ => .inr ∘ .inr) fun loader => ?_
    refine .bind (R := fun p l => Pinned b reliable (fun _ => False) owed K p l ∧
      (reliable → l.Tells i loader)) (fun l hl => ⟨pin_pinned (ε := Error) (E := fun _ => True)
        cls.object l hl.1, fun hr => (hl.2 hr).of_machine _⟩) fun p => ?_
    cases p with
    | none => exact .throw fun _ h => h.1.mono fun _ => (·.elim False.elim (.inr ∘ .inr))
    | some p =>
      exact fun l hl => ⟨[(_, ⟨i, p⟩)], rfl, List.forall_mem_singleton.mpr ⟨_, rfl⟩,
        Since.meet hl.1.1 hl.1.2 hi rfl hl.2⟩

end Link

end ClassRecovery.Jvm
