import ClassRecovery.Proofs.Jvm.Releases

/-!
What the operations of a connection leave behind: nothing but what their results hold, and of
exceptions those that calls left which go unchecked.
-/

namespace ClassRecovery.Jvm.Link

variable {b : Machine} {reliable : Prop} {A B : Throwable → Prop} {owed : List Reference}
  {K : Holdings} {es : List (ClassRef × HeldClass)} {cs found : List ClassRef} {l : Link}
  {i : Nat} {α ε : Type}

/-! ### Several classes -/

theorem Met.reverse (h : Met b reliable A owed K cs l) : Met b reliable A owed K cs.reverse l := by
  obtain ⟨es, rfl, horigin, hl⟩ := h
  refine ⟨es.reverse, List.map_reverse, fun c hc => horigin c (List.mem_reverse.mp hc), ?_⟩
  exact hl.same ⟨.refl _, es.reverse_perm.symm.append_right _, .refl _, .refl _⟩

theorem Met.append (h : Met b reliable A owed { K with classes := es ++ K.classes } cs l)
    (hes : es.map (·.1) = found) (horigin : ∀ c ∈ found, ∃ index, c.origin = .object index) :
    Met b reliable A owed K (cs ++ found) l := by
  obtain ⟨new, rfl, hnew, hl⟩ := h
  refine ⟨new ++ es, by rw [List.map_append, hes], fun c hc => ?_, ?_⟩
  · exact (List.mem_append.mp hc).elim (hnew c) (horigin c)
  · rw [List.append_assoc]
    exact hl

theorem mem_holders_append (hi : i ∈ K.holders) :
    i ∈ Holdings.holders { K with classes := es ++ K.classes } := by
  simp only [Holdings.holders, List.map_append, List.mem_append] at hi ⊢
  exact hi.imp_right .inr

/-- What holds whatever is held for the classes that were met. -/
theorem attains_met {a : ExceptT ε (StateM Link) α} {Q : α → Link → Prop} {E : Link → Prop}
    (h : ∀ es : List (ClassRef × HeldClass), es.map (·.1) = cs →
      (∀ c ∈ cs, ∃ index, c.origin = .object index) →
      Attains (Since b reliable A owed { K with classes := es ++ K.classes }) a Q E) :
    Attains (Met b reliable A owed K cs) a Q E := by
  rintro l ⟨es, hes, horigin, hl⟩
  exact h es hes horigin l hl

/-- Members that were met are let go again if a later one cannot be met. -/
theorem classesOf_since (hi : reliable → i ∈ K.holders) (array : Object) (ns : List Nat) :
    Attains (Met b reliable A owed K found) (classesOf i array ns found)
      (fun cs => Met b reliable A owed K cs)
      (Since b reliable (fun t => A t ∨ b.MeetThrows t) owed K) := by
  induction ns generalizing found A with
  | nil => exact .ok fun _ h => h.reverse
  | cons n ns ih =>
    refine attains_met fun es hes horigin => ?_
    refine .bind (call_since fun _ => Machine.element_since _ _) fun member => ?_
    refine .bind (R := fun c => Met b reliable (fun _ => False) owed K (c :: found)) ?_ fun c =>
      ih.imp (fun _ _ h => h.mono fun _ => False.elim) fun _ h => h.mono fun _ =>
        (·.elim False.elim .inr)
    refine .onFailure (F := Met b reliable (fun t => A t ∨ b.MeetThrows t) owed K found) ?_
      (.of_imp (fun _ h => h.reverse) (releaseAll_since _))
    refine (holding_met (f := fun c => [c]) (.bind (checked_since (Q := fun _ _ => False)
      (O := fun _ => member.toList ++ owed) fun _ => Checked.check_calms _) fun _ =>
        classOf_since (fun hr => mem_holders_append (hi hr)) member)).imp
          (fun c l h => ?_) fun l h => ?_
    · exact h.append hes horigin
    · exact ⟨es, hes, horigin, h.mono fun _ => (·.elim False.elim .inr)⟩

/-- What is declared in a class is met through the connection of the class. -/
theorem declaredClasses_since {d : ClassRef} {h : HeldClass} {index : Nat}
    (horigin : d.origin = .object index) (hd : (d, h) ∈ K.classes) :
    Attains (Since b reliable A owed K) (declaredClasses index)
      (fun cs => Met b reliable A owed K cs)
      (Since b reliable (fun t => A t ∨ b.MeetThrows t) owed K) := by
  refine .get_bind fun l hl => ?_
  split
  · exact .ok fun _ hl => hl.2.met
  next h' hheld =>
  have hi : reliable → h'.connection ∈ K.holders := fun hr => by
    obtain ⟨⟨index', hindex, hheld'⟩, -⟩ := (hl.books hr).classes _ hd
    obtain rfl := Origin.object.inj (horigin.symm.trans hindex)
    obtain rfl := Option.some.inj (hheld.symm.trans hheld')
    exact List.mem_append_right _ (List.mem_map_of_mem (f := (·.2.connection)) hd)
  refine .of_imp (fun _ hl => hl.2) ?_
  refine .bind (checked_since (O := fun _ => owed) (Q := fun _ => A) fun _ =>
    Checked.environment_since.imp (fun _ _ h => h) fun _ h => h.1.mono fun _ => .inl) fun _ => ?_
  refine .bind (checked_since (O := fun _ => owed) (Q := fun _ _ => False) fun _ =>
    Checked.requireMethod_since _ _ _) fun _ => ?_
  refine .bind (call_since fun _ => Machine.callObject_since _ _) fun array => ?_
  refine holding_met (f := fun cs => cs) (.bind (checked_since (Q := fun _ _ => False)
    (O := fun _ => array.toList ++ owed) fun _ => Checked.check_calms _) fun _ => ?_)
  split
  · exact (Attains.of_imp (fun _ h => h.met) (classesOf_since hi _ _)).imp
      (fun _ _ h => h.mono fun _ => False.elim) fun _ h => h.mono fun _ => (·.elim False.elim .inr)
  · exact .ok fun _ h => (h.mono fun _ => False.elim).met

/-! ### Loaders and their classes -/

/-- What is pending if the system loader could not be had. -/
def SystemLoaderThrows (b : Machine) (A : Throwable → Prop) (t : Throwable) : Prop :=
  A t ∨ b.LookupThrows true "getSystemClassLoader" t ∨ b.PinThrows t

theorem systemLoader_since (hi : reliable → i ∈ K.holders) :
    Attains (Since b reliable A owed K) (systemLoader i)
      (fun x l => Since b reliable (fun _ => False) owed K l ∧
        (reliable → ∃ id, x = .object i id ∧ l.Knows i id))
      (Since b reliable (SystemLoaderThrows b A) owed K) := by
  refine .bind (checked_since (O := fun _ => owed) (Q := fun _ => A) fun _ =>
    Checked.environment_since.imp (fun _ _ h => h) fun _ h => h.1.mono fun _ => .inl) fun _ => ?_
  refine .bind (checked_since (O := fun r => r.toList ++ owed) (Q := fun _ _ => True)
    (F := SystemLoaderThrows b A) fun pins => ?_) fun r => ?_
  · refine Checked.withClass_since Checked.loaderClass (O := Option.toList) (P := fun _ => pins)
      (Q := fun _ _ => True) fun cls => .lift_bind (Checked.methodId_since _ _ _ _) fun found => ?_
    cases found with
    | true => exact .lift (Machine.systemLoader_since.imp fun _ _ h => h.any)
    | false => exact .throw fun _ h => h.mono fun _ => .imp_right fun ht => .inl ht.2
  refine .andAlways (R := fun x l => Since b reliable (fun _ => False) (r.toList ++ owed) K l ∧
      (reliable → ∃ id, x = .object i id ∧ l.Knows i id))
    (F := Since b reliable (SystemLoaderThrows b A) (r.toList ++ owed) K) ?_
    (fun x l hl => ⟨native_since (Q := fun _ _ => False) (O := fun _ => owed)
      (fun _ => Machine.deleteLocal_since r) l hl.1, hl.2⟩)
    (native_since fun _ => Machine.deleteLocal_since r)
  refine .bind (checked_since (Q := fun _ _ => False) (O := fun _ => r.toList ++ owed) fun _ =>
    Checked.check_calms _) fun _ => .bind ((loaderFor_since hi r).imp (fun _ _ h => h) fun _ h =>
      h.mono fun _ ht => .inr (.inr (ht.resolve_left not_false))) fun x => .ok fun l hl =>
        ⟨hl.1, fun hr => ?_⟩
  cases x with
  | some y => exact hl.2 hr y rfl
  | none =>
    obtain ⟨c, hc, -⟩ := (hl.1.books hr).held (hi hr)
    exact ⟨Loader.bootId, rfl, c, hc, ((hl.1.books hr).tidy hc).next⟩

/-- What an exception says of a class leaves nothing pending. -/
theorem judgeMiss_since (name : String) (t : Object) {pins : List Reference} :
    Attains (b.Since reliable A owed pins) (judgeMiss name t)
      (fun _ => b.Since reliable A owed pins) (b.Since reliable B owed pins) := by
  refine .lift_bind (Checked.throwableIs_since _ _) fun missing => ?_
  split
  · exact .ok fun _ h => h
  refine .lift_bind (Checked.throwableIs_since _ _) fun broken => ?_
  split
  · exact .ok fun _ h => h
  · exact .lift_bind (Checked.describeThrowable_since _) fun _ => .throw fun _ h => h

/-- What is pending if a class could not be loaded. -/
def LoadThrows (b : Machine) (A : Throwable → Prop) (t : Throwable) : Prop :=
  A t ∨ b.LookupThrows true "forName" t ∨ b.MeetThrows t

theorem load_since (id : Nat) (name : String) :
    Attains (Since b reliable A owed K) (load i id name)
      (fun c => Met b reliable (fun _ => False) owed K c.toList)
      (Since b reliable (LoadThrows b A) owed K) := by
  refine .get_bind fun l hl => ?_
  split
  · exact .throw fun _ h => h.2.mono fun _ => .inl
  next hheld =>
  have hi : reliable → i ∈ K.holders := fun hr => by
    refine List.count_pos_iff.mp ?_
    rw [← (hl.books hr).holders]
    exact Nat.pos_of_ne_zero fun hnone => hheld (by simp [isReleased, hnone])
  refine .get_bind fun l' _ => .of_imp (fun _ h => h.2.2) ?_
  refine .bind (checked_since (O := fun _ => owed) (Q := fun _ => A) fun _ =>
    Checked.environment_since.imp (fun _ _ h => h) fun _ h => h.1.mono fun _ => .inl) fun _ => ?_
  refine .bind (checked_since (O := fun r => r.toList ++ owed) (Q := fun _ _ => True)
    (F := LoadThrows b A) fun pins => ?_) fun r => ?_
  · refine Checked.withClass_since Checked.classClass (O := Option.toList) (P := fun _ => pins)
      (Q := fun _ _ => True) fun cls => .lift_bind (Checked.methodId_since _ _ _ _) fun found => ?_
    cases found with
    | true =>
      exact Checked.withString_since name (O := Option.toList) (P := fun _ => pins)
        (fun s => .lift ((Machine.forName_since _ _).imp fun _ _ h => h.any))
        (fun s => Machine.deleteLocal_since (some s)) fun _ h => h.nothing
    | false => exact .throw fun _ h => h.mono fun _ => .imp_right fun ht => .inl ht.2
  refine holding_met (f := Option.toList) (.bind (R := fun t => Since b reliable (fun _ => False)
    (t.toList ++ (r.toList ++ owed)) K) (call_since fun _ => Checked.takeException_since.imp
      fun _ _ h => h.1) fun t => ?_)
  cases t with
  | some t =>
    refine .bind (R := fun _ => Since b reliable (fun _ => False) (r.toList ++ owed) K)
      (holding_since (r := some t) (H := fun _ => K) (Q := fun _ _ => False) (checked_since
        (O := fun _ => t :: (r.toList ++ owed)) (Q := fun _ _ => False) fun _ => judgeMiss_since _ _))
      fun _ => .ok fun _ h => h.met
  | none =>
    cases r with
    | none => exact .ok fun _ h => h.met
    | some r =>
      exact .map ((classOf_since hi (some r)).imp (fun _ _ h => h) fun _ h => h.mono fun _ ht =>
        .inr (.inr (ht.resolve_left not_false)))

/-! ### Streams -/

theorem Books.restream {idle : List (Nat × KnownLoader)} (h : l.Books K idle)
    (streams : List Reference) : l.Books { K with streams } idle :=
  ⟨h.classes, h.holders, h.tidy, h.known⟩

theorem pins_cons (K : Holdings) (r : Reference) (l : Link) :
    (r :: l.pins K).Perm (l.pins { K with streams := r :: K.streams }) := by
  unfold pins
  rw [← List.append_assoc, ← List.append_assoc]
  exact List.perm_middle.symm

theorem open_since (loader : Option String) (path : String) :
    Attains (Since b reliable A owed K) (checked (InputStream.open? loader path))
      (fun s => Since b reliable A owed
        { K with streams := (s.map (·.reference)).toList ++ K.streams })
      (fun l => ∃ left, InputStream.Forgets loader A left ∧
        Since b reliable (InputStream.OpenThrows b A) (left ++ owed) K l) := by
  intro l hl
  have hopen := InputStream.open?_since loader path l.machine hl.machine
  unfold checked
  rcases hrun : InputStream.open? loader path l.machine with ⟨e | s, m⟩ <;> rw [hrun] at hopen
  · obtain ⟨left, hleft, hm⟩ := hopen
    exact ⟨left, hleft, hl.of_machine hm⟩
  · refine ⟨hopen.repin fun _ => ?_, fun hr => ((hl.books hr).of_machine m).restream _⟩
    cases s with
    | none => exact .refl _
    | some s => exact pins_cons K s.reference l

theorem read_since (s : InputStream) (size : Nat) :
    Attains (Since b reliable A owed K) (checked (s.read size))
      (fun x l => Since b reliable A owed K l ∧ x.2.reference = s.reference)
      (Since b reliable A owed K) := by
  intro l hl
  have hread := InputStream.read_since s size l.machine hl.machine
  have hsame := InputStream.read_reference s size l.machine trivial
  unfold checked
  rcases hrun : s.read size l.machine with ⟨e | x, m⟩ <;> rw [hrun] at hread hsame
  · exact hl.of_machine hread
  · exact ⟨hl.of_machine hread, hsame⟩

theorem dropStream_since (s : InputStream) :
    Ensures (Since b reliable A owed { K with streams := s.reference :: K.streams })
      (native s.drop) fun _ => Since b reliable A owed K := by
  refine fun l hl => ⟨InputStream.drop_since s l.machine (hl.machine.repin fun _ => ?_), fun hr =>
    ((hl.books hr).of_machine _).restream _⟩
  exact (pins_cons K s.reference l).symm

end ClassRecovery.Jvm.Link
