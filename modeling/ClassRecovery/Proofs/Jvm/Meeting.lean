import ClassRecovery.Proofs.Jvm.Numbering

/-!
Meeting the classes of a machine through a connection. However a class is met, its reference tells
the name that the machine has for it, and its loader the loader that the machine says defined it.
-/

namespace ClassRecovery.Jvm.Link

variable {l l' : Link} {i : Nat} {key key' : String} {c d : ClassRef}

/-- The loader of a class is known for what it is. -/
theorem loaderOf_continues {pre : Link → Prop} (hpre : Lasting pre) (key : String) :
    Continues i pre (loaderOf i (.cls key)) fun x l =>
      pre l ∧ l.KnownAs i ((l.machine.identities key).2.map .loader) x := by
  refine .bind (.checked_lasting (Checked.requireMethod_keeps _ _ _) hpre) fun _ => ?_
  refine .bind (P := fun r l => pre l ∧ (l.machine.pending = none →
      r.map (·.object) = (l.machine.identities key).2.map .loader))
    (.call (Machine.callObject_keeps _ _) fun l hl => ?_) fun r => ?_
  · have hkept := Machine.identities_eq
      (Machine.callObject_keeps (.cls key) "getClassLoader") l.machine
    refine ⟨hpre (.of_machine hkept) hl, fun hpending => ?_⟩
    rw [show (Machine.callObject (.cls key) "getClassLoader" l.machine).2.identities = _ from hkept]
    exact Machine.callObject_getClassLoader rfl hpending
  have hlasting : Lasting fun l =>
      pre l ∧ r.map (·.object) = (l.machine.identities key).2.map .loader :=
    hpre.and (lasting_identities fun f => r.map (·.object) = (f key).2.map .loader)
  refine .holding r (.bind (.checked (Checked.check_keeps _) fun l _ hl hok => ?_) fun _ =>
    ((loaderFor_continues _ r).frame hlasting).imp fun x l hl => ?_) fun x =>
      hpre.and (lasting_knownAs i key x)
  · have hkept := Machine.identities_eq (Checked.check_keeps "Class.getClassLoader") l.machine
    refine hlasting (.of_machine hkept) ⟨hl.1, hl.2 (Checked.check_pending hok)⟩
  · exact ⟨hl.1.1, hl.1.2 ▸ hl.2⟩

/-- A reference to a class object of the machine, met through a connection. -/
structure Refers (l : Link) (i : Nat) (key : String) (c : ClassRef) : Prop where
  object : ∃ index r, c.origin = .object index ∧ l.held[index]? = some ⟨i, r⟩ ∧ r.object = .cls key
  name : (l.machine.identities key).1.map (fun t => Text.ModifiedUtf8.decodeLossy t.bytes) =
    some c.name
  loader : l.KnownAs i ((l.machine.identities key).2.map .loader) c.loader

theorem Refers.later (h : l.Refers i key c) (hlater : l.Later l') : l'.Refers i key c where
  object := by
    obtain ⟨index, r, horigin, hr, hobject⟩ := h.object
    exact ⟨index, r, horigin, hlater.objects hr, hobject⟩
  name := hlater.identities ▸ h.name
  loader := lasting_knownAs i key c.loader hlater h.loader

theorem Refers.origin_ne_archive (h : l.Refers i key c) : c.origin ≠ .archive := by
  obtain ⟨index, r, horigin, -⟩ := h.object
  rw [horigin]
  simp

theorem Refers.unique {i' : Nat} (h : l.Refers i key c) (h' : l.Refers i' key' c) :
    i = i' ∧ key = key' := by
  obtain ⟨index, r, horigin, hr, hobject⟩ := h.object
  obtain ⟨index', r', horigin', hr', hobject'⟩ := h'.object
  obtain rfl := Origin.object.inj (horigin.symm.trans horigin')
  obtain ⟨rfl, rfl⟩ := HeldClass.mk.inj (Option.some.inj (hr.symm.trans hr'))
  exact ⟨rfl, Object.cls.inj (hobject.symm.trans hobject')⟩

/-- Every class that is met is the one that the machine gave, as the machine knows it. -/
theorem classOf_continues (pre : Link → Prop) (cls : Option Reference) :
    Continues i pre (classOf i cls) fun c l => ∃ key, l.Refers i key c := by
  cases cls with
  | none => exact .throw _
  | some cls =>
    refine .bind (P := fun name l => ∃ key, cls.object = .cls key ∧
        (l.machine.identities key).1.map (fun t => Text.ModifiedUtf8.decodeLossy t.bytes) =
          some name) (.checked (className_keeps _) fun l name _ hok => ?_) fun name => ?_
    · obtain ⟨key, t, hkey, ht, rfl⟩ := className_eq_ok hok
      refine ⟨key, hkey, ?_⟩
      rw [show (className cls.object l.machine).2.identities = _ from
        Machine.identities_eq (className_keeps cls.object) l.machine, Machine.identities, ht]
      rfl
    refine .of_exists fun key hkey => ?_
    have hname := lasting_identities fun f =>
      (f key).1.map (fun t => Text.ModifiedUtf8.decodeLossy t.bytes) = some name
    rw [hkey]
    refine .bind (.checked_lasting (classKind_keeps _ _) hname) fun kind => ?_
    refine .bind (loaderOf_continues hname key) fun loader => ?_
    have hlasting := hname.and (lasting_knownAs i key loader)
    refine .bind (Continues.frame (Q := fun pinned _ => ∀ p, pinned = some p → p.object = .cls key)
      (.call (pin_keeps _) fun _ _ p hp => pin_object hp) hlasting) fun pinned => ?_
    cases pinned with
    | none => exact .throw _
    | some p =>
      rintro l horderly hheld ⟨⟨hname, hloader⟩, hobject⟩
      have hlater : l.Later { (retain i l).2 with held := l.held.push ⟨i, p⟩ } :=
        (Later.retain hheld).trans (.push _ _)
      refine ⟨hlater, fun c hc => ⟨Stays.trans .retain (.of_same rfl), key, ?_⟩⟩
      cases hc
      exact {
        object := ⟨l.held.size, p, rfl, Array.getElem?_push_size, hobject p rfl⟩
        name := hname
        loader := lasting_knownAs i key loader hlater hloader }

/-- The built-in loader is told from all others. -/
theorem Refers.loaderId_eq_bootId (h : l.Refers i key c) :
    c.loaderId = Loader.bootId ↔ (l.machine.identities key).2 = none := by
  have hloader := h.loader
  cases hkey : (l.machine.identities key).2 with
  | none =>
    rw [hkey] at hloader
    simp [ClassRef.loaderId, show c.loader = none from hloader]
  | some n =>
    rw [hkey] at hloader
    obtain ⟨id, -, hc, hid, -⟩ := hloader
    simp only [ClassRef.loaderId, hc, Option.map_some, Option.getD_some, Loader.id, reduceCtorEq,
      iff_false]
    exact Nat.ne_of_gt hid

/-- Through a connection that is held, numbers agree if and only if the loaders do. -/
theorem Refers.agree (horderly : l.Orderly) (hheld : l.Held i)
    (h : l.Refers i key c) (h' : l.Refers i key' d) :
    c.loaderId = d.loaderId ↔ (l.machine.identities key).2 = (l.machine.identities key').2 := by
  cases hkey : (l.machine.identities key).2 with
  | none =>
    rw [h.loaderId_eq_bootId.mpr hkey, eq_comm, h'.loaderId_eq_bootId, eq_comm]
  | some n =>
    cases hkey' : (l.machine.identities key').2 with
    | none => rw [h'.loaderId_eq_bootId.mpr hkey', h.loaderId_eq_bootId, hkey]
    | some n' =>
      have hloader := h.loader
      have hloader' := h'.loader
      rw [hkey] at hloader
      rw [hkey'] at hloader'
      obtain ⟨id, k, hc, -, hk, hmem⟩ := hloader
      obtain ⟨id', k', hd, -, hk', hmem'⟩ := hloader'
      obtain rfl := Option.some.inj (hk.symm.trans hk')
      obtain ⟨k', hk', hheld⟩ := hheld
      obtain rfl := Option.some.inj (hk.symm.trans hk')
      have hiff := (horderly hk hheld).object_eq_iff (hmem hheld) (hmem' hheld)
      simp only [ClassRef.loaderId, hc, hd, Option.map_some, Option.getD_some, Loader.id, hiff,
        Object.loader.injEq, Option.some.injEq]

theorem lasting_refers (i : Nat) (cs : List ClassRef) :
    Lasting fun l => ∀ c ∈ cs, ∃ key, l.Refers i key c := by
  intro l l' hlater h c hc
  obtain ⟨key, hkey⟩ := h c hc
  exact ⟨key, hkey.later hlater⟩

theorem classesOf_continues (array : Object) (ns : List Nat) (found : List ClassRef) :
    Continues i (fun l => ∀ c ∈ found, ∃ key, l.Refers i key c) (classesOf i array ns found)
      fun cs l => ∀ c ∈ cs, ∃ key, l.Refers i key c := by
  induction ns generalizing found with
  | nil => exact .ok fun l h c hc => h c (List.mem_reverse.mp hc)
  | cons n rest ih =>
    have hfound := lasting_refers i found
    refine .bind (.call_lasting (Machine.element_keeps _ _) hfound) fun member => ?_
    refine .bind (P := fun c l => ∀ d ∈ c :: found, ∃ key, l.Refers i key d)
      (.onFailure (.holding member ?_ fun c => lasting_refers i (c :: found))
        (Later.releaseAll _)) fun c => ih (c :: found)
    refine .bind (.checked_lasting (Checked.check_keeps _) hfound) fun _ => ?_
    refine ((classOf_continues _ member).frame hfound).imp fun c l hl d hd => ?_
    rcases List.mem_cons.mp hd with rfl | hd
    · exact hl.2
    · exact hl.1 d hd

theorem declaredClasses_continues {index : Nat} {h : HeldClass} :
    Continues h.connection (fun l => l.held[index]? = some h) (declaredClasses index)
      fun cs l => ∀ c ∈ cs, ∃ key, l.Refers h.connection key c := by
  refine .get fun l hl => ?_
  rw [hl]
  refine .bind (.checked_any Checked.environment_keeps) fun _ => ?_
  refine .bind (.checked_any (Checked.requireMethod_keeps _ _ _)) fun _ => ?_
  refine .bind (.call_any (Machine.callObject_keeps _ _)) fun array => ?_
  have hnone : ∀ l : Link, ∀ c ∈ ([] : List ClassRef), ∃ key, l.Refers h.connection key c :=
    fun _ c hc => by cases hc
  refine .holding array (.bind (P := fun _ l => ∀ c ∈ ([] : List ClassRef),
    ∃ key, l.Refers h.connection key c) (.checked (Checked.check_keeps _) fun l _ _ _ => hnone _)
    fun _ => ?_) fun cs => lasting_refers _ cs
  split
  · exact classesOf_continues _ _ []
  · exact .ok fun l _ => hnone l

/-- What a loader of a connection loads is met through the connection. -/
theorem load_continues (id : Nat) (name : String) :
    Continues i (fun _ => True) (load i id name) fun found l =>
      ∀ c, found = some c → ∃ key, l.Refers i key c := by
  unfold load
  refine .get fun _ _ => ?_
  split
  · exact .throw _
  refine .get fun l _ => ?_
  refine .bind (.checked_any Checked.environment_keeps) fun _ => ?_
  refine .bind (.checked_any (Checked.withClass_keeps _ fun cls => ?_)) fun found => ?_
  · refine .attempt (.lift (Checked.methodId_keeps _ _ _ _)) fun known => ?_
    split
    · exact Checked.withString_keeps _ (.lift (Machine.forName_keeps _ _))
    · exact Checked.jni_keeps _
  have hnone : ∀ l : Link, ∀ c, none = some c → ∃ key, l.Refers i key c :=
    fun _ c hc => by cases hc
  refine .holding found (.bind (.call_any Checked.takeException_keeps) fun thrown => ?_)
    fun found l l' hlater h c hc => ?_
  · cases thrown with
    | some t =>
      refine .bind (P := fun _ _ => True) (.holding (some t)
        (.checked_any (judgeMiss_keeps _ _)) fun _ _ _ _ _ => trivial) fun _ => ?_
      exact .ok fun l _ => hnone l
    | none =>
      cases found with
      | none => exact .ok fun l _ => hnone l
      | some r =>
        refine .map ((classOf_continues _ _).imp fun c l hl d hd => ?_)
        obtain rfl := Option.some.inj hd
        exact hl
  · obtain ⟨key, hkey⟩ := h c hc
    exact ⟨key, hkey.later hlater⟩

theorem load_of_released (h : ¬ l.Held i) (id : Nat) (name : String) :
    load i id name l = (.error (.jni "JVM runtime already released"), l) := by
  unfold load
  rw [get_bind, if_pos (not_held_iff.mp h)]
  rfl

/-- A loader loads only while its connection is held. -/
theorem load_later (i id : Nat) (name : String) (horderly : l.Orderly) :
    l.Later (load i id name l).2 ∧ ∀ found, (load i id name l).1 = .ok found →
      l.Stays (load i id name l).2 ∧ ∀ c, found = some c →
        (load i id name l).2.Held i ∧ ∃ key, (load i id name l).2.Refers i key c := by
  by_cases hheld : l.Held i
  · obtain ⟨hlater, hok⟩ := load_continues id name l horderly hheld trivial
    exact ⟨hlater, fun found hfound => ⟨(hok found hfound).1, fun c hc =>
      ⟨(hok found hfound).1 i hheld, (hok found hfound).2 c hc⟩⟩⟩
  · rw [load_of_released hheld]
    exact ⟨.refl l, fun _ hfound => by cases hfound⟩

theorem systemLoader_continues : Continues i (fun _ => True) (systemLoader i) fun _ _ => True := by
  refine .bind (.checked_any Checked.environment_keeps) fun _ => ?_
  refine .bind (.checked_any (Checked.withClass_keeps _ fun cls => ?_)) fun r => ?_
  · refine .attempt (.lift (Checked.methodId_keeps _ _ _ _)) fun found => ?_
    split
    · exact .lift Machine.systemLoader_keeps
    · exact Checked.jni_keeps _
  · refine .holding r (.bind (.checked_any (Checked.check_keeps _)) fun _ => ?_)
      fun _ _ _ _ _ => trivial
    exact .bind (loaderFor_continues _ r) fun _ => .ok fun _ _ => trivial

end ClassRecovery.Jvm.Link
