import ClassRecovery.ClassFile.References
import ClassRecovery.Proofs.ClassFile.Pool

/-!
References handed out one at a time against the pool as a whole. Whoever asks often enough is told
the names of all class entries in the order of their slots, up to the first that has none, and then
nothing more, however often one asks.
-/

namespace ClassRecovery.ClassFile

section Outcomes

variable {ε α β : Type}

/-- The outcomes up to the first failure, and that failure. -/
def throughFailure : List (Except ε α) → List (Except ε α)
  | [] => []
  | .ok a :: rest => .ok a :: throughFailure rest
  | .error e :: _ => [.error e]

theorem throughFailure_map (f : α → β) (xs : List (Except ε α)) :
    throughFailure (xs.map (Except.map f)) = (throughFailure xs).map (Except.map f) := by
  induction xs with
  | nil => rfl
  | cons x rest ih =>
    cases x with
    | ok a => simp only [List.map_cons, Except.map, throughFailure, ih]
    | error e => rfl

theorem throughFailure_eq_self {xs : List (Except ε α)}
    (h : ∀ e, .error e ∉ throughFailure xs) : throughFailure xs = xs := by
  induction xs with
  | nil => rfl
  | cons x rest ih =>
    cases x with
    | ok a => rw [throughFailure, ih fun e he => h e (List.mem_cons_of_mem _ he)]
    | error e => exact absurd List.mem_cons_self (h e)

theorem mem_of_mem_throughFailure {x : Except ε α} {xs : List (Except ε α)}
    (h : x ∈ throughFailure xs) : x ∈ xs := by
  induction xs with
  | nil => exact h
  | cons y rest ih =>
    cases y with
    | ok a =>
      rcases List.mem_cons.mp h with rfl | h
      · exact List.mem_cons_self
      · exact List.mem_cons_of_mem _ (ih h)
    | error e =>
      rw [List.mem_singleton.mp h]
      exact List.mem_cons_self

end Outcomes

theorem totalWidth_le_of_fills {left : Nat} {es : List Entry} (h : Fills left es) :
    totalWidth es ≤ left + 1 := by
  induction es generalizing left with
  | nil => simp
  | cons e es ih =>
    obtain ⟨hpos, hrest⟩ := h
    have hle := e.width_le_two
    rw [totalWidth_cons]
    by_cases hfits : e.width ≤ left
    · have := ih hrest
      omega
    · -- only a wide entry reaches beyond the last slot, and nothing can follow it
      have hnone : left - e.width = 0 := by omega
      rw [hnone] at hrest
      cases es with
      | nil =>
        rw [totalWidth_nil]
        omega
      | cons d es => exact absurd hrest.1 (Nat.lt_irrefl 0)

namespace ConstantPool

/-- Every slot of a pool has a number of two bytes. -/
theorem count_le_of_parse {b : Bytes} {pool : ConstantPool} (h : parse b = .ok pool) :
    pool.count ≤ 65536 := by
  obtain ⟨announced, es, hpool⟩ := hasPool_of_parse h
  obtain ⟨hfills, version, entries, rest, -, hcount, -⟩ := hasPool_iff.mp hpool
  obtain ⟨pool', hparse, shown⟩ := parse_of_hasPool hpool
  obtain rfl : pool' = pool := Except.ok.inj (hparse.symm.trans h)
  have hlength := congrArg List.length shown
  rw [List.length_map, List.length_cons, length_flatMap_marks, Array.length_toList] at hlength
  have hwidth := totalWidth_le_of_fills hfills
  unfold count
  omega

theorem isClass_eq_false_of_parse {b : Bytes} {pool : ConstantPool} (h : parse b = .ok pool) :
    pool.isClass 0 = false := by
  obtain ⟨announced, es, hpool⟩ := hasPool_of_parse h
  obtain ⟨pool', hparse, shown⟩ := parse_of_hasPool hpool
  obtain rfl : pool' = pool := Except.ok.inj (hparse.symm.trans h)
  have hentry : pool'.entry? 0 = none := by
    refine Option.eq_none_iff_forall_ne_some.mpr fun e he => ?_
    exact not_startsAt_zero ((entry?_eq_some_iff shown).mp he)
  rw [isClass, hentry]

/-- The class entries from a slot on. -/
def classSlotsFrom (pool : ConstantPool) (slot : Nat) : List Nat :=
  (List.range' slot (pool.count - slot)).filter pool.isClass

theorem classSlotsFrom_of_lt {pool : ConstantPool} {slot : Nat} (h : slot < pool.count) :
    pool.classSlotsFrom slot =
      if pool.isClass slot then slot :: pool.classSlotsFrom (slot + 1)
      else pool.classSlotsFrom (slot + 1) := by
  obtain ⟨left, hleft⟩ : ∃ left, pool.count - slot = left + 1 := ⟨pool.count - slot - 1, by omega⟩
  have hnext : pool.count - (slot + 1) = left := by omega
  rw [classSlotsFrom, classSlotsFrom, hleft, hnext, List.range'_succ, List.filter_cons]

theorem classSlotsFrom_of_le {pool : ConstantPool} {slot : Nat} (h : pool.count ≤ slot) :
    pool.classSlotsFrom slot = [] := by
  rw [classSlotsFrom, Nat.sub_eq_zero_of_le h]
  rfl

theorem classSlots_eq {b : Bytes} {pool : ConstantPool} (h : parse b = .ok pool) :
    pool.classSlots = pool.classSlotsFrom 1 := by
  have hall : pool.classSlots = pool.classSlotsFrom 0 := by
    rw [classSlots, classSlotsFrom, List.range_eq_range', Nat.sub_zero]
  rw [hall]
  by_cases hempty : 0 < pool.count
  · rw [classSlotsFrom_of_lt hempty, isClass_eq_false_of_parse h]
    rfl
  · rw [classSlotsFrom_of_le (by omega), classSlotsFrom_of_le (by omega)]

end ConstantPool

/-- The pool of a file, and the slot at which the class stands that the file defines. -/
def readThisClass (c : Cursor) : Except Malformed ((ConstantPool × Nat) × Cursor) := do
  let (pool, c) ← ConstantPool.readFile c
  let (_, c) ← c.take 2
  let (slot, c) ← c.number 2
  return ((pool, slot), c)

theorem definedName_eq_ok_iff {form : NameForm} {b : Bytes} {s : String} :
    definedName form b = .ok s ↔ ∃ pool slot internal c,
      readThisClass (.start b) = .ok ((pool, slot), c) ∧ pool.className slot = .ok internal ∧
        s = ClassName.render form internal := by
  unfold definedName readThisClass
  constructor
  · intro h
    obtain ⟨⟨pool, c⟩, hfile, h⟩ := bind_eq_ok_iff.mp h
    obtain ⟨⟨flags, c₁⟩, hflags, h⟩ := bind_eq_ok_iff.mp h
    obtain ⟨⟨slot, c₂⟩, hslot, h⟩ := bind_eq_ok_iff.mp h
    dsimp only at h
    cases hname : pool.className slot with
    | error e =>
      rw [hname] at h
      cases h
    | ok internal =>
      rw [hname] at h
      refine ⟨pool, slot, internal, c₂, ?_, hname, (Except.ok.inj h).symm⟩
      exact bind_eq_ok_iff.mpr ⟨_, hfile, bind_eq_ok_iff.mpr ⟨_, hflags,
        bind_eq_ok_iff.mpr ⟨_, hslot, rfl⟩⟩⟩
  · rintro ⟨pool, slot, internal, c, h, hname, rfl⟩
    obtain ⟨⟨pool', c₀⟩, hfile, h⟩ := bind_eq_ok_iff.mp h
    obtain ⟨⟨flags, c₁⟩, hflags, h⟩ := bind_eq_ok_iff.mp h
    obtain ⟨⟨slot', c₂⟩, hslot, h⟩ := bind_eq_ok_iff.mp h
    cases h
    refine bind_eq_ok_iff.mpr ⟨_, hfile, bind_eq_ok_iff.mpr ⟨_, hflags,
      bind_eq_ok_iff.mpr ⟨_, hslot, ?_⟩⟩⟩
    simp only [hname]

theorem parse_of_readThisClass {b : Bytes} {pool : ConstantPool} {slot : Nat} {c : Cursor}
    (h : readThisClass (.start b) = .ok ((pool, slot), c)) : ConstantPool.parse b = .ok pool := by
  obtain ⟨⟨pool', c₀⟩, hfile, h⟩ := bind_eq_ok_iff.mp h
  obtain ⟨⟨flags, c₁⟩, -, h⟩ := bind_eq_ok_iff.mp h
  obtain ⟨⟨slot', c₂⟩, -, h⟩ := bind_eq_ok_iff.mp h
  cases h
  rw [ConstantPool.parse, hfile]
  rfl

namespace References

/-- What a class entry is handed out as. -/
def told (form : NameForm) (pool : ConstantPool) (slot : Nat) : Except Malformed String :=
  (pool.className slot).map (ClassName.render form)

/-- All that a class file has to hand out. -/
def all (form : NameForm) (b : Bytes) : List (Except Malformed String) :=
  match ConstantPool.parse b with
  | .ok pool => throughFailure (pool.classSlots.map (told form pool))
  | .error e => [.error e]

/-- What is still to be handed out. -/
def pendingAnswers (r : References) : List (Except Malformed String) :=
  match r.progress with
  | .pending data => all r.form data
  | .scanning pool slot => throughFailure ((pool.classSlotsFrom slot).map (told r.form pool))
  | .done => []

/-- The slots still to be looked at have numbers of two bytes. -/
def Sound (r : References) : Prop :=
  match r.progress with
  | .scanning pool _ => pool.count ≤ 65536
  | _ => True

/-- One question is answered with the first of what is still to come, and leaves the others. -/
structure Tells (answers : List (Except Malformed String))
    (told : Option (Except Malformed String) × References) : Prop where
  answer : told.1 = answers.head?
  left : told.2.pendingAnswers = answers.tail
  sound : told.2.Sound

theorem scan_tells {form : NameForm} {pool : ConstantPool} (h : pool.count ≤ 65536) (slot : Nat) :
    Tells (throughFailure ((pool.classSlotsFrom slot).map (told form pool)))
      (scan form pool slot) := by
  have hindex : ∀ slot < pool.count, slot % 65536 = slot := fun slot hslot =>
    Nat.mod_eq_of_lt (Nat.lt_of_lt_of_le hslot h)
  induction slot using scan.induct pool with
  | case1 slot hslot index hclass internal hname =>
    have heq : index = slot := hindex slot hslot
    rw [heq] at hclass hname
    rw [scan, if_pos hslot, hindex slot hslot, if_pos hclass, hname,
      ConstantPool.classSlotsFrom_of_lt hslot, if_pos hclass, List.map_cons, told, hname]
    exact ⟨rfl, rfl, h⟩
  | case2 slot hslot index hclass e hname =>
    have heq : index = slot := hindex slot hslot
    rw [heq] at hclass hname
    rw [scan, if_pos hslot, hindex slot hslot, if_pos hclass, hname,
      ConstantPool.classSlotsFrom_of_lt hslot, if_pos hclass, List.map_cons, told, hname]
    exact ⟨rfl, rfl, trivial⟩
  | case3 slot hslot index hclass ih =>
    have heq : index = slot := hindex slot hslot
    rw [heq] at hclass
    rw [scan, if_pos hslot, hindex slot hslot, if_neg hclass,
      ConstantPool.classSlotsFrom_of_lt hslot, if_neg hclass]
    exact ih
  | case4 slot hslot =>
    rw [scan, if_neg hslot, ConstantPool.classSlotsFrom_of_le (Nat.not_lt.mp hslot)]
    exact ⟨rfl, rfl, trivial⟩

theorem next_tells {r : References} (h : r.Sound) : Tells r.pendingAnswers r.next := by
  obtain ⟨form, progress⟩ := r
  cases progress with
  | pending data =>
    cases hparse : ConstantPool.parse data with
    | ok pool =>
      have hscan := @scan_tells form pool (ConstantPool.count_le_of_parse hparse) 1
      simpa only [pendingAnswers, all, next, hparse, ConstantPool.classSlots_eq hparse] using hscan
    | error e =>
      simp only [pendingAnswers, all, next, hparse]
      exact ⟨rfl, rfl, trivial⟩
  | scanning pool slot => exact scan_tells h slot
  | done => exact ⟨rfl, rfl, trivial⟩

/-- What is left after so many questions. -/
def after (r : References) : Nat → References
  | 0 => r
  | n + 1 => (r.after n).next.2

theorem after_tells {r : References} (h : r.Sound) (n : Nat) :
    (r.after n).Sound ∧ (r.after n).pendingAnswers = r.pendingAnswers.drop n := by
  induction n with
  | zero => exact ⟨h, rfl⟩
  | succ n ih =>
    have hnext := next_tells ih.1
    refine ⟨hnext.sound, ?_⟩
    rw [after, hnext.left, ih.2, List.tail_drop]

theorem answer_after {r : References} (h : r.Sound) (n : Nat) :
    (r.after n).next.1 = r.pendingAnswers[n]? := by
  obtain ⟨hsound, hleft⟩ := after_tells h n
  rw [(next_tells hsound).answer, hleft, List.head?_drop]

theorem toList_eq {r : References} (h : r.Sound) : r.toList = r.pendingAnswers := by
  unfold toList
  fun_induction drain r with
  | case1 r r' hnext =>
    have hanswer := (next_tells h).answer
    rw [hnext] at hanswer
    exact (List.head?_eq_none_iff.mp hanswer.symm).symm
  | case2 r x r' hnext hless xs last hdrain ih =>
    have htells := next_tells h
    rw [hnext] at htells
    obtain ⟨answers, hanswers⟩ := List.head?_eq_some_iff.mp htells.answer.symm
    have hleft := htells.left
    have hrest := ih htells.sound
    rw [hdrain] at hrest
    rw [hanswers, List.tail_cons] at hleft
    rw [hanswers, ← hleft, ← hrest]

/-- Names of class entries do not depend on the form, but for how they are written. -/
theorem all_qualified (b : Bytes) :
    all .qualified b = (all .internal b).map (Except.map ClassName.toQualified) := by
  unfold all
  cases ConstantPool.parse b with
  | error e => rfl
  | ok pool =>
    have htold : told .qualified pool = Except.map ClassName.toQualified ∘ told .internal pool := by
      funext slot
      rw [Function.comp_apply, told, told]
      cases pool.className slot <;> rfl
    dsimp only
    rw [htold, ← List.map_map, throughFailure_map]

/-- The name that a file gives itself is that of one of its class entries. -/
theorem mem_classSlots_of_definedName {form : NameForm} {b : Bytes} {s : String}
    (h : definedName form b = .ok s) :
    ∃ pool slot, ConstantPool.parse b = .ok pool ∧ slot ∈ pool.classSlots ∧
      told form pool slot = .ok s := by
  obtain ⟨pool, slot, internal, c, hread, hname, rfl⟩ := definedName_eq_ok_iff.mp h
  have hparse := parse_of_readThisClass hread
  obtain ⟨announced, es, hpool⟩ := ConstantPool.hasPool_of_parse hparse
  obtain ⟨pool', hparse', shown⟩ := ConstantPool.parse_of_hasPool hpool
  obtain rfl : pool' = pool := Except.ok.inj (hparse'.symm.trans hparse)
  obtain ⟨name, hclass, -⟩ := (ConstantPool.className_eq_ok_iff shown).mp hname
  refine ⟨pool', slot, hparse, (ConstantPool.mem_classSlots_iff shown).mpr ⟨name, hclass⟩, ?_⟩
  rw [told, hname]
  rfl

/-- However often one asks, the answer is the entry of the pool's list that the question comes to,
and nothing beyond its end. Both forms tell the same names, and where nothing is at fault the name
of the file itself is among them. -/
theorem enumeration_follows_pool (form : NameForm) (b : Bytes) :
    (∀ n, ((ofBytes form b).after n).next.1 = (all form b)[n]?) ∧
    (ofBytes form b).toList = all form b ∧
    (ofBytes .qualified b).toList =
      (ofBytes .internal b).toList.map (Except.map ClassName.toQualified) ∧
    ∀ s, definedName form b = .ok s → (∀ e, .error e ∉ (ofBytes form b).toList) →
      .ok s ∈ (ofBytes form b).toList := by
  have hlist : ∀ form, (ofBytes form b).toList = all form b := fun form =>
    toList_eq (r := ofBytes form b) trivial
  refine ⟨answer_after (r := ofBytes form b) trivial, hlist form, ?_, fun s hs hwhole => ?_⟩
  · rw [hlist, hlist, all_qualified]
  · obtain ⟨pool, slot, hparse, hslot, htold⟩ := mem_classSlots_of_definedName hs
    rw [hlist] at hwhole ⊢
    have hall : all form b = throughFailure (pool.classSlots.map (told form pool)) := by
      rw [all, hparse]
    rw [hall] at hwhole ⊢
    rw [throughFailure_eq_self hwhole]
    exact List.mem_map.mpr ⟨slot, hslot, htold⟩

/-- A file that refers to another class before it, over an eight-byte number, comes to its own. -/
def referringFile : Bytes :=
  [0xCA, 0xFE, 0xBA, 0xBE, 0, 0, 0, 52, 0, 7, 7, 0, 2, 1, 0, 3, 0x61, 0x2F, 0x42,
    6, 0, 0, 0, 0, 0, 0, 0, 9, 7, 0, 6, 1, 0, 3, 0x63, 0x2F, 0x44, 0, 0x21, 0, 5]

theorem enumeration_follows_pool_referring :
    definedName .qualified referringFile = .ok "c.D" ∧
      (ofBytes .qualified referringFile).toList = [.ok "a.B", .ok "c.D"] ∧
      .ok "c.D" ∈ (ofBytes .qualified referringFile).toList := by
  obtain ⟨-, hlist, -, hown⟩ := enumeration_follows_pool .qualified referringFile
  have hname : definedName .qualified referringFile = .ok "c.D" := by cbv
  have hall : all .qualified referringFile = [.ok "a.B", .ok "c.D"] := by cbv
  rw [hall] at hlist
  refine ⟨hname, hlist, hown "c.D" hname fun e he => ?_⟩
  rw [hlist] at he
  simp at he

end References

end ClassRecovery.ClassFile
