import ClassRecovery.Proofs.ClassFile.Enumeration

/-!
How far reading a class file goes. What is read is decided by the bytes that were gone past, to the
last of them and no further, and a fault is found at a place inside the data.
-/

namespace ClassRecovery.ClassFile

variable {α : Type}

namespace Cursor

/-- How long the data is, wherever in it one stands. -/
def bound (c : Cursor) : Nat := c.offset + c.rest.length

theorem offset_le_bound (c : Cursor) : c.offset ≤ c.bound := Nat.le_add_right _ _

theorem Passes.bound_eq {c c' : Cursor} {part : Bytes} (h : c.Passes part c') :
    c'.bound = c.bound := by
  unfold bound
  rw [h.1, h.2, List.length_append, Nat.add_assoc]

theorem Passes.offset_le {c c' : Cursor} {part : Bytes} (h : c.Passes part c') :
    c.offset ≤ c'.offset := by
  rw [h.2]
  exact Nat.le_add_right _ _

end Cursor

/-- A reader goes past some bytes. It does the same wherever it meets these bytes at this offset,
and if it does not get past them, the fault lies inside the data. -/
structure Reads (read : Cursor → Except Malformed (α × Cursor)) : Prop where
  extent : ∀ {c x c'}, read c = .ok (x, c') → ∃ part, c.Passes part c' ∧
    ∀ {d d' : Cursor}, d.offset = c.offset → d.Passes part d' → read d = .ok (x, d')
  fault : ∀ {c e}, read c = .error e → e.offset ≤ c.bound

namespace Reads

variable {β : Type} {read : Cursor → Except Malformed (α × Cursor)}

theorem bound_eq (h : Reads read) {c c' : Cursor} {x : α} (hread : read c = .ok (x, c')) :
    c'.bound = c.bound := by
  obtain ⟨part, hpass, -⟩ := h.extent hread
  exact hpass.bound_eq

theorem pure (x : α) : Reads fun c => .ok (x, c) where
  extent {c y c'} h := by
    cases h
    refine ⟨[], Cursor.passes_nil_iff.mpr rfl, fun {d d'} _ hd => ?_⟩
    rw [Cursor.passes_nil_iff.mp hd]
  fault h := by cases h

/-- A fault at the start of the data is inside it. -/
theorem fail (defect : Defect) : Reads (α := α) fun _ => .error ⟨0, defect⟩ where
  extent h := by cases h
  fault h := by
    cases h
    exact Nat.zero_le _

theorem bind {next : α × Cursor → Except Malformed (β × Cursor)} (h : Reads read)
    (hnext : ∀ x, Reads fun c => next (x, c)) : Reads fun c => read c >>= next where
  extent {c y c'} hrun := by
    obtain ⟨⟨x, m⟩, hfirst, hrest⟩ := bind_eq_ok_iff.mp hrun
    obtain ⟨part, hpass, hagain⟩ := h.extent hfirst
    obtain ⟨parts, hpass', hagain'⟩ := (hnext x).extent hrest
    refine ⟨part ++ parts, Cursor.exists_passes_iff.mp ⟨m, hpass, hpass'⟩, fun {d d'} hd hdd => ?_⟩
    obtain ⟨k, hdk, hkd⟩ := Cursor.exists_passes_iff.mpr hdd
    have hk : k.offset = m.offset := by rw [hdk.2, hpass.2, hd]
    exact bind_eq_ok_iff.mpr ⟨(x, k), hagain hd hdk, hagain' hk hkd⟩
  fault {c e} hrun := by
    rcases bind_eq_error_iff.mp hrun with hfirst | ⟨⟨x, m⟩, hfirst, hrest⟩
    · exact h.fault hfirst
    · rw [← h.bound_eq hfirst]
      exact (hnext x).fault hrest

/-- A reader may take note of where it starts. -/
theorem atOffset {reads : Nat → Cursor → Except Malformed (α × Cursor)}
    (h : ∀ offset, Reads (reads offset)) : Reads fun c => reads c.offset c where
  extent {c x c'} hrun := by
    obtain ⟨part, hpass, hagain⟩ := (h c.offset).extent hrun
    refine ⟨part, hpass, fun {d d'} hd hdd => ?_⟩
    rw [hd]
    exact hagain hd hdd
  fault {c e} hrun := (h c.offset).fault hrun

end Reads

namespace Cursor

theorem take_reads (n : Nat) : Reads (take n) where
  extent h := by
    obtain ⟨hlength, hpass⟩ := take_eq_ok_iff.mp h
    exact ⟨_, hpass, fun _ hd => take_eq_ok_iff.mpr ⟨hlength, hd⟩⟩
  fault {c e} h := by
    unfold take at h
    split at h
    · cases h
    · cases h
      exact c.offset_le_bound

theorem number_reads (n : Nat) : Reads (number n) where
  extent h := by
    obtain ⟨hvalue, hpass⟩ := number_eq_ok_iff.mp h
    exact ⟨_, hpass, fun _ hd => number_eq_ok_iff.mpr ⟨hvalue, hd⟩⟩
  fault {c e} h := by
    unfold number at h
    split at h
    · cases h
    · next htake =>
      cases h
      exact (take_reads n).fault htake

end Cursor

theorem Entry.offset_of_mem_slots {e : Entry} {offset : Nat} {s : Slot}
    (h : s ∈ e.slots offset) : s.offset = offset := by
  cases e with
  | wide =>
    rcases List.mem_cons.mp h with rfl | h
    · rfl
    · rw [List.mem_singleton.mp h]
  | _ => rw [List.mem_singleton.mp h]

theorem fault_of_readEntry {slot : Nat} {c : Cursor} {e : Malformed}
    (h : readEntry slot c = .error e) : e.offset ≤ c.bound := by
  unfold readEntry at h
  rcases bind_eq_error_iff.mp h with htag | ⟨⟨tag, c₁⟩, htag, h⟩
  · exact (Cursor.number_reads 1).fault htag
  have hbound := (Cursor.number_reads 1).bound_eq htag
  dsimp only at h
  split at h
  · rcases bind_eq_error_iff.mp h with hsize | ⟨⟨size, c₂⟩, hsize, h⟩
    · exact hbound ▸ (Cursor.number_reads 2).fault hsize
    rw [← (Cursor.number_reads 2).bound_eq hsize] at hbound
    rcases bind_eq_error_iff.mp h with hraw | ⟨⟨raw, c₃⟩, hraw, h⟩
    · exact hbound ▸ (Cursor.take_reads size).fault hraw
    dsimp only at h
    split at h
    · cases h
    · cases h
      exact hbound ▸ c₂.offset_le_bound
  · split at h
    · rcases bind_eq_error_iff.mp h with hname | ⟨⟨name, c₂⟩, hname, h⟩
      · exact hbound ▸ (Cursor.number_reads 2).fault hname
      · cases h
    · split at h
      · next size hsize =>
        rcases bind_eq_error_iff.mp h with hpayload | ⟨⟨payload, c₂⟩, hpayload, h⟩
        · exact hbound ▸ (Cursor.take_reads size).fault hpayload
        · cases h
      · cases h
        exact c.offset_le_bound

theorem readEntry_reads (slot : Nat) : Reads (readEntry slot) where
  extent h := by
    obtain ⟨part, hencodes, hpass⟩ := readEntry_eq_ok_iff.mp h
    exact ⟨part, hpass, fun _ hd => readEntry_eq_ok_iff.mpr ⟨part, hencodes, hd⟩⟩
  fault h := fault_of_readEntry h

namespace ConstantPool

/-- The slots hold the offsets at which their entries start, so here the reader depends on where it
starts as well. -/
theorem readSlots_reads (left : Nat) (slots : Array Slot) : Reads (readSlots left slots) := by
  induction left using Nat.strongRecOn generalizing slots with
  | ind left ih =>
    cases left with
    | zero => exact .pure slots
    | succ left =>
      have hless : ∀ e : Entry, left + 1 - e.width < left + 1 := fun e => by
        have := e.width_pos
        omega
      constructor
      · intro c slots' c' h
        rw [readSlots_succ] at h
        obtain ⟨⟨e, m⟩, hentry, hrest⟩ := bind_eq_ok_iff.mp h
        obtain ⟨part, hpass, hagain⟩ := (readEntry_reads slots.size).extent hentry
        obtain ⟨parts, hpass', hagain'⟩ := (ih _ (hless e) _).extent hrest
        refine ⟨part ++ parts, Cursor.exists_passes_iff.mp ⟨m, hpass, hpass'⟩, ?_⟩
        intro d d' hd hdd
        obtain ⟨k, hdk, hkd⟩ := Cursor.exists_passes_iff.mpr hdd
        have hk : k.offset = m.offset := by rw [hdk.2, hpass.2, hd]
        rw [readSlots_succ, hagain hd hdk, hd]
        exact hagain' hk hkd
      · intro c e h
        rw [readSlots_succ] at h
        rcases bind_eq_error_iff.mp h with hentry | ⟨⟨e, m⟩, hentry, hrest⟩
        · exact (readEntry_reads slots.size).fault hentry
        · rw [← (readEntry_reads slots.size).bound_eq hentry]
          exact (ih _ (hless e) _).fault hrest

theorem readHeader_reads : Reads readHeader := by
  refine (Cursor.number_reads 4).bind fun magic => ?_
  dsimp only
  by_cases hmagic : magic = 0xCAFEBABE
  · simp only [hmagic, ne_eq, not_true_eq_false, ↓reduceIte]
    exact (Cursor.take_reads 4).bind fun version => .pure ()
  · simp only [hmagic, ne_eq, not_false_eq_true, ↓reduceIte]
    exact .fail (.wrongMagic magic)

theorem read_reads : Reads read := by
  refine (Cursor.number_reads 2).bind fun count => ?_
  have hslots := Reads.atOffset fun offset => readSlots_reads (count - 1) #[⟨offset, none⟩]
  exact hslots.bind fun slots => .pure (ConstantPool.mk slots)

theorem readFile_reads : Reads readFile :=
  readHeader_reads.bind fun _ => read_reads

theorem fault_of_parse {b : Bytes} {e : Malformed} (h : parse b = .error e) :
    e.offset ≤ b.length := by
  have hfile : readFile (.start b) = .error e := by
    unfold parse at h
    cases hrun : readFile (.start b) with
    | ok r =>
      rw [hrun] at h
      cases h
    | error e' =>
      rw [hrun] at h
      cases h
      rfl
  have hfault := readFile_reads.fault hfile
  rwa [Cursor.bound, Cursor.start, Nat.zero_add] at hfault

/-- No recorded offset lies behind the bytes that were gone past. -/
theorem offset_le_of_readSlots {left : Nat} {slots slots' : Array Slot} {c c' : Cursor}
    (h : readSlots left slots c = .ok (slots', c')) (hslots : ∀ s ∈ slots, s.offset ≤ c.offset) :
    ∀ s ∈ slots', s.offset ≤ c'.offset := by
  induction left using Nat.strongRecOn generalizing slots c with
  | ind left ih =>
    cases left with
    | zero =>
      cases h
      exact hslots
    | succ left =>
      rw [readSlots_succ] at h
      obtain ⟨⟨e, m⟩, hentry, hrest⟩ := bind_eq_ok_iff.mp h
      obtain ⟨part, hpass, -⟩ := (readEntry_reads slots.size).extent hentry
      have hless : left + 1 - e.width < left + 1 := by
        have := e.width_pos
        omega
      refine ih _ hless hrest fun s hs => ?_
      rw [Array.appendList_eq_append, ← Array.mem_toList_iff, Array.toList_appendList,
        List.mem_append, Array.mem_toList_iff] at hs
      rcases hs with hs | hs
      · exact (hslots s hs).trans hpass.offset_le
      · rw [e.offset_of_mem_slots hs]
        exact hpass.offset_le

theorem offset_le_of_parse {b : Bytes} {pool : ConstantPool} (h : parse b = .ok pool) :
    ∀ s ∈ pool.slots, s.offset ≤ b.length := by
  obtain ⟨m, c, hheader, hread⟩ := parse_eq_ok_iff.mp h
  obtain ⟨count, m', hcount, hslots⟩ := read_eq_ok_iff.mp hread
  have hbound : c.bound = b.length := by
    rw [read_reads.bound_eq hread, readHeader_reads.bound_eq hheader, Cursor.bound, Cursor.start,
      Nat.zero_add]
  intro s hs
  refine Nat.le_trans (offset_le_of_readSlots hslots ?_ s hs) (hbound ▸ c.offset_le_bound)
  intro s hs
  simp only [List.mem_toArray, List.mem_singleton] at hs
  rw [hs]

theorem offsetOf_le {b : Bytes} {pool : ConstantPool} (h : parse b = .ok pool) (slot : Nat) :
    pool.offsetOf slot ≤ b.length := by
  unfold offsetOf
  cases hslot : pool.slots[slot]?.orElse fun _ => pool.slots.back? with
  | none => exact Nat.zero_le _
  | some s =>
    refine offset_le_of_parse h s ?_
    cases hat : pool.slots[slot]? with
    | some s' =>
      rw [hat] at hslot
      cases hslot
      exact Array.mem_of_getElem? hat
    | none =>
      rw [hat] at hslot
      exact Array.mem_of_back? hslot

theorem fault_of_className {b : Bytes} {pool : ConstantPool} (h : parse b = .ok pool)
    {slot : Nat} {e : Malformed} (hname : pool.className slot = .error e) :
    e.offset ≤ b.length := by
  unfold className at hname
  split at hname
  · split at hname
    · cases hname
    · cases hname
      exact offsetOf_le h slot
  · cases hname
    exact offsetOf_le h slot

end ConstantPool

theorem readThisClass_reads : Reads readThisClass :=
  ConstantPool.readFile_reads.bind fun pool => (Cursor.take_reads 2).bind fun _ =>
    (Cursor.number_reads 2).bind fun slot => .pure (pool, slot)

theorem fault_of_definedName {form : NameForm} {b : Bytes} {e : Malformed}
    (h : definedName form b = .error e) : e.offset ≤ b.length := by
  have hstart : (Cursor.start b).bound = b.length := Nat.zero_add _
  unfold definedName at h
  rcases bind_eq_error_iff.mp h with hfile | ⟨⟨pool, c⟩, hfile, h⟩
  · exact hstart ▸ ConstantPool.readFile_reads.fault hfile
  rw [← ConstantPool.readFile_reads.bound_eq hfile] at hstart
  rcases bind_eq_error_iff.mp h with hflags | ⟨⟨flags, c₁⟩, hflags, h⟩
  · exact hstart ▸ (Cursor.take_reads 2).fault hflags
  rw [← (Cursor.take_reads 2).bound_eq hflags] at hstart
  rcases bind_eq_error_iff.mp h with hslot | ⟨⟨slot, c₂⟩, hslot, h⟩
  · exact hstart ▸ (Cursor.number_reads 2).fault hslot
  dsimp only at h
  split at h
  · cases h
  · cases h
    exact hstart ▸ c₁.offset_le_bound

/-- The front of a file that decides its name ends with the field that points to the name. -/
theorem definedName_extent {form : NameForm} {b : Bytes} {s : String}
    (h : definedName form b = .ok s) :
    ∃ part rest, b = part ++ rest ∧ ∀ rest', definedName form (part ++ rest') = .ok s ∧
      ∃ c, readThisClass (.start (part ++ rest')) = .ok c ∧ c.2.offset = part.length := by
  obtain ⟨pool, slot, internal, c, hread, hname, rfl⟩ := definedName_eq_ok_iff.mp h
  obtain ⟨part, hpass, hagain⟩ := readThisClass_reads.extent hread
  refine ⟨part, c.rest, hpass.1, fun rest' => ?_⟩
  have hread' : readThisClass (.start (part ++ rest')) =
      .ok ((pool, slot), ⟨0 + part.length, rest'⟩) := hagain rfl ⟨rfl, rfl⟩
  exact ⟨definedName_eq_ok_iff.mpr ⟨pool, slot, internal, _, hread', hname, rfl⟩, _, hread',
    Nat.zero_add _⟩

/-- A file that is cut off earlier has no name. -/
theorem definedName_take {form : NameForm} {b : Bytes} {c : (ConstantPool × Nat) × Cursor}
    (hread : readThisClass (.start b) = .ok c) {m : Nat} (hm : m < c.2.offset) :
    ∃ e, definedName form (b.take m) = .error e := by
  cases hname : definedName form (b.take m) with
  | error e => exact ⟨e, rfl⟩
  | ok s =>
    obtain ⟨part, rest, htake, hagain⟩ := definedName_extent hname
    obtain ⟨-, c', hread', hoffset⟩ := hagain (rest ++ b.drop m)
    rw [← List.append_assoc, ← htake, List.take_append_drop, hread] at hread'
    obtain rfl := Except.ok.inj hread'
    have hlength := congrArg List.length htake
    rw [List.length_take, List.length_append] at hlength
    omega

namespace References

theorem fault_mem_all {form : NameForm} {b : Bytes} {e : Malformed} (h : .error e ∈ all form b) :
    e.offset ≤ b.length := by
  unfold all at h
  cases hparse : ConstantPool.parse b with
  | error e' =>
    rw [hparse] at h
    cases List.mem_singleton.mp h
    exact ConstantPool.fault_of_parse hparse
  | ok pool =>
    rw [hparse] at h
    obtain ⟨slot, -, htold⟩ := List.mem_map.mp (mem_of_mem_throughFailure h)
    cases hname : pool.className slot with
    | ok internal =>
      rw [told, hname] at htold
      cases htold
    | error e' =>
      rw [told, hname] at htold
      cases htold
      exact ConstantPool.fault_of_className hparse hname

end References

/-- A file that has a name has a front that decides it: whatever follows, the name is the same, and
cut off within that front the file is malformed. Whatever is malformed is so at a place inside the
file, for each way of reading it. -/
theorem reading_has_extent (b : Bytes) :
    (∀ form s, definedName form b = .ok s → ∃! n, n ≤ b.length ∧
      (∀ b', b.take n <+: b' → definedName form b' = .ok s) ∧
      ∀ m < n, ∃ e, definedName form (b.take m) = .error e) ∧
    (∀ form e, definedName form b = .error e → e.offset ≤ b.length) ∧
    (∀ e, ConstantPool.parse b = .error e → e.offset ≤ b.length) ∧
    (∀ pool, ConstantPool.parse b = .ok pool →
      ∀ slot e, pool.className slot = .error e → e.offset ≤ b.length) ∧
    ∀ form n e, ((References.ofBytes form b).after n).next.1 = some (.error e) →
      e.offset ≤ b.length := by
  refine ⟨fun form s h => ?_, fun _ _ => fault_of_definedName, fun _ => ConstantPool.fault_of_parse,
    fun _ hparse _ _ => ConstantPool.fault_of_className hparse, fun form n e h => ?_⟩
  · obtain ⟨part, rest, rfl, hagain⟩ := definedName_extent h
    obtain ⟨-, c, hread, hoffset⟩ := hagain rest
    refine ⟨part.length, ⟨by simp, fun b' hb' => ?_, fun m hm => ?_⟩, ?_⟩
    · rw [List.take_left] at hb'
      obtain ⟨rest', rfl⟩ := hb'
      exact (hagain rest').1
    · exact definedName_take hread (hoffset ▸ hm)
    · -- of two such fronts the shorter one decides the name, and so the longer one is not longer
      rintro n ⟨-, hdecides, hcut⟩
      rcases Nat.lt_trichotomy n part.length with hlt | heq | hgt
      · obtain ⟨e, he⟩ : ∃ e, definedName form ((part ++ rest).take n) = .error e :=
          definedName_take hread (hoffset ▸ hlt)
        rw [hdecides _ (List.prefix_refl _)] at he
        cases he
      · exact heq
      · obtain ⟨e, he⟩ := hcut _ hgt
        have hok := (hagain []).1
        rw [List.append_nil] at hok
        rw [List.take_left, hok] at he
        cases he
  · have hanswer := References.answer_after (r := References.ofBytes form b) trivial n
    rw [hanswer] at h
    exact References.fault_mem_all (List.mem_of_getElem? h)

/-- The own name of a file that goes on behind the field for it. -/
theorem reading_has_extent_referring :
    definedName .qualified (References.referringFile ++ [0, 0]) = .ok "c.D" ∧
      ∃ n, n ≤ 43 ∧ (∀ b', (References.referringFile ++ [0, 0]).take n <+: b' →
        definedName .qualified b' = .ok "c.D") ∧
      ∀ m < n, ∃ e, definedName .qualified ((References.referringFile ++ [0, 0]).take m) =
        .error e := by
  have hname : definedName .qualified (References.referringFile ++ [0, 0]) = .ok "c.D" := by cbv
  obtain ⟨n, ⟨hlength, hdecides, hcut⟩, -⟩ :=
    (reading_has_extent (References.referringFile ++ [0, 0])).1 .qualified "c.D" hname
  exact ⟨hname, n, hlength, hdecides, hcut⟩

end ClassRecovery.ClassFile
