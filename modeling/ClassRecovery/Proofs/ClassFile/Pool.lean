import ClassRecovery.Proofs.ClassFile.Grammar

/-!
Reading a constant pool: the reader accepts exactly the grammar, and every slot answers for the
entry that starts there.
-/

namespace ClassRecovery.ClassFile

/-- What can be seen at the slots of an entry: the entry at the first, nothing at a second. -/
def Entry.marks (e : Entry) : List (Option Entry) := (e.slots 0).map Slot.entry

@[simp] theorem Entry.map_entry_slots (e : Entry) (offset : Nat) :
    (e.slots offset).map Slot.entry = e.marks := by
  cases e <;> rfl

@[simp] theorem Entry.length_marks (e : Entry) : e.marks.length = e.width := by
  cases e <;> rfl

theorem Entry.width_pos (e : Entry) : 0 < e.width := by
  cases e <;> simp [Entry.width]

theorem Entry.width_le_two (e : Entry) : e.width ≤ 2 := by
  cases e <;> simp [Entry.width]

theorem Entry.marks_zero (e : Entry) : e.marks[0]? = some (some e) := by
  cases e <;> rfl

/-- A slot of an entry that is not its first shows nothing. -/
theorem Entry.marks_succ (e d : Entry) (k : Nat) : e.marks[k + 1]? ≠ some (some d) := by
  cases e <;> cases k <;> simp [Entry.marks, Entry.slots]

/-- The entries fill `left` slots: the last of them is still needed, and none is missing. -/
def Fills : (left : Nat) → List Entry → Prop
  | left, [] => left = 0
  | left, e :: es => 0 < left ∧ Fills (left - e.width) es

theorem fills_iff {left : Nat} {es : List Entry} :
    Fills left es ↔ left ≤ totalWidth es ∧ ∀ k < es.length, totalWidth (es.take k) < left := by
  induction es generalizing left with
  | nil => simp [Fills]
  | cons e es ih =>
    rw [Fills, ih, totalWidth_cons, List.length_cons]
    constructor
    · rintro ⟨hpos, hle, hlt⟩
      refine ⟨by omega, fun k hk => ?_⟩
      cases k with
      | zero => simpa using hpos
      | succ k =>
        have h := hlt k (by omega)
        rw [List.take_succ_cons, totalWidth_cons]
        omega
    · rintro ⟨hle, hlt⟩
      refine ⟨by simpa using hlt 0 (by omega), by omega, fun k hk => ?_⟩
      have h := hlt (k + 1) (by omega)
      rw [List.take_succ_cons, totalWidth_cons] at h
      omega

namespace ConstantPool

/-- While slots are left to fill, one more entry is read. -/
theorem readSlots_succ (left : Nat) (slots : Array Slot) (c : Cursor) :
    readSlots (left + 1) slots c =
      readEntry slots.size c >>= fun (e, c') =>
        readSlots (left + 1 - e.width) (slots.appendList (e.slots c.offset)) c' := by
  cases left with
  | zero =>
    rw [readSlots]
    cases readEntry slots.size c with
    | error e => rfl
    | ok r =>
      have h : 0 + 1 - r.1.width = 0 := by
        have := r.1.width_pos
        omega
      change _ = readSlots (0 + 1 - r.1.width) _ _
      rw [h, readSlots]
  | succ left =>
    rw [readSlots]
    cases readEntry slots.size c with
    | error e => rfl
    | ok r =>
      change (if r.1.width = 2 then _ else _) = readSlots (left + 1 + 1 - r.1.width) _ _
      have hpos := r.1.width_pos
      have hle := r.1.width_le_two
      split
      · next h => rw [h, show left + 1 + 1 - 2 = left by omega]
      · next h => rw [show left + 1 + 1 - r.1.width = left + 1 by omega]

theorem encodesAll_of_readSlots {left : Nat} {slots slots' : Array Slot} {c c' : Cursor}
    (h : readSlots left slots c = .ok (slots', c')) :
    ∃ es part, EncodesAll es part ∧ Fills left es ∧ c.Passes part c' := by
  induction left using Nat.strongRecOn generalizing slots c with
  | ind left ih =>
    cases left with
    | zero =>
      simp only [readSlots, Except.ok.injEq, Prod.mk.injEq] at h
      exact ⟨[], [], .nil, rfl, Cursor.passes_nil_iff.mpr h.2⟩
    | succ left =>
      rw [readSlots_succ] at h
      obtain ⟨⟨e, m⟩, he, h⟩ := bind_eq_ok_iff.mp h
      obtain ⟨part, hpart, hp⟩ := readEntry_eq_ok_iff.mp he
      have hless : left + 1 - e.width < left + 1 := by
        have := e.width_pos
        omega
      obtain ⟨es, parts, hes, hf, hps⟩ := ih _ hless h
      exact ⟨e :: es, part ++ parts, .cons hpart hes, ⟨by omega, hf⟩,
        Cursor.exists_passes_iff.mp ⟨m, hp, hps⟩⟩

theorem readSlots_of_encodesAll {es : List Entry} {part : Bytes} (hes : EncodesAll es part)
    {left : Nat} (hf : Fills left es) (slots : Array Slot) {c c' : Cursor}
    (hp : c.Passes part c') :
    ∃ slots', readSlots left slots c = .ok (slots', c') ∧
      slots'.toList.map Slot.entry = slots.toList.map Slot.entry ++ es.flatMap Entry.marks := by
  induction hes generalizing left slots c with
  | nil =>
    obtain rfl : left = 0 := hf
    obtain rfl := Cursor.passes_nil_iff.mp hp
    exact ⟨slots, rfl, by simp⟩
  | @cons e es part parts first _ ih =>
    obtain ⟨hpos, hf⟩ := hf
    obtain ⟨m, hp, hps⟩ := Cursor.exists_passes_iff.mpr hp
    obtain ⟨left, rfl⟩ : ∃ k, left = k + 1 := ⟨left - 1, by omega⟩
    have hread : readEntry slots.size c = .ok (e, m) := readEntry_eq_ok_iff.mpr ⟨part, first, hp⟩
    obtain ⟨slots', hr, hv⟩ := ih hf (slots.appendList (e.slots c.offset)) hps
    refine ⟨slots', ?_, ?_⟩
    · rw [readSlots_succ]
      exact bind_eq_ok_iff.mpr ⟨_, hread, hr⟩
    · simpa using hv

theorem readHeader_eq_ok_iff {c c' : Cursor} :
    readHeader c = .ok ((), c') ↔
      ∃ version : Bytes, version.length = 4 ∧
        c.Passes ([0xCA, 0xFE, 0xBA, 0xBE] ++ version) c' := by
  have magic : Bytes.ofBigEndian 4 0xCAFEBABE = [0xCA, 0xFE, 0xBA, 0xBE] := by decide
  unfold readHeader
  constructor
  · intro h
    obtain ⟨⟨found, m⟩, hm, h⟩ := bind_eq_ok_iff.mp h
    obtain ⟨-, hp⟩ := Cursor.number_eq_ok_iff.mp hm
    dsimp only at h
    split at h
    · contradiction
    · next hf =>
      obtain ⟨⟨version, m'⟩, hv, h⟩ := bind_eq_ok_iff.mp h
      obtain ⟨hl, hp'⟩ := Cursor.take_eq_ok_iff.mp hv
      cases h
      rw [Decidable.not_not.mp hf, magic] at hp
      exact ⟨version, hl, Cursor.exists_passes_iff.mp ⟨m, hp, hp'⟩⟩
  · rintro ⟨version, hl, hp⟩
    obtain ⟨m, hp, hp'⟩ := Cursor.exists_passes_iff.mpr hp
    have hm : c.number 4 = .ok (0xCAFEBABE, m) :=
      Cursor.number_eq_ok_iff.mpr ⟨by decide, by rw [magic]; exact hp⟩
    have hv : m.take 4 = .ok (version, c') := Cursor.take_eq_ok_iff.mpr ⟨hl, hp'⟩
    exact bind_eq_ok_iff.mpr ⟨_, hm, bind_eq_ok_iff.mpr ⟨_, hv, rfl⟩⟩

theorem read_eq_ok_iff {c c' : Cursor} {pool : ConstantPool} :
    read c = .ok (pool, c') ↔
      ∃ count m, c.number 2 = .ok (count, m) ∧
        readSlots (count - 1) #[⟨m.offset, none⟩] m = .ok (pool.slots, c') := by
  unfold read
  constructor
  · intro h
    obtain ⟨⟨count, m⟩, hc, h⟩ := bind_eq_ok_iff.mp h
    obtain ⟨⟨slots, m'⟩, hs, h⟩ := bind_eq_ok_iff.mp h
    cases h
    exact ⟨count, m, hc, hs⟩
  · rintro ⟨count, m, hc, hs⟩
    exact bind_eq_ok_iff.mpr ⟨_, hc, bind_eq_ok_iff.mpr ⟨_, hs, rfl⟩⟩

theorem parse_eq_ok_iff {b : Bytes} {pool : ConstantPool} :
    parse b = .ok pool ↔ ∃ m c, readHeader (.start b) = .ok ((), m) ∧ read m = .ok (pool, c) := by
  have h : parse b = .ok pool ↔ ∃ c, readFile (.start b) = .ok (pool, c) := by
    unfold parse
    cases readFile (.start b) with
    | error e => simp [Except.map]
    | ok r => simp [Except.map, Prod.ext_iff]
  rw [h]
  unfold readFile
  constructor
  · rintro ⟨c, hr⟩
    obtain ⟨⟨_, m⟩, hh, hr⟩ := bind_eq_ok_iff.mp hr
    exact ⟨m, c, hh, hr⟩
  · rintro ⟨m, c, hh, hr⟩
    exact ⟨c, bind_eq_ok_iff.mpr ⟨_, hh, hr⟩⟩

/-- The condition on the count, as the reader keeps it. -/
theorem hasPool_iff {b : Bytes} {count : Nat} {es : List Entry} :
    HasPool b count es ↔
      Fills (count - 1) es ∧ ∃ (version entries rest : Bytes), version.length = 4 ∧
        count < 65536 ∧ EncodesAll es entries ∧
        b = [0xCA, 0xFE, 0xBA, 0xBE] ++ version ++ Bytes.ofBigEndian 2 count ++ entries ++
          rest := by
  rw [fills_iff]
  constructor
  · rintro ⟨hb, hf, hn⟩
    refine ⟨⟨by omega, fun k hk => ?_⟩, hb⟩
    have := hn k hk
    omega
  · rintro ⟨⟨hf, hn⟩, hb⟩
    refine ⟨hb, by omega, fun k hk => ?_⟩
    have := hn k hk
    omega

/-- What is read belongs to the grammar. -/
theorem hasPool_of_parse {b : Bytes} {pool : ConstantPool} (h : parse b = .ok pool) :
    ∃ count es, HasPool b count es := by
  obtain ⟨m, c, hh, hr⟩ := parse_eq_ok_iff.mp h
  obtain ⟨version, hv, hp⟩ := readHeader_eq_ok_iff.mp hh
  obtain ⟨count, m', hc, hs⟩ := read_eq_ok_iff.mp hr
  obtain ⟨hlt, hpc⟩ := Cursor.number_eq_ok_iff.mp hc
  obtain ⟨es, entries, hes, hf, hpe⟩ := encodesAll_of_readSlots hs
  have hall := Cursor.exists_passes_iff.mp ⟨m', Cursor.exists_passes_iff.mp ⟨m, hp, hpc⟩, hpe⟩
  exact ⟨count, es, hasPool_iff.mpr ⟨hf, version, entries, c.rest, hv, hlt, hes, hall.1⟩⟩

/-- What belongs to the grammar is read, and each slot shows its entry. -/
theorem parse_of_hasPool {b : Bytes} {count : Nat} {es : List Entry} (h : HasPool b count es) :
    ∃ pool, parse b = .ok pool ∧
      pool.slots.toList.map Slot.entry = none :: es.flatMap Entry.marks := by
  obtain ⟨hf, version, entries, rest, hv, hlt, hes, hb⟩ := hasPool_iff.mp h
  have hall : (Cursor.start b).Passes
      (([0xCA, 0xFE, 0xBA, 0xBE] ++ version) ++ (Bytes.ofBigEndian 2 count ++ entries))
      ⟨8 + 2 + entries.length, rest⟩ := by
    constructor
    · simp [Cursor.start, hb]
    · simp [Cursor.start, hv]
      omega
  obtain ⟨m, hp, hp'⟩ := Cursor.exists_passes_iff.mpr hall
  obtain ⟨m', hpc, hpe⟩ := Cursor.exists_passes_iff.mpr hp'
  have hh := readHeader_eq_ok_iff.mpr ⟨version, hv, hp⟩
  have hc : m.number 2 = .ok (count, m') := Cursor.number_eq_ok_iff.mpr ⟨hlt, hpc⟩
  obtain ⟨slots, hs, hshown⟩ := readSlots_of_encodesAll hes hf #[⟨m'.offset, none⟩] hpe
  refine ⟨⟨slots⟩, parse_eq_ok_iff.mpr ⟨m, _, hh, read_eq_ok_iff.mpr ⟨count, m', hc, hs⟩⟩, ?_⟩
  simpa using hshown

theorem getElem?_flatMap_marks {es : List Entry} {k : Nat} {e : Entry} :
    (es.flatMap Entry.marks)[k]? = some (some e) ↔
      ∃ before after, es = before ++ e :: after ∧ k = totalWidth before := by
  induction es generalizing k with
  | nil => simp
  | cons d es ih =>
    rw [List.flatMap_cons]
    by_cases hk : k < d.width
    · rw [List.getElem?_append_left (by simpa using hk)]
      constructor
      · intro h
        cases k with
        | zero =>
          rw [Entry.marks_zero, Option.some.injEq, Option.some.injEq] at h
          exact ⟨[], es, by rw [h]; rfl, rfl⟩
        | succ k => exact absurd h (d.marks_succ e k)
      · rintro ⟨before, after, hes, rfl⟩
        cases before with
        | nil =>
          obtain ⟨rfl, rfl⟩ := List.cons.inj hes
          exact d.marks_zero
        | cons d' before =>
          obtain ⟨rfl, -⟩ := List.cons.inj hes
          rw [totalWidth_cons] at hk
          omega
    · rw [List.getElem?_append_right (by simpa using hk), Entry.length_marks, ih]
      constructor
      · rintro ⟨before, after, rfl, hkw⟩
        refine ⟨d :: before, after, rfl, ?_⟩
        rw [totalWidth_cons]
        omega
      · rintro ⟨before, after, hes, rfl⟩
        cases before with
        | nil =>
          obtain ⟨rfl, -⟩ := List.cons.inj hes
          exact absurd d.width_pos hk
        | cons d' before =>
          obtain ⟨rfl, rfl⟩ := List.cons.inj hes
          refine ⟨before, after, rfl, ?_⟩
          rw [totalWidth_cons]
          omega

@[simp] theorem length_flatMap_marks (es : List Entry) :
    (es.flatMap Entry.marks).length = totalWidth es := by
  induction es with
  | nil => rfl
  | cons e es ih => simp [ih]

/-- Nothing starts at the second slot of a wide entry. -/
theorem not_startsAt_second {es : List Entry} {slot : Nat} {e : Entry}
    (h : StartsAt es slot .wide) : ¬StartsAt es (slot + 1) e := by
  obtain ⟨before, after, rfl, rfl⟩ := h
  rintro ⟨before', after', hes, hk⟩
  have hshown : ((before ++ Entry.wide :: after).flatMap Entry.marks)[totalWidth before + 1]? =
      some (some e) := getElem?_flatMap_marks.mpr ⟨before', after', hes, by omega⟩
  have hle : (before.flatMap Entry.marks).length ≤ totalWidth before + 1 := by
    rw [length_flatMap_marks]
    omega
  rw [List.flatMap_append, List.getElem?_append_right hle, length_flatMap_marks,
    Nat.add_sub_cancel_left] at hshown
  exact absurd hshown (by simp [Entry.marks, Entry.slots])

theorem not_startsAt_zero {es : List Entry} {e : Entry} : ¬StartsAt es 0 e := by
  rintro ⟨before, after, -, hs⟩
  omega

section Views

variable {pool : ConstantPool} {es : List Entry}
  (shown : pool.slots.toList.map Slot.entry = none :: es.flatMap Entry.marks)

include shown

/-- Every slot answers for the entry that starts there, and no other. -/
theorem entry?_eq_some_iff {slot : Nat} {e : Entry} :
    pool.entry? slot = some e ↔ StartsAt es slot e := by
  have h : pool.entry? slot = some e ↔
      (pool.slots.toList.map Slot.entry)[slot]? = some (some e) := by
    rw [List.getElem?_map, Array.getElem?_toList, entry?]
    cases pool.slots[slot]? <;> simp
  rw [h, shown]
  cases slot with
  | zero =>
    simp only [List.getElem?_cons_zero, Option.some.injEq, reduceCtorEq, false_iff]
    exact not_startsAt_zero
  | succ k =>
    rw [List.getElem?_cons_succ, getElem?_flatMap_marks]
    constructor
    · rintro ⟨before, after, hes, hk⟩
      exact ⟨before, after, hes, by omega⟩
    · rintro ⟨before, after, hes, hk⟩
      exact ⟨before, after, hes, by omega⟩

theorem text?_eq_some_iff {slot : Nat} {s : String} :
    pool.text? slot = some s ↔ StartsAt es slot (.text s) := by
  rw [← entry?_eq_some_iff shown, text?]
  cases pool.entry? slot with
  | none => simp
  | some e => cases e <;> simp

theorem className_eq_ok_iff {slot : Nat} {s : String} :
    pool.className slot = .ok s ↔
      ∃ name, StartsAt es slot (.classRef name) ∧ StartsAt es name (.text s) := by
  simp only [← text?_eq_some_iff shown, className]
  rw [exists_congr fun _ => and_congr_left' (entry?_eq_some_iff shown).symm]
  cases pool.entry? slot with
  | none => simp
  | some e =>
    cases e with
    | classRef name =>
      simp only [Option.some.injEq, Entry.classRef.injEq, exists_eq_left']
      cases pool.text? name <;> simp
    | _ => simp

theorem mem_classSlots_iff {slot : Nat} :
    slot ∈ pool.classSlots ↔ ∃ name, StartsAt es slot (.classRef name) := by
  rw [exists_congr fun _ => (entry?_eq_some_iff shown).symm, classSlots, List.mem_filter, isClass]
  cases h : pool.entry? slot with
  | none => simp
  | some e =>
    have hslot : slot < pool.count := by
      obtain ⟨s, hs, -⟩ := Option.bind_eq_some_iff.mp h
      exact (Array.getElem?_eq_some_iff.mp hs).1
    cases e <;> simp [hslot]

end Views

theorem pairwise_classSlots (pool : ConstantPool) : pool.classSlots.Pairwise (· < ·) :=
  List.pairwise_lt_range.filter _

/-- The reader accepts exactly the byte strings of the grammar. The strings, the class names and
the list of class entries that a pool gives are those of the entries that start at the slots asked
for; slot zero and the second slots of wide entries give nothing. -/
theorem parse_follows_grammar (b : Bytes) :
    ((∃ pool, parse b = .ok pool) ↔ ∃ count es, HasPool b count es) ∧
    ∀ pool count es, parse b = .ok pool → HasPool b count es →
      (∀ slot s, pool.text? slot = some s ↔ StartsAt es slot (.text s)) ∧
      (pool.classSlots.Pairwise (· < ·) ∧
        ∀ slot, slot ∈ pool.classSlots ↔ ∃ name, StartsAt es slot (.classRef name)) ∧
      (∀ slot s, pool.className slot = .ok s ↔
        ∃ name, StartsAt es slot (.classRef name) ∧ StartsAt es name (.text s)) ∧
      ∀ slot, slot = 0 ∨ (∃ first, StartsAt es first .wide ∧ slot = first + 1) →
        pool.text? slot = none ∧ slot ∉ pool.classSlots ∧ ∀ s, pool.className slot ≠ .ok s := by
  refine ⟨⟨fun ⟨pool, hp⟩ => hasPool_of_parse hp, ?_⟩, ?_⟩
  · rintro ⟨count, es, h⟩
    obtain ⟨pool, hp, -⟩ := parse_of_hasPool h
    exact ⟨pool, hp⟩
  · intro pool count es hp h
    obtain ⟨pool', hp', shown⟩ := parse_of_hasPool h
    obtain rfl : pool' = pool := Except.ok.inj (hp'.symm.trans hp)
    refine ⟨fun slot s => text?_eq_some_iff shown,
      ⟨pairwise_classSlots pool', fun slot => mem_classSlots_iff shown⟩,
      fun slot s => className_eq_ok_iff shown, fun slot hslot => ?_⟩
    have hnone : ∀ e, ¬StartsAt es slot e := by
      rcases hslot with rfl | ⟨first, hfirst, rfl⟩
      · exact fun e => not_startsAt_zero
      · exact fun e => not_startsAt_second hfirst
    refine ⟨Option.eq_none_iff_forall_ne_some.mpr fun s hs => ?_, fun hm => ?_, fun s hs => ?_⟩
    · exact hnone _ ((text?_eq_some_iff shown).mp hs)
    · obtain ⟨name, hn⟩ := (mem_classSlots_iff shown).mp hm
      exact hnone _ hn
    · obtain ⟨name, hn, -⟩ := (className_eq_ok_iff shown).mp hs
      exact hnone _ hn

/-- A class entry that points at a later slot, its name, an eight-byte number, and a byte that
belongs to the pool no more. -/
def forwardFile : Bytes :=
  [0xCA, 0xFE, 0xBA, 0xBE, 0, 0, 0, 52, 0, 5, 7, 0, 2, 1, 0, 3, 0x61, 0x2F, 0x42,
    5, 0, 0, 0, 0, 0, 0, 0, 9, 0x21]

theorem hasPool_forwardFile : HasPool forwardFile 5 [.classRef 2, .text "a/B", .wide] where
  bytes := by
    have ht : Text.ModifiedUtf8.decode? [0x61, 0x2F, 0x42] = some "a/B" := by cbv
    have hw : Encodes .wide [5, 0, 0, 0, 0, 0, 0, 0, 9] := .eight (by decide) rfl
    exact ⟨[0, 0, 0, 52], _, [0x21], rfl, by decide,
      .cons (.classRef (by decide)) (.cons (.text (by decide) ht) (.cons hw .nil)), by decide⟩
  filled := by decide
  needed := by decide

theorem parse_follows_grammar_forwardFile :
    HasPool forwardFile 5 [.classRef 2, .text "a/B", .wide] ∧
      ∃ pool, parse forwardFile = .ok pool ∧ pool.className 1 = .ok "a/B" ∧
        pool.text? 4 = none := by
  obtain ⟨accepts, answers⟩ := parse_follows_grammar forwardFile
  obtain ⟨pool, hp⟩ := accepts.mpr ⟨5, _, hasPool_forwardFile⟩
  obtain ⟨-, -, names, second⟩ := answers pool 5 _ hp hasPool_forwardFile
  refine ⟨hasPool_forwardFile, pool, hp, (names 1 "a/B").mpr ⟨2, ?_, ?_⟩, (second 4 (.inr ?_)).1⟩
  · exact ⟨[], _, rfl, rfl⟩
  · exact ⟨[.classRef 2], _, rfl, rfl⟩
  · exact ⟨3, ⟨[.classRef 2, .text "a/B"], _, rfl, rfl⟩, rfl⟩

end ConstantPool

end ClassRecovery.ClassFile
