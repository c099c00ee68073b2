import ClassRecovery.ClassFile.ConstantPool
import ClassRecovery.Outcome
import ClassRecovery.Proofs.Bytes

/-!
The grammar of the constant pool, stated without the reader. An entry is a tag and what belongs to
it; the entries of a pool are those that are needed to fill the slots that the count announces. The
main statement is that one step of the reader takes exactly one entry of the grammar.
-/

namespace ClassRecovery.ClassFile

/-- The byte strings that stand for an entry. -/
inductive Encodes : Entry → Bytes → Prop
  | text {raw : Bytes} {value : String} (size : raw.length < 65536)
      (decodes : Text.ModifiedUtf8.decode? raw = some value) :
      Encodes (.text value) (1 :: (Bytes.ofBigEndian 2 raw.length ++ raw))
  | classRef {name : Nat} (size : name < 65536) :
      Encodes (.classRef name) (7 :: Bytes.ofBigEndian 2 name)
  | two {tag : UInt8} {payload : Bytes} (known : tag ∈ [8, 16, 19, 20])
      (size : payload.length = 2) : Encodes .narrow (tag :: payload)
  | three {payload : Bytes} (size : payload.length = 3) : Encodes .narrow (15 :: payload)
  | four {tag : UInt8} {payload : Bytes} (known : tag ∈ [3, 4, 9, 10, 11, 12, 17, 18])
      (size : payload.length = 4) : Encodes .narrow (tag :: payload)
  | eight {tag : UInt8} {payload : Bytes} (known : tag ∈ [5, 6]) (size : payload.length = 8) :
      Encodes .wide (tag :: payload)

/-- The byte strings that stand for entries in a row. -/
inductive EncodesAll : List Entry → Bytes → Prop
  | nil : EncodesAll [] []
  | cons {e : Entry} {es : List Entry} {part parts : Bytes} (first : Encodes e part)
      (others : EncodesAll es parts) : EncodesAll (e :: es) (part ++ parts)

/-- How many slots entries take together. -/
def totalWidth (es : List Entry) : Nat := (es.map Entry.width).sum

@[simp] theorem totalWidth_nil : totalWidth [] = 0 := rfl

@[simp] theorem totalWidth_cons (e : Entry) (es : List Entry) :
    totalWidth (e :: es) = e.width + totalWidth es := rfl

/-- The byte string is a class file with these entries, as far as its constant pool reaches. The
entries go on for as long as there are announced slots to fill, and no longer. -/
structure HasPool (b : Bytes) (count : Nat) (es : List Entry) : Prop where
  bytes : ∃ (version entries rest : Bytes), version.length = 4 ∧ count < 65536 ∧
    EncodesAll es entries ∧
    b = [0xCA, 0xFE, 0xBA, 0xBE] ++ version ++ Bytes.ofBigEndian 2 count ++ entries ++ rest
  filled : count ≤ 1 + totalWidth es
  needed : ∀ k < es.length, 1 + totalWidth (es.take k) < count

/-- The entry starts at the slot: slots are numbered from one. -/
def StartsAt (es : List Entry) (slot : Nat) (e : Entry) : Prop :=
  ∃ before after, es = before ++ e :: after ∧ slot = 1 + totalWidth before

namespace Cursor

/-- One place is reached from another by going past some bytes. -/
def Passes (c : Cursor) (part : Bytes) (c' : Cursor) : Prop :=
  c.rest = part ++ c'.rest ∧ c'.offset = c.offset + part.length

/-- Going past two parts in turn is going past both together. -/
theorem exists_passes_iff {c c' : Cursor} {p q : Bytes} :
    (∃ m, c.Passes p m ∧ m.Passes q c') ↔ c.Passes (p ++ q) c' := by
  constructor
  · rintro ⟨m, ⟨hr, ho⟩, hr', ho'⟩
    refine ⟨by rw [hr, hr', List.append_assoc], ?_⟩
    rw [ho', ho, List.length_append]
    omega
  · rintro ⟨hr, ho⟩
    refine ⟨⟨c.offset + p.length, q ++ c'.rest⟩, ⟨?_, rfl⟩, rfl, ?_⟩
    · rw [hr, List.append_assoc]
    · rw [ho, List.length_append, Nat.add_assoc]

theorem passes_nil_iff {c c' : Cursor} : c.Passes [] c' ↔ c = c' := by
  obtain ⟨offset, rest⟩ := c
  obtain ⟨offset', rest'⟩ := c'
  simp only [Passes, List.nil_append, List.length_nil, Nat.add_zero, Cursor.mk.injEq]
  constructor
  · rintro ⟨hr, ho⟩
    exact ⟨ho.symm, hr⟩
  · rintro ⟨ho, hr⟩
    exact ⟨hr, ho.symm⟩

theorem take_eq_ok_iff {n : Nat} {c c' : Cursor} {b : Bytes} :
    c.take n = .ok (b, c') ↔ b.length = n ∧ c.Passes b c' := by
  obtain ⟨offset', rest'⟩ := c'
  unfold take Passes
  cases h : c.rest.take? n with
  | none =>
    simp only [reduceCtorEq, false_iff, not_and]
    intro hl hr
    rw [Bytes.take?_eq_some_iff.mpr ⟨hr, hl⟩] at h
    contradiction
  | some r =>
    obtain ⟨front, rest⟩ := r
    obtain ⟨hr, hl⟩ := Bytes.take?_eq_some_iff.mp h
    simp only [Except.ok.injEq, Prod.mk.injEq, Cursor.mk.injEq]
    constructor
    · rintro ⟨rfl, rfl, rfl⟩
      exact ⟨hl, hr, by rw [hl]⟩
    · rintro ⟨hl', hr', ho⟩
      obtain ⟨rfl, rfl⟩ := List.append_inj (hr.symm.trans hr') (hl.trans hl'.symm)
      exact ⟨rfl, by rw [ho, hl], rfl⟩

theorem number_eq_ok_iff {n v : Nat} {c c' : Cursor} :
    c.number n = .ok (v, c') ↔ v < 256 ^ n ∧ c.Passes (Bytes.ofBigEndian n v) c' := by
  have h : c.number n = .ok (v, c') ↔ ∃ b, c.take n = .ok (b, c') ∧ Bytes.bigEndian b = v := by
    unfold number
    cases c.take n with
    | error e => simp
    | ok r =>
      obtain ⟨front, m⟩ := r
      simp only [Except.ok.injEq, Prod.mk.injEq]
      constructor
      · rintro ⟨hv, hm⟩
        exact ⟨front, ⟨rfl, hm⟩, hv⟩
      · rintro ⟨b, ⟨rfl, hm⟩, hv⟩
        exact ⟨hv, hm⟩
  rw [h]
  constructor
  · rintro ⟨b, ht, hb⟩
    obtain ⟨rfl, hp⟩ := take_eq_ok_iff.mp ht
    obtain ⟨hv, hb⟩ := Bytes.bigEndian_eq_iff.mp hb
    exact ⟨hv, hb ▸ hp⟩
  · rintro ⟨hv, hp⟩
    refine ⟨_, take_eq_ok_iff.mpr ⟨Bytes.length_ofBigEndian n v, hp⟩, ?_⟩
    exact Bytes.bigEndian_eq_iff.mpr (by simpa using hv)

end Cursor

theorem skippedSize?_eq_some_iff {tag : UInt8} {size : Nat} :
    skippedSize? tag.toNat = some size ↔
      (tag ∈ [8, 16, 19, 20] ∧ size = 2) ∨ (tag = 15 ∧ size = 3) ∨
        (tag ∈ [3, 4, 9, 10, 11, 12, 17, 18] ∧ size = 4) ∨ (tag ∈ [5, 6] ∧ size = 8) := by
  simp only [skippedSize?, List.mem_cons, List.not_mem_nil, or_false, ← UInt8.toNat_inj,
    UInt8.reduceToNat]
  repeat' split
  all_goals
    simp only [Option.some.injEq, reduceCtorEq, false_iff]
    omega

@[simp] theorem ofBigEndian_one (n : Nat) : Bytes.ofBigEndian 1 n = [UInt8.ofNat n] := rfl

/-- An entry that is passed over is a known tag and as many bytes as belong to it. -/
theorem encodes_of_skippedSize? {tag : UInt8} {size : Nat} {payload : Bytes}
    (known : skippedSize? tag.toNat = some size) (h : payload.length = size) :
    Encodes (if size = 8 then .wide else .narrow) (tag :: payload) := by
  rcases skippedSize?_eq_some_iff.mp known with ⟨ht, rfl⟩ | ⟨rfl, rfl⟩ | ⟨ht, rfl⟩ | ⟨ht, rfl⟩
  · exact .two ht h
  · exact .three h
  · exact .four ht h
  · exact .eight ht h

theorem encodes_of_readEntry {slot : Nat} {c c' : Cursor} {e : Entry}
    (h : readEntry slot c = .ok (e, c')) : ∃ part, Encodes e part ∧ c.Passes part c' := by
  unfold readEntry at h
  obtain ⟨⟨tag, c₁⟩, htag, h⟩ := bind_eq_ok_iff.mp h
  obtain ⟨hb, hp₁⟩ := Cursor.number_eq_ok_iff.mp htag
  rw [ofBigEndian_one] at hp₁
  dsimp only at h
  split at h
  · next ht =>
    obtain ⟨⟨size, c₂⟩, hsize, h⟩ := bind_eq_ok_iff.mp h
    obtain ⟨⟨raw, c₃⟩, hraw, h⟩ := bind_eq_ok_iff.mp h
    obtain ⟨hs, hp₂⟩ := Cursor.number_eq_ok_iff.mp hsize
    obtain ⟨rfl, hp₃⟩ := Cursor.take_eq_ok_iff.mp hraw
    dsimp only at h
    split at h
    · next value hd =>
      cases h
      subst ht
      refine ⟨_, .text hs hd, ?_⟩
      exact Cursor.exists_passes_iff.mp ⟨c₁, hp₁, Cursor.exists_passes_iff.mp ⟨c₂, hp₂, hp₃⟩⟩
    · contradiction
  · split at h
    · next ht =>
      obtain ⟨⟨name, c₂⟩, hname, h⟩ := bind_eq_ok_iff.mp h
      obtain ⟨hn, hp₂⟩ := Cursor.number_eq_ok_iff.mp hname
      cases h
      subst ht
      exact ⟨_, .classRef hn, Cursor.exists_passes_iff.mp ⟨c₁, hp₁, hp₂⟩⟩
    · split at h
      · next size hs =>
        obtain ⟨⟨payload, c₂⟩, hpayload, h⟩ := bind_eq_ok_iff.mp h
        obtain ⟨hl, hp₂⟩ := Cursor.take_eq_ok_iff.mp hpayload
        cases h
        rw [← UInt8.toNat_ofNat_of_lt' hb] at hs
        exact ⟨_, encodes_of_skippedSize? hs hl, Cursor.exists_passes_iff.mp ⟨c₁, hp₁, hp₂⟩⟩
      · contradiction

theorem readEntry_of_skippedSize? {slot size : Nat} {c c' : Cursor} {tag : UInt8}
    {payload : Bytes} (known : skippedSize? tag.toNat = some size)
    (hl : payload.length = size) (hp : c.Passes (tag :: payload) c') :
    readEntry slot c = .ok (if size = 8 then .wide else .narrow, c') := by
  have h1 : tag.toNat ≠ 1 := fun h => by simp [h, skippedSize?] at known
  have h7 : tag.toNat ≠ 7 := fun h => by simp [h, skippedSize?] at known
  obtain ⟨c₁, hp₁, hp₂⟩ :=
    Cursor.exists_passes_iff.mpr (show c.Passes ([tag] ++ payload) c' from hp)
  have htag : c.number 1 = .ok (tag.toNat, c₁) :=
    Cursor.number_eq_ok_iff.mpr ⟨by simpa using tag.toNat_lt, by simpa using hp₁⟩
  have hpayload : c₁.take size = .ok (payload, c') := Cursor.take_eq_ok_iff.mpr ⟨hl, hp₂⟩
  unfold readEntry
  refine bind_eq_ok_iff.mpr ⟨_, htag, ?_⟩
  simp only [h1, h7, known, if_false]
  exact bind_eq_ok_iff.mpr ⟨_, hpayload, rfl⟩

/-- Reading an entry goes past exactly one byte string that stands for it. -/
theorem readEntry_eq_ok_iff {slot : Nat} {c c' : Cursor} {e : Entry} :
    readEntry slot c = .ok (e, c') ↔ ∃ part, Encodes e part ∧ c.Passes part c' := by
  refine ⟨encodes_of_readEntry, ?_⟩
  rintro ⟨part, he, hp⟩
  cases he with
  | @text raw value hs hd =>
    obtain ⟨c₁, hp₁, hp⟩ := Cursor.exists_passes_iff.mpr
      (show c.Passes ([1] ++ (Bytes.ofBigEndian 2 raw.length ++ raw)) c' from hp)
    obtain ⟨c₂, hp₂, hp₃⟩ := Cursor.exists_passes_iff.mpr hp
    have htag : c.number 1 = .ok (1, c₁) := Cursor.number_eq_ok_iff.mpr ⟨by decide, hp₁⟩
    have hsize : c₁.number 2 = .ok (raw.length, c₂) := Cursor.number_eq_ok_iff.mpr ⟨hs, hp₂⟩
    have hraw : c₂.take raw.length = .ok (raw, c') := Cursor.take_eq_ok_iff.mpr ⟨rfl, hp₃⟩
    unfold readEntry
    refine bind_eq_ok_iff.mpr ⟨_, htag, bind_eq_ok_iff.mpr ⟨_, hsize, ?_⟩⟩
    exact bind_eq_ok_iff.mpr ⟨_, hraw, by simp only [hd]⟩
  | @classRef name hn =>
    obtain ⟨c₁, hp₁, hp₂⟩ := Cursor.exists_passes_iff.mpr
      (show c.Passes ([7] ++ Bytes.ofBigEndian 2 name) c' from hp)
    have htag : c.number 1 = .ok (7, c₁) := Cursor.number_eq_ok_iff.mpr ⟨by decide, hp₁⟩
    have hname : c₁.number 2 = .ok (name, c') := Cursor.number_eq_ok_iff.mpr ⟨hn, hp₂⟩
    unfold readEntry
    exact bind_eq_ok_iff.mpr ⟨_, htag, bind_eq_ok_iff.mpr ⟨_, hname, rfl⟩⟩
  | two ht hl =>
    exact readEntry_of_skippedSize? (skippedSize?_eq_some_iff.mpr (.inl ⟨ht, rfl⟩)) hl hp
  | three hl =>
    exact readEntry_of_skippedSize? (skippedSize?_eq_some_iff.mpr (.inr (.inl ⟨rfl, rfl⟩))) hl hp
  | four ht hl =>
    have known := skippedSize?_eq_some_iff.mpr (.inr (.inr (.inl ⟨ht, rfl⟩)))
    exact readEntry_of_skippedSize? known hl hp
  | eight ht hl =>
    have known := skippedSize?_eq_some_iff.mpr (.inr (.inr (.inr ⟨ht, rfl⟩)))
    exact readEntry_of_skippedSize? known hl hp

end ClassRecovery.ClassFile
