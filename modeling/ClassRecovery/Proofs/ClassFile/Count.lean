import ClassRecovery.Proofs.ClassFile.Pool

/-!
The size of a constant pool against the count in the header. Slots are filled entry by entry, so
only the last entry can go beyond the announced slots, and only by the second slot of an eight-byte
number. Slot zero is there even where no slot was announced.
-/

namespace ClassRecovery.ClassFile

/-- The count that the header of a class file announces, slot zero included. -/
def announced (b : Bytes) : Nat := Bytes.bigEndian ((b.drop 8).take 2)

@[simp] theorem totalWidth_append (front back : List Entry) :
    totalWidth (front ++ back) = totalWidth front + totalWidth back := by
  simp [totalWidth]

theorem Entry.width_eq_two_iff (e : Entry) : e.width = 2 ↔ e = .wide := by
  cases e <;> simp [Entry.width]

namespace HasPool

variable {b : Bytes} {count : Nat} {es front : List Entry} {e : Entry}

/-- The count of the grammar is the one that stands in the header. -/
theorem announced_eq (h : HasPool b count es) : announced b = count := by
  obtain ⟨version, entries, rest, hv, hlt, -, rfl⟩ := h.bytes
  have hlength : ([0xCA, 0xFE, 0xBA, 0xBE] ++ version).length = 8 := by simp [hv]
  have hfield : (([0xCA, 0xFE, 0xBA, 0xBE] ++ version ++ Bytes.ofBigEndian 2 count ++ entries ++
      rest).drop 8).take 2 = Bytes.ofBigEndian 2 count := by
    rw [List.append_assoc, List.append_assoc, List.drop_left' hlength,
      List.take_left' (Bytes.length_ofBigEndian 2 count)]
  rw [announced, hfield]
  exact (Bytes.bigEndian_eq_iff.mpr ⟨by simpa using hlt, by simp⟩)

/-- All entries but the last leave an announced slot to fill. -/
theorem lt_of_concat (h : HasPool b count (front ++ [e])) : 1 + totalWidth front < count := by
  simpa using h.needed front.length (by simp)

/-- An eight-byte number that starts at the last announced slot is the last entry. -/
theorem eq_concat_of_startsAt (h : HasPool b count es) (hs : StartsAt es (count - 1) .wide) :
    ∃ front, es = front ++ [.wide] ∧ count = 2 + totalWidth front := by
  obtain ⟨front, after, rfl, hslot⟩ := hs
  have hcount : count = 2 + totalWidth front := by omega
  cases after with
  | nil => exact ⟨front, rfl, hcount⟩
  | cons e after =>
    -- A further entry would have no announced slot left to fill.
    have hneeded := h.needed (front.length + 1) (by simp)
    rw [List.take_append, List.take_of_length_le (by omega), Nat.add_sub_cancel_left,
      List.take_succ_cons, List.take_zero, totalWidth_append, totalWidth_cons, totalWidth_nil]
      at hneeded
    simp only [Entry.width] at hneeded
    omega

/-- The entries fill the announced slots exactly, or go beyond them by one. -/
theorem slots_cases (h : HasPool b count es) :
    (1 + totalWidth es = count ∧ count ≠ 0 ∧ ¬StartsAt es (count - 1) .wide) ∨
      (1 + totalWidth es = count + 1 ∧ (count = 0 ∨ StartsAt es (count - 1) .wide)) := by
  by_cases hs : StartsAt es (count - 1) .wide
  · obtain ⟨front, rfl, hcount⟩ := h.eq_concat_of_startsAt hs
    refine .inr ⟨?_, .inr hs⟩
    simp [Entry.width]
    omega
  rcases List.eq_nil_or_concat es with rfl | ⟨front, e, rfl⟩
  · have hle : count ≤ 1 := h.filled
    rw [totalWidth_nil]
    by_cases hzero : count = 0
    · exact .inr ⟨by omega, .inl hzero⟩
    · exact .inl ⟨by omega, hzero, hs⟩
  · rw [List.concat_eq_append] at h hs ⊢
    have hlt := h.lt_of_concat
    have hfilled := h.filled
    have hpos := e.width_pos
    have hle := e.width_le_two
    simp only [totalWidth_append, totalWidth_cons, totalWidth_nil, Nat.add_zero] at hfilled ⊢
    refine .inl ⟨?_, by omega, hs⟩
    by_contra hne
    have hwide : e = .wide := e.width_eq_two_iff.mp (by omega)
    exact hs ⟨front, [], by rw [hwide], by omega⟩

end HasPool

namespace ConstantPool

variable {b : Bytes} {pool : ConstantPool} {count : Nat} {es : List Entry}

theorem count_eq_of_hasPool (hp : parse b = .ok pool) (h : HasPool b count es) :
    pool.count = 1 + totalWidth es := by
  obtain ⟨pool', hp', shown⟩ := parse_of_hasPool h
  obtain rfl : pool' = pool := Except.ok.inj (hp'.symm.trans hp)
  have hlength := congrArg List.length shown
  rw [List.length_map, List.length_cons, length_flatMap_marks, Array.length_toList] at hlength
  rw [ConstantPool.count, hlength, Nat.add_comm]

/-- The pool that is read has the announced number of slots, unless none was announced or an
eight-byte number starts at the last of them. Then it has one slot more. -/
theorem count_eq_announced_iff (hp : parse b = .ok pool) :
    (∃ es, HasPool b (announced b) es) ∧
      ∀ es, HasPool b (announced b) es →
        pool.count = 1 + totalWidth es ∧
        (pool.count = announced b ↔
          announced b ≠ 0 ∧ ¬StartsAt es (announced b - 1) .wide) ∧
        (pool.count ≠ announced b → pool.count = announced b + 1) := by
  constructor
  · obtain ⟨count, es, h⟩ := hasPool_of_parse hp
    exact ⟨es, h.announced_eq ▸ h⟩
  · intro es h
    have hcount := count_eq_of_hasPool hp h
    refine ⟨hcount, ?_⟩
    rw [hcount]
    rcases h.slots_cases with ⟨heq, hne, hs⟩ | ⟨heq, hover⟩
    · exact ⟨⟨fun _ => ⟨hne, hs⟩, fun _ => heq⟩, fun hdiffers => absurd heq hdiffers⟩
    · refine ⟨⟨fun heq' => by omega, fun ⟨hne, hs⟩ => ?_⟩, fun _ => heq⟩
      rcases hover with hzero | hwide
      · exact absurd hzero hne
      · exact absurd hwide hs

/-- The file of a pool whose entries fill the announced slots exactly. -/
theorem count_eq_announced_forwardFile :
    (∃ pool, parse forwardFile = .ok pool ∧ pool.count = 5) ∧ announced forwardFile = 5 := by
  have hannounced : announced forwardFile = 5 := hasPool_forwardFile.announced_eq
  obtain ⟨pool, hp, -⟩ := parse_of_hasPool hasPool_forwardFile
  obtain ⟨-, hcount⟩ := count_eq_announced_iff hp
  refine ⟨⟨pool, hp, ?_⟩, hannounced⟩
  exact (hcount _ (hannounced.symm ▸ hasPool_forwardFile)).1

/-- One slot besides slot zero is announced, and an eight-byte number stands there. -/
def overfullFile : Bytes :=
  [0xCA, 0xFE, 0xBA, 0xBE, 0, 0, 0, 52, 0, 2, 5, 0, 0, 0, 0, 0, 0, 0, 9,
    0, 0x21, 0, 0, 0, 0, 0, 0, 0, 0, 0, 0, 0, 0]

/-- A pool that is read can have more slots than were announced. -/
theorem count_ne_announced : announced overfullFile = 2 ∧
    ∃ pool, parse overfullFile = .ok pool ∧ pool.count = 3 :=
  ⟨rfl, _, rfl, rfl⟩

end ConstantPool

end ClassRecovery.ClassFile
