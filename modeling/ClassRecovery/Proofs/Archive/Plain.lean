import Mathlib
import ClassRecovery.Proofs.Archive.Packing
import ClassRecovery.Proofs.Archive.ReadBack

/-!
Archives that are read as they were written, told from what they were written from: names and
lengths, whatever the packed bytes are.
-/

namespace ClassRecovery.Archive

theorem length_centralPart (offset : Nat) (items : List Item) :
    (centralPart offset items).length =
      (items.map fun e => 46 + (Text.Utf8.encode e.name).length).sum := by
  induction items generalizing offset with
  | nil => rfl
  | cons e rest ih =>
    rw [centralPart, List.length_append, ih, Item.centralRecord_eq, List.length_append,
      Item.length_centralFields, List.map_cons, List.sum_cons]

theorem length_localPart (items : List Item) : (localPart items).length =
    (items.map fun e => 30 + (Text.Utf8.encode e.name).length + e.packed.length).sum := by
  induction items with
  | nil => rfl
  | cons e rest ih =>
    rw [localPart, List.flatMap_cons, List.length_append, ← localPart, ih, List.map_cons,
      List.sum_cons]
    congr 1
    simp [Item.localRecord, Item.sharedFields]
    omega

/-- How long an entry makes an archive, at most. -/
def entryBound (e : String × Bytes) : Nat :=
  76 + 2 * (Text.Utf8.encode e.1).length + (e.2.length + 2) * (e.2.length + 3000)

theorem length_packed_le (name : String) (b : Bytes) :
    (Item.ofContent name b).packed.length ≤ (b.length + 2) * (b.length + 3000) := by
  unfold Item.ofContent
  dsimp only
  split
  · exact Deflate.length_deflate_le b
  · nlinarith

theorem length_write_le (entries : List (String × Bytes)) :
    (write entries).length ≤ (entries.map entryBound).sum + 22 := by
  have hend : ∀ count size offset, (endRecord count size offset).length = 22 := by
    intro count size offset
    simp [endRecord]
  have hitems : (localPart (itemsOf entries)).length + (centralPart 0 (itemsOf entries)).length ≤
      (entries.map entryBound).sum := by
    rw [length_localPart, length_centralPart, itemsOf, List.map_map, List.map_map,
      ← List.sum_map_add]
    refine List.sum_le_sum fun e _ => ?_
    have hpacked := length_packed_le e.1 e.2
    simp only [Function.comp, entryBound, Item.ofContent] at hpacked ⊢
    omega
  unfold write
  dsimp only
  rw [List.length_append, List.length_append, hend]
  exact Nat.add_le_add_right hitems 22

theorem fits_of_bound {name : String} {b : Bytes} (hascii : ∀ c ∈ name.toList, c.toNat < 0x80)
    (hname : (Text.Utf8.encode name).length < 0x10000)
    (hbound : entryBound (name, b) < 0xFFFFFFFF) : (Item.ofContent name b).Fits := by
  have hpacked := length_packed_le name b
  have hsize : b.length ≤ (b.length + 2) * (b.length + 3000) := by nlinarith
  unfold entryBound at hbound
  dsimp only at hbound
  refine ⟨hascii, hname, by omega, ?_, ?_⟩
  · exact hsize.trans_lt (by omega)
  · rcases ofContent_form name b with h | h
    · exact .inr h.1
    · exact .inl h.1

/-- What is written from plain names and not too much content is read as it was written. -/
theorem readsBack_of_bound {entries : List (String × Bytes)} (hnames : (entries.map (·.1)).Nodup)
    (hplain : ∀ name ∈ entries.map (·.1), (∀ c ∈ name.toList, c.toNat < 0x80) ∧
      (Text.Utf8.encode name).length < 0x10000)
    (hcount : entries.length < 0xFFFF) (hbound : (entries.map entryBound).sum + 22 < 0xFFFFFFFF)
    (hwide : ¬ LooksWide (write entries)) : ReadsBack entries := by
  refine readsBack hnames (fun item hitem => ?_) hcount
    ((length_write_le entries).trans_lt hbound) hwide
  obtain ⟨e, he, rfl⟩ := List.mem_map.mp hitem
  have hle : entryBound e ≤ (entries.map entryBound).sum :=
    List.le_sum_of_mem (List.mem_map_of_mem he)
  obtain ⟨hascii, hname⟩ := hplain e.1 (List.mem_map_of_mem he)
  exact fits_of_bound hascii hname (hle.trans_lt (by omega))

theorem centralPart_concat (offset : Nat) (items : List Item) (e : Item) :
    centralPart offset (items ++ [e]) =
      centralPart offset items ++ e.centralRecord (offset + (localPart items).length) := by
  induction items generalizing offset with
  | nil => simp [centralPart, localPart]
  | cons first rest ih =>
    have hlength : (localPart (first :: rest)).length =
        first.localRecord.length + (localPart rest).length := by
      rw [localPart, List.flatMap_cons, List.length_append, localPart]
    rw [List.cons_append, centralPart, ih, centralPart, hlength, List.append_assoc, Nat.add_assoc]

/-- Where a directory record tells of no comment and no disk it has zeros; behind a short name they
stand where the end of an archive may have a record of the wide format. -/
theorem Item.zeros_centralRecord {e : Item} (hleast : 4 ≤ (Text.Utf8.encode e.name).length)
    (hmost : (Text.Utf8.encode e.name).length ≤ 8) (offset : Nat) :
    ∃ front back, e.centralRecord offset = front ++ (Bytes.ofLittleEndian 4 0 ++ back) ∧
      back.length = 16 := by
  obtain ⟨k, hk⟩ := Nat.exists_eq_add_of_le hleast
  have hzeros : ∀ rest, Bytes.ofLittleEndian 2 0 ++ (Bytes.ofLittleEndian 2 0 ++
      (Bytes.ofLittleEndian 2 0 ++ (Bytes.ofLittleEndian 2 0 ++ rest))) =
        List.replicate k 0 ++ (Bytes.ofLittleEndian 4 0 ++ (List.replicate (4 - k) 0 ++ rest)) := by
    intro rest
    calc _ = List.replicate 8 0 ++ rest := rfl
      _ = List.replicate (k + (4 + (4 - k))) 0 ++ rest := by
        rw [show k + (4 + (4 - k)) = 8 by omega]
      _ = _ := by simp only [List.replicate_add, List.append_assoc]; rfl
  refine ⟨Bytes.ofLittleEndian 4 Format.centralSignature ++ Bytes.ofLittleEndian 2 (3 * 256 + 46) ++
    Bytes.ofLittleEndian 2 20 ++ e.sharedFields ++ List.replicate k 0,
    List.replicate (4 - k) (0 : UInt8) ++ Bytes.ofLittleEndian 4 (0o100644 <<< 16) ++
    Bytes.ofLittleEndian 4 offset ++ Text.Utf8.encode e.name, ?_, ?_⟩
  · simp only [centralRecord, List.append_assoc, hzeros]
  · simp only [List.length_append, List.length_replicate, Bytes.length_ofLittleEndian]
    omega

/-- A short last name keeps the end of an archive from looking like a record of the wide format. -/
theorem not_looksWide (entries : List (String × Bytes)) {name : String} (b : Bytes)
    (hleast : 4 ≤ (Text.Utf8.encode name).length) (hmost : (Text.Utf8.encode name).length ≤ 8) :
    ¬ LooksWide (write (entries ++ [(name, b)])) := by
  have hitems : (entries ++ [(name, b)]).map (fun e => Item.ofContent e.1 e.2) =
      itemsOf entries ++ [Item.ofContent name b] := List.map_append
  obtain ⟨front, back, hrecord, hback⟩ := Item.zeros_centralRecord (e := Item.ofContent name b)
    hleast hmost (0 + (localPart (itemsOf entries)).length)
  unfold LooksWide write
  dsimp only
  rw [hitems, centralPart_concat, hrecord]
  generalize hend : endRecord _ _ _ = ending
  have hsize : ending.length = 22 := by
    rw [← hend]
    simp [endRecord]
  generalize localPart (itemsOf entries ++ [Item.ofContent name b]) = locals
  generalize centralPart 0 (itemsOf entries) = before
  have hsplit : locals ++ (before ++ (front ++ (Bytes.ofLittleEndian 4 0 ++ back))) ++ ending =
      (locals ++ before ++ front) ++ (Bytes.ofLittleEndian 4 0 ++ (back ++ ending)) := by
    simp only [List.append_assoc]
  rw [hsplit]
  generalize locals ++ before ++ front = rest
  have hplace : rest.length =
      (rest ++ (Bytes.ofLittleEndian 4 0 ++ (back ++ ending))).length - 42 := by
    simp only [List.length_append, Bytes.length_ofLittleEndian, hback, hsize]
    omega
  have hat : At (rest ++ (Bytes.ofLittleEndian 4 0 ++ (back ++ ending))).toArray _
      (Bytes.ofLittleEndian 4 0) := ⟨_, _, rfl, hplace⟩
  rw [hat.number (by decide)]
  decide

end ClassRecovery.Archive
