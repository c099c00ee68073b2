import Mathlib
import ClassRecovery.Archive.Reader
import ClassRecovery.Archive.Writer
import ClassRecovery.Proofs.Bytes

/-!
Reading an archive that was written. Each record is found where the one before it ends, and the
numbers in it are read as they were written, as long as they fit their fields. Two things can still
go wrong: a name that is read in another character set than it was written in, and a name whose end
looks like a record of the wide format. Both are kept out here.
-/

namespace ClassRecovery.Archive

/-- The archive with these entries is read as it was written: each entry is found under its name,
with the content it was given, and there are no others. -/
structure ReadsBack (entries : List (String × Bytes)) : Prop where
  reads : ∃ d, Directory.read (write entries).toArray = .ok d ∧
    (∀ name, name ∈ d.entries.map (·.name) ↔ name ∈ entries.map (·.1)) ∧
    ∀ name content, (name, content) ∈ entries →
      ∃ e, d.find? name = some e ∧ readContent (write entries).toArray e = .ok content

/-- A part of the data stands at a place. -/
def At (data : Array UInt8) (start : Nat) (part : Bytes) : Prop :=
  ∃ front back, data.toList = front ++ (part ++ back) ∧ front.length = start

section Parts

variable {data : Array UInt8} {start n width : Nat} {part front back : Bytes}

theorem At.append (h : At data start (front ++ back)) :
    At data start front ∧ At data (start + front.length) back := by
  obtain ⟨before, after, hdata, rfl⟩ := h
  exact ⟨⟨before, back ++ after, by rw [hdata, List.append_assoc], rfl⟩,
    ⟨before ++ front, after, by rw [hdata]; simp only [List.append_assoc],
      List.length_append⟩⟩

theorem At.extract (h : At data start part) (hn : part.length = n) :
    (data.extract start (start + n)).toList = part := by
  obtain ⟨before, after, hdata, rfl⟩ := h
  rw [Array.toList_extract, hdata, ← hn]
  simp

theorem At.le_size (h : At data start part) : start + part.length ≤ data.size := by
  obtain ⟨before, after, hdata, rfl⟩ := h
  rw [← Array.length_toList, hdata, List.length_append, List.length_append]
  omega

theorem At.slice (h : At data start part) (hn : part.length = n) :
    slice data start n = .ok part := by
  have hsize := h.le_size
  rw [hn] at hsize
  rw [Archive.slice, if_pos hsize, h.extract hn]

theorem At.number (h : At data start (Bytes.ofLittleEndian width n)) (hn : n < 256 ^ width) :
    number data start width = .ok n := by
  rw [Archive.number, h.slice (Bytes.length_ofLittleEndian width n)]
  exact congrArg _ (Bytes.littleEndian_ofLittleEndian hn)

/-- Nothing stands behind every part. -/
theorem At.ending (h : At data start part) : At data (start + part.length) [] :=
  ((List.append_nil part).symm ▸ h : At data start (part ++ [])).append.2

end Parts

/-- A field that stands behind another one. -/
theorem fieldOf_skip {w start width n : Nat} {rest : Bytes} (h : w ≤ start) :
    fieldOf (Bytes.ofLittleEndian w n ++ rest) start width = fieldOf rest (start - w) width := by
  unfold fieldOf
  rw [List.drop_append, Bytes.length_ofLittleEndian,
    List.drop_of_length_le (by rw [Bytes.length_ofLittleEndian]; exact h), List.nil_append]

theorem fieldOf_here {width n : Nat} {rest : Bytes} (h : n < 256 ^ width) :
    fieldOf (Bytes.ofLittleEndian width n ++ rest) 0 width = n := by
  unfold fieldOf
  rw [List.drop_zero, List.take_left' (Bytes.length_ofLittleEndian width n),
    Bytes.littleEndian_ofLittleEndian h]

theorem fieldOf_last {width n : Nat} (h : n < 256 ^ width) :
    fieldOf (Bytes.ofLittleEndian width n) 0 width = n :=
  List.append_nil (Bytes.ofLittleEndian width n) ▸ fieldOf_here h

namespace Item

/-- What the item is in a directory. -/
def entry (e : Item) (offset : Nat) : Entry where
  name := e.name
  encrypted := false
  method := e.method
  checksum := e.checksum
  packedSize := e.packed.length
  size := e.size
  header := offset

/-- The numbers of the item fit their fields, and its name is plain. -/
structure Fits (e : Item) : Prop where
  ascii : ∀ c ∈ e.name.toList, c.toNat < 0x80
  name : (Text.Utf8.encode e.name).length < 0x10000
  packed : e.packed.length < 0x100000000
  size : e.size < 0x100000000
  method : e.method = .stored ∨ e.method = .deflated

variable {e : Item} {data : Array UInt8} {start offset : Nat}

/-- The part of a directory record in front of the name. -/
def centralFields (e : Item) (offset : Nat) : Bytes :=
  Bytes.ofLittleEndian 4 Format.centralSignature ++
  Bytes.ofLittleEndian 2 (3 * 256 + 46) ++
  Bytes.ofLittleEndian 2 20 ++
  e.sharedFields ++
  Bytes.ofLittleEndian 2 0 ++
  Bytes.ofLittleEndian 2 0 ++
  Bytes.ofLittleEndian 2 0 ++
  Bytes.ofLittleEndian 2 0 ++
  Bytes.ofLittleEndian 4 (0o100644 <<< 16) ++
  Bytes.ofLittleEndian 4 offset

theorem centralRecord_eq (e : Item) (offset : Nat) :
    e.centralRecord offset = e.centralFields offset ++ Text.Utf8.encode e.name := rfl

theorem length_centralFields (e : Item) (offset : Nat) : (e.centralFields offset).length = 46 := by
  simp [centralFields, sharedFields]

theorem decode_encode {name : String} (h : ∀ c ∈ name.toList, c.toNat < 0x80) :
    CodePage.decode (Text.Utf8.encode name) = name := by
  have hchar : ∀ c ∈ name.toList, (Text.Utf8.encodeChar c).map CodePage.char = [c] := by
    intro c hc
    have hsmall := h c hc
    have hbyte : (UInt8.ofNat c.toNat).toNat = c.toNat := by
      rw [UInt8.toNat_ofNat']
      omega
    have hlow : UInt8.ofNat c.toNat < 0x80 :=
      UInt8.lt_iff_toNat_lt.mpr (by rw [hbyte]; exact hsmall)
    simp [Text.Utf8.encodeChar, Text.Utf8.encodeScalar, hsmall, CodePage.char, hlow, hbyte]
  apply String.toList_inj.mp
  rw [CodePage.decode, String.toList_ofList, Text.Utf8.encode, List.map_flatMap,
    List.flatMap_congr hchar]
  simp

theorem nameFlags_eq_zero {name : String} (h : ∀ c ∈ name.toList, c.toNat < 0x80) :
    nameFlags name = 0 := by
  rw [nameFlags, if_pos]
  simpa using h

theorem number_lt (h : e.Fits) : e.method.number < 0x10000 := by
  rcases h.method with hm | hm <;> rw [hm] <;> decide

/-- The fields of a directory record that are read. -/
theorem fieldOf_central (h : e.Fits) (hoffset : offset < 0x100000000) :
    fieldOf (e.centralFields offset) 8 2 = 0 ∧
    fieldOf (e.centralFields offset) 10 2 = e.method.number ∧
    fieldOf (e.centralFields offset) 16 4 = e.checksum.toNat ∧
    fieldOf (e.centralFields offset) 20 4 = e.packed.length ∧
    fieldOf (e.centralFields offset) 24 4 = e.size ∧
    fieldOf (e.centralFields offset) 28 2 = (Text.Utf8.encode e.name).length ∧
    fieldOf (e.centralFields offset) 30 2 = 0 ∧
    fieldOf (e.centralFields offset) 32 2 = 0 ∧
    fieldOf (e.centralFields offset) 42 4 = offset := by
  have hflags := nameFlags_eq_zero h.ascii
  have hchecksum : e.checksum.toNat < 0x100000000 := e.checksum.toNat_lt
  simp only [centralFields, sharedFields, List.append_assoc, hflags]
  refine ⟨?_, ?_, ?_, ?_, ?_, ?_, ?_, ?_, ?_⟩ <;>
    simp [fieldOf_skip, fieldOf_here, fieldOf_last, number_lt h, hchecksum, h.name, h.packed,
      h.size, hoffset]

theorem readEntry_eq (h : e.Fits) (hoffset : offset < 0x100000000)
    (hat : At data start (e.centralRecord offset)) :
    readEntry data 0 start =
      .ok (e.entry offset, start + (e.centralRecord offset).length) := by
  rw [centralRecord_eq] at hat
  obtain ⟨hfields, hname⟩ := hat.append
  have hfront := hfields
  rw [centralFields] at hfront
  simp only [List.append_assoc] at hfront
  have hlength := e.length_centralFields offset
  rw [hlength] at hname
  obtain ⟨hflags, hmethod, hchecksum, hpacked, hsize, hnameSize, hextra, hcomment, hheader⟩ :=
    fieldOf_central h hoffset
  have hnumber : Method.ofNumber e.method.number = e.method := by
    rcases h.method with hm | hm <;> rw [hm] <;> rfl
  have hplain : e.method ≠ .other 99 := by
    rcases h.method with hm | hm <;> rw [hm] <;> nofun
  have hnone : slice data (start + 46 + (Text.Utf8.encode e.name).length) 0 = .ok [] :=
    hname.ending.slice rfl
  have hfields' : ∀ entry, Extra.apply entry [] = .ok { entry, rest := [] } := fun _ => rfl
  have hheader' : ¬ 1 <<< 64 ≤ offset := by omega
  unfold readEntry
  simp only [hfront.append.1.number (by decide), hfields.slice hlength, hflags, hmethod, hchecksum,
    hpacked, hsize, hnameSize, hextra, hcomment, hheader, hname.slice rfl, hnone, hfields',
    hnumber, hplain, hheader', decode_encode h.ascii, Nat.add_zero, bind, Except.bind, pure,
    Except.pure]
  simp [entry, centralRecord_eq, hlength, Nat.add_assoc]

/-- The part of a record in front of the packed bytes that is not read, but for its first field. -/
def localFront (e : Item) : Bytes :=
  Bytes.ofLittleEndian 2 20 ++
  Bytes.ofLittleEndian 2 (nameFlags e.name) ++
  Bytes.ofLittleEndian 2 e.method.number ++
  Bytes.ofLittleEndian 2 0 ++
  Bytes.ofLittleEndian 2 firstDay ++
  Bytes.ofLittleEndian 4 e.checksum.toNat ++
  Bytes.ofLittleEndian 4 e.packed.length ++
  Bytes.ofLittleEndian 4 e.size

theorem localRecord_eq (e : Item) :
    e.localRecord = Bytes.ofLittleEndian 4 Format.localSignature ++ (e.localFront ++
      (Bytes.ofLittleEndian 2 (Text.Utf8.encode e.name).length ++
        (Bytes.ofLittleEndian 2 0 ++ (Text.Utf8.encode e.name ++ e.packed)))) := by
  simp only [localRecord, sharedFields, localFront, List.append_assoc]

theorem length_localFront (e : Item) : e.localFront.length = 22 := by simp [localFront]

/-- The packed bytes are found behind the record in front of them. -/
theorem packedBytes_eq (h : e.Fits) (hoffset : offset < 0x100000000)
    (hat : At data offset e.localRecord) : packedBytes data (e.entry offset) = .ok e.packed := by
  rw [localRecord_eq] at hat
  obtain ⟨hsignature, hfront⟩ := hat.append
  obtain ⟨hnameSize, hextra⟩ := hfront.append.2.append
  obtain ⟨hextra, hname⟩ := hextra.append
  have hpacked := hname.append.2
  simp only [Bytes.length_ofLittleEndian, e.length_localFront] at hnameSize hextra hpacked
  have hnameSize' : number data (offset + 26) 2 = .ok (Text.Utf8.encode e.name).length :=
    hnameSize.number h.name
  have hextra' : number data (offset + 28) 2 = .ok 0 := hextra.number (by decide)
  have hposition : ¬ positions ≤ offset := by
    unfold positions
    omega
  unfold packedBytes
  simp only [entry, hsignature.number (by decide), Bool.false_eq_true, hposition, hnameSize',
    hextra', ne_eq, not_true_eq_false, ↓reduceIte, bind, Except.bind, pure, Except.pure]
  exact congrArg _ (hpacked.extract rfl)

end Item

/-- Content is packed only if it unpacks to what it was, and stored as it is otherwise. -/
theorem ofContent_form (name : String) (b : Bytes) :
    (Item.ofContent name b).method = .deflated ∧
        Inflate.inflate (Item.ofContent name b).packed = .ok b ∨
      (Item.ofContent name b).method = .stored ∧ (Item.ofContent name b).packed = b := by
  unfold Item.ofContent
  dsimp only
  split
  · next hunpacks =>
    unfold unpacksTo at hunpacks
    split at hunpacks
    · next content hcontent => exact .inl ⟨rfl, hcontent.trans (congrArg _ (eq_of_beq hunpacks))⟩
    · cases hunpacks
  · exact .inr ⟨rfl, rfl⟩

/-- An entry that was packed from some content is read as that content. -/
theorem readContent_ofContent {data : Array UInt8} {offset : Nat} {name : String} {b : Bytes}
    (h : (Item.ofContent name b).Fits) (hoffset : offset < 0x100000000)
    (hat : At data offset (Item.ofContent name b).localRecord) :
    readContent data ((Item.ofContent name b).entry offset) = .ok b := by
  have hpacked := Item.packedBytes_eq h hoffset hat
  have hchecked : checked ((Item.ofContent name b).entry offset) b = .ok b := if_pos rfl
  unfold readContent content
  rw [hpacked]
  simp only [bind, Except.bind]
  rcases ofContent_form name b with ⟨hmethod, hinflate⟩ | ⟨hmethod, hstored⟩
  · rw [show ((Item.ofContent name b).entry offset).method = .deflated from hmethod]
    simp only [hinflate, hchecked, pure, Except.pure]
  · rw [show ((Item.ofContent name b).entry offset).method = .stored from hmethod]
    simp only [hstored, hchecked, pure, Except.pure]

/-- The entries of a directory whose records stand from `offset` on. -/
def entriesFrom : (offset : Nat) → List Item → List Entry
  | _, [] => []
  | offset, e :: rest => e.entry offset :: entriesFrom (offset + e.localRecord.length) rest

theorem map_name_entriesFrom (offset : Nat) (items : List Item) :
    (entriesFrom offset items).map (·.name) = items.map (·.name) := by
  induction items generalizing offset with
  | nil => rfl
  | cons e rest ih => simp [entriesFrom, ih, Item.entry]

theorem mem_entriesFrom {data : Array UInt8} {offset : Nat} {items : List Item} {entry : Entry}
    (hat : At data offset (localPart items)) (h : entry ∈ entriesFrom offset items) :
    ∃ item ∈ items, ∃ place, entry = item.entry place ∧ At data place item.localRecord := by
  induction items generalizing offset with
  | nil => cases h
  | cons e rest ih =>
    rw [localPart, List.flatMap_cons] at hat
    rcases List.mem_cons.mp h with rfl | h
    · exact ⟨e, List.mem_cons_self, offset, rfl, hat.append.1⟩
    · obtain ⟨item, hitem, hplace⟩ := ih hat.append.2 h
      exact ⟨item, List.mem_cons_of_mem _ hitem, hplace⟩

/-- The directory is read record by record. -/
theorem readEntries_eq {data : Array UInt8} {start offset : Nat} {items : List Item}
    (hitems : ∀ e ∈ items, e.Fits) (hoffset : offset + (localPart items).length < 0x100000000)
    (hat : At data start (centralPart offset items)) :
    readEntries data 0 items.length start = .ok (entriesFrom offset items) := by
  induction items generalizing offset start with
  | nil => rfl
  | cons e rest ih =>
    rw [centralPart] at hat
    rw [localPart, List.flatMap_cons, List.length_append] at hoffset
    have hrest := ih (fun item hitem => hitems item (List.mem_cons_of_mem _ hitem))
      (by rw [localPart]; omega) hat.append.2
    rw [List.length_cons, readEntries,
      Item.readEntry_eq (hitems e List.mem_cons_self) (by omega) hat.append.1]
    simp only [bind, Except.bind, hrest, pure, Except.pure]
    rfl

theorem findEnd_here {data : Array UInt8} {least start : Nat} (hend : isEndAt data start = true)
    (hleast : least ≤ start) : findEnd data least start = some start := by
  cases start with
  | zero =>
    rw [findEnd, if_pos]
    simp [hend, Nat.le_zero.mp hleast]
  | succ start => rw [findEnd, if_neg (Nat.not_lt.mpr hleast), if_pos hend]

/-- The numbers in the record at the end. -/
theorem readEndRecord_eq {data : Array UInt8} {start count size offset : Nat}
    (hcount : count < 0x10000) (hsize : size < 0x100000000) (hoffset : offset < 0x100000000)
    (hat : At data start (endRecord count size offset)) :
    readEndRecord data start = .ok ⟨0, 0, count, count, size, offset, 0⟩ := by
  have hlength : (endRecord count size offset).length = 22 := by simp [endRecord]
  have hnone : slice data (start + 22) 0 = .ok [] := (hlength ▸ hat.ending).slice rfl
  unfold readEndRecord
  rw [hat.slice hlength]
  simp [endRecord, fieldOf_skip, fieldOf_here, fieldOf_last, hcount, hsize, hoffset, hnone, bind,
    Except.bind, pure, Except.pure]

/-- What stands in front of the end of the archive is taken for a record of the wide format. -/
def LooksWide (b : Bytes) : Prop :=
  number b.toArray (b.length - 42) 4 = .ok Format.wideLocatorSignature

theorem locate_eq {data : Array UInt8} {count size offset : Nat}
    (hdata : data.size = offset + size + 22) (hwide : ¬ LooksWide data.toList) :
    locate data ⟨0, 0, count, count, size, offset, 0⟩ (offset + size) = .ok ⟨0, offset, count⟩ := by
  unfold LooksWide at hwide
  rw [Array.toArray_toList, Array.length_toList] at hwide
  have hplace : ¬ offset + size < size + offset := by omega
  have hstart : offset + size - size - offset = 0 := by omega
  unfold locate
  by_cases hback : 20 + 22 + 0 ≤ data.size
  · obtain ⟨n, hn⟩ : ∃ n, number data (data.size - 42) 4 = .ok n := by
      rw [number, slice, if_pos (by omega)]
      exact ⟨_, rfl⟩
    have hne : n ≠ Format.wideLocatorSignature := fun he => hwide (he ▸ hn)
    simp only [hback, hn, hne, hplace, hstart, ↓reduceIte, bind, Except.bind, pure, Except.pure,
      Nat.add_zero]
  · simp only [hback, hplace, hstart, ↓reduceIte, pure, Except.pure, Nat.add_zero]

/-- The items that stand for entries. -/
def itemsOf (entries : List (String × Bytes)) : List Item :=
  entries.map fun e => Item.ofContent e.1 e.2

/-- The directory of an archive that was written: the entries in their order. -/
theorem read_write {entries : List (String × Bytes)} (hitems : ∀ e ∈ itemsOf entries, e.Fits)
    (hcount : entries.length < 0xFFFF) (hsize : (write entries).length < 0xFFFFFFFF)
    (hwide : ¬ LooksWide (write entries)) :
    Directory.read (write entries).toArray = .ok ⟨entriesFrom 0 (itemsOf entries)⟩ := by
  have hwrite : write entries = localPart (itemsOf entries) ++
      (centralPart 0 (itemsOf entries) ++ endRecord (itemsOf entries).length
        (centralPart 0 (itemsOf entries)).length (localPart (itemsOf entries)).length) := by
    rw [← List.append_assoc]
    rfl
  have hcount' : (itemsOf entries).length < 0xFFFF := by
    rw [itemsOf, List.length_map]
    exact hcount
  generalize itemsOf entries = items at *
  have hat : At (write entries).toArray 0 (localPart items ++ (centralPart 0 items ++
      endRecord items.length (centralPart 0 items).length (localPart items).length)) :=
    ⟨[], [], by rw [hwrite]; simp, rfl⟩
  have hend : (endRecord items.length (centralPart 0 items).length
    (localPart items).length).length = 22 := by simp [endRecord]
  have htotal := congrArg List.length hwrite
  rw [List.length_append, List.length_append, hend] at htotal
  have hdata : (write entries).toArray.size =
      (localPart items).length + (centralPart 0 items).length + 22 := by
    rw [List.size_toArray, htotal, Nat.add_assoc]
  replace hwide : ¬ LooksWide (write entries).toArray.toList := hwide
  rw [htotal] at hsize
  generalize (write entries).toArray = data at *
  have hcentral := hat.append.2.append.1
  have hrecord := hat.append.2.append.2
  rw [Nat.zero_add] at hcentral hrecord
  have hstart : data.size - 22 = (localPart items).length + (centralPart 0 items).length := by
    omega
  have hsignature :
      isEndAt data ((localPart items).length + (centralPart 0 items).length) = true := by
    have hfirst := hrecord
    simp only [endRecord, List.append_assoc] at hfirst
    rw [isEndAt, hfirst.append.1.number (by decide)]
    rfl
  have hfound : findEnd data (data.size - (22 + 0xFFFF))
      ((localPart items).length + (centralPart 0 items).length) =
        some ((localPart items).length + (centralPart 0 items).length) :=
    findEnd_here hsignature (by omega)
  have hsmall : EndRecord.tooSmall ⟨0, 0, items.length, items.length,
      (centralPart 0 items).length, (localPart items).length, 0⟩ = false := by
    simp only [EndRecord.tooSmall, Bool.or_eq_false_iff, decide_eq_false_iff_not]
    omega
  have hposition : ¬ positions ≤ (localPart items).length := by
    unfold positions
    omega
  have hlong : ¬ data.size < 22 := by omega
  unfold Directory.read
  simp only [hstart, hfound, readEndRecord_eq (by omega) (by omega) (by omega) hrecord, hsmall,
    locate_eq hdata hwide, hposition, readEntries_eq hitems (by omega) hcentral, hlong,
    ↓reduceIte, bind, Except.bind, pure, Except.pure]
  rfl

theorem find?_entriesFrom {items : List Item} {name : String}
    (hname : name ∈ items.map (·.name)) :
    ∃ e, Directory.find? ⟨entriesFrom 0 items⟩ name = some e ∧ e ∈ entriesFrom 0 items ∧
      e.name = name := by
  have hsome : (Directory.find? ⟨entriesFrom 0 items⟩ name).isSome := by
    rw [← map_name_entriesFrom 0] at hname
    simpa [Directory.find?] using hname
  obtain ⟨e, he⟩ := Option.isSome_iff_exists.mp hsome
  exact ⟨e, he, by simpa using List.mem_of_find?_eq_some he, by simpa using List.find?_some he⟩

/-- An archive whose names are plain and differ, and which is not too large for the narrow format,
is read as it was written. -/
theorem readsBack {entries : List (String × Bytes)} (hnames : (entries.map (·.1)).Nodup)
    (hitems : ∀ e ∈ itemsOf entries, e.Fits) (hcount : entries.length < 0xFFFF)
    (hsize : (write entries).length < 0xFFFFFFFF) (hwide : ¬ LooksWide (write entries)) :
    ReadsBack entries := by
  have hnames' : (itemsOf entries).map (·.name) = entries.map (·.1) := by
    rw [itemsOf, List.map_map]
    rfl
  refine ⟨_, read_write hitems hcount hsize hwide, fun name => ?_, fun name b hmem => ?_⟩
  · rw [map_name_entriesFrom, hnames']
  · have hname : name ∈ (itemsOf entries).map (·.name) := by
      rw [hnames']
      exact List.mem_map.mpr ⟨_, hmem, rfl⟩
    obtain ⟨e, hfind, he, hsame⟩ := find?_entriesFrom hname
    have hat : At (write entries).toArray 0 (localPart (itemsOf entries)) :=
      ⟨[], _, (List.append_assoc _ _ _).trans (List.nil_append _).symm, rfl⟩
    obtain ⟨item, hitem, place, rfl, hplace⟩ := mem_entriesFrom hat he
    obtain ⟨⟨name', b'⟩, hentry, rfl⟩ := List.mem_map.mp hitem
    obtain rfl : name' = name := hsame
    obtain rfl : b' = b :=
      (Prod.mk.inj (List.inj_on_of_nodup_map hnames hentry hmem rfl)).2
    refine ⟨_, hfind, readContent_ofContent (hitems _ hitem) ?_ hplace⟩
    have hsize' := hplace.le_size
    rw [List.size_toArray] at hsize'
    omega

end ClassRecovery.Archive
